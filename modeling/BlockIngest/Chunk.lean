import BlockIngest.Block.Basic

/-!
# Chunks

A chunk is a range of heights that is fetched as one unit of work.  A range is never empty, and a
completed chunk holds exactly one block for each height of its range, in ascending order; both facts
are part of the types.

## Main definitions

* `ChunkRange`, `ChunkRange.make` — a range, and a range from untrusted ends.
* `ChunkRange.size`, `ChunkRange.heights`, `ChunkRange.compare` — its heights and the order of
  ranges.
* `CompletedChunk`, `CompletedChunk.make` — a range with a block for each height.

## Main results

* `CompletedChunk.heights_eq` — the heights of a completed chunk are those of its range.
-/

namespace BlockIngest

/-- A range of heights; both ends belong to it. -/
structure ChunkRange where
  /-- The lowest height. -/
  first : Nat
  /-- The highest height. -/
  last : Nat
  /-- There is at least one height. -/
  ordered : first ≤ last
  deriving DecidableEq

namespace ChunkRange

/-- The range with these ends, or the complaint that they are in the wrong order. -/
def make (first last : Nat) : Except String ChunkRange :=
  if h : first ≤ last then .ok ⟨first, last, h⟩
  else .error s!"chunk start {first} must not exceed end {last}"

/-- How many heights there are. -/
def size (r : ChunkRange) : Nat := r.last - r.first + 1

/-- The heights in ascending order. -/
def heights (r : ChunkRange) : List Nat := List.range' r.first r.size

/-- Whether a height belongs to the range. -/
def Mem (r : ChunkRange) (h : Nat) : Prop := r.first ≤ h ∧ h ≤ r.last

/-- The range as text. -/
def message (r : ChunkRange) : String := s!"[{r.first}, {r.last}]"

/-- Ranges are ordered by their lowest height, then by their highest. -/
def compare (r s : ChunkRange) : Ordering :=
  (Ord.compare r.first s.first).then (Ord.compare r.last s.last)

/-- The heights of a range are those that lie in it. -/
theorem mem_heights {r : ChunkRange} {h : Nat} : h ∈ r.heights ↔ r.Mem h := by
  have := r.ordered
  unfold heights size Mem
  rw [List.mem_range'_1]
  omega

/-- A range has as many heights as its size says. -/
@[simp] theorem length_heights (r : ChunkRange) : r.heights.length = r.size := List.length_range'

end ChunkRange

/-- A range whose every height has been fetched. -/
structure CompletedChunk where
  /-- The range. -/
  range : ChunkRange
  /-- The blocks. -/
  blocks : List FetchedBlock
  /-- One block for each height, in ascending order. -/
  heights_eq : blocks.map FetchedBlock.height = range.heights

namespace CompletedChunk

/-- The first block that is not of the height due at its place, with that height.  `due` is the
height due first. -/
def misplaced? (due : Nat) : List FetchedBlock → Option (Nat × Nat)
  | [] => none
  | b :: bs => if b.height = due then misplaced? (due + 1) bs else some (b.height, due)

/-- Blocks of which none is misplaced have consecutive heights from the one that is due. -/
theorem heights_of_misplaced? {due : Nat} {bs : List FetchedBlock} (h : misplaced? due bs = none) :
    bs.map FetchedBlock.height = List.range' due bs.length := by
  induction bs generalizing due with
  | nil => rfl
  | cons b bs ih =>
    unfold misplaced? at h
    split at h
    next eq => simp [List.range'_succ, eq, ih h]
    next => cases h

/-- The chunk with these blocks, or the complaint that blocks are missing, too many or out of
place. -/
def make (range : ChunkRange) (blocks : List FetchedBlock) : Except String CompletedChunk :=
  if size : blocks.length ≠ range.size then
    .error s!"chunk {range.message} expects {range.size} blocks, got {blocks.length}"
  else
    match place : misplaced? range.first blocks with
    | some (height, due) =>
        .error s!"chunk {range.message} holds height {height} where {due} was expected"
    | none => .ok ⟨range, blocks, by
        rw [heights_of_misplaced? place, Decidable.of_not_not size]; rfl⟩

/-- How many transactions the blocks hold. -/
def txCount (c : CompletedChunk) : Nat := c.blocks.foldr (fun b count => b.txs.length + count) 0

/-- A chunk that was made has the range and the blocks it was made of. -/
theorem range_of_make {range : ChunkRange} {blocks : List FetchedBlock} {c : CompletedChunk}
    (h : make range blocks = .ok c) : c.range = range ∧ c.blocks = blocks := by
  unfold make at h
  split at h
  · cases h
  · split at h
    · cases h
    · cases h; exact ⟨rfl, rfl⟩

end CompletedChunk

end BlockIngest
