import Mathlib.Algebra.Group.Nat.Defs
import Mathlib.Data.List.Nodup
import BlockIngest.Proofs.Fetch.Replies
import BlockIngest.Proofs.Fetch.Step

/-!
# Nothing is fetched in part

A height is put together from two answers of the node, and a chunk from many heights.  In both
places lists are paired off, and pairing ends with the shorter list without a word.  That
nothing is lost there is seen to by the checks in front: a height is put together only if both
answers are about it and equally long, and a chunk only if its blocks are those of its range,
each once and in order.

The number of a transaction has 32 bits.  As long as a block has no more transactions than there
are such numbers, a transaction is known by its height and its number.

## Main definitions

* `FetchedBlock.Pairs` — a block with all outcomes of its transactions.

## Main results

* `FetchedBlock.pairs_of_assemble` — what is put together is complete.
* `CompletedChunk.exists_make_iff` — a chunk is made of the heights of its range alone.
* `CompletedChunk.whole_of_parts` — **nothing is fetched in part.**
-/

namespace BlockIngest

namespace FetchedBlock

/-- **A block with all outcomes of its transactions**, each of them named, and numbered as long as
there are numbers. -/
structure Pairs (f : FetchedBlock) (b : Block) (r : BlockResults) : Prop where
  /-- The block is unchanged. -/
  block_eq : f.block = b
  /-- There is one record for each transaction. -/
  length_eq : f.txs.length = b.txs.length
  /-- The records follow the transactions and their outcomes, position by position. -/
  record : b.txs.length ≤ 2 ^ 32 → ∀ (i : ℕ) (tx : List UInt8) (response : Json),
    b.txs[i]? = some tx → r.deliverTx[i]? = some response →
      f.txs[i]? = some
        { height := b.height, index := i, hash := txHash tx, tx := tx, response := response }
  /-- No two of them have the same height and number. -/
  keys_nodup : b.txs.length ≤ 2 ^ 32 → (f.txs.map fun t => (t.height, t.index)).Nodup

variable {b : Block} {r : BlockResults} {f : FetchedBlock}

/-- A block and its outcomes are put together if they are about one height, and there is one
outcome for each transaction. -/
theorem exists_assemble_iff :
    (∃ f, assemble b r = .ok f) ↔ r.height = b.height ∧ r.deliverTx.length = b.txs.length := by
  unfold assemble
  constructor
  · rintro ⟨f, h⟩
    split at h
    · cases h
    · next hheight =>
      split at h
      · cases h
      · next hlength => exact ⟨not_not.mp hheight, not_not.mp hlength⟩
  · rintro ⟨hheight, hlength⟩
    rw [if_neg (not_not_intro hheight), if_neg (not_not_intro hlength)]
    exact ⟨_, rfl⟩

theorem txs_of_assemble (h : assemble b r = .ok f) :
    f.txs = pair b.height 0 b.txs r.deliverTx := by
  unfold assemble at h
  split at h
  · cases h
  · split at h
    · cases h
    · cases h
      rfl

/-- **What is put together is complete.** -/
theorem pairs_of_assemble (h : assemble b r = .ok f) : f.Pairs b r := by
  have hassembled : f.Assembled := ⟨b, r, h⟩
  have hblock := block_of_assemble h
  have hlength := length_txs hassembled
  have hkeys := numbers_txs hassembled
  rw [hblock] at hlength hkeys
  refine ⟨hblock, hlength, fun hle i tx response htx hresponse => ?_, fun hle => ?_⟩
  · have hlt := (List.getElem?_eq_some_iff.mp htx).1
    have hzip : (b.txs.zip r.deliverTx)[i]? = some (tx, response) :=
      List.getElem?_zip_eq_some.mpr ⟨htx, hresponse⟩
    have hnumber : i % 0x100000000 = i := Nat.mod_eq_of_lt (by omega)
    rw [txs_of_assemble h, pair_zero, List.getElem?_mapIdx, hzip, Option.map_some, hnumber]
  · -- there are enough numbers, so that none of them has wrapped round
    rw [hkeys]
    refine List.Nodup.map_on (fun i hi j hj heq => ?_) List.nodup_range
    rw [List.mem_range] at hi hj
    have hij : i % 0x100000000 = j % 0x100000000 := congrArg Prod.snd heq
    omega

end FetchedBlock

namespace CompletedChunk

variable {range : ChunkRange} {fs : List FetchedBlock}

/-- A chunk is made of the heights of its range, each once and in order, and of nothing else. -/
theorem exists_make_iff : (∃ c, make range fs = .ok c) ↔
    fs.map FetchedBlock.height = List.range' range.first (range.last + 1 - range.first) := by
  have hordered := range.ordered
  have hsize : range.last + 1 - range.first = range.size := by
    unfold ChunkRange.size
    omega
  rw [hsize]
  constructor
  · rintro ⟨c, hc⟩
    obtain ⟨hrange, hblocks⟩ := range_of_make hc
    have hheights := c.heights_eq
    rwa [hrange, hblocks] at hheights
  · intro hheights
    have hlength : fs.length = range.size := by
      have hlengths := congrArg List.length hheights
      rwa [List.length_map, List.length_range'] at hlengths
    refine make_of_consecutive ?_ hlength
    unfold Consecutive
    rw [hheights, hlength]

/-- **Nothing is fetched in part.**  Whatever the node answers about a block and its outcomes, they
are put together just if they agree, and then completely; and whatever heights were fetched, they
make a chunk just if they are those of its range from the lowest to the highest, and the chunk
holds them as they are. -/
theorem whole_of_parts (b : Block) (r : BlockResults) (range : ChunkRange)
    (fs : List FetchedBlock) :
    ((∃ f, FetchedBlock.assemble b r = .ok f) ↔
        r.height = b.height ∧ r.deliverTx.length = b.txs.length) ∧
      (∀ f, FetchedBlock.assemble b r = .ok f → f.Pairs b r) ∧
      ((∃ c, make range fs = .ok c) ↔ fs.map FetchedBlock.height
        = List.range' range.first (range.last + 1 - range.first)) ∧
      ∀ c, make range fs = .ok c → c.range = range ∧ c.blocks = fs :=
  ⟨FetchedBlock.exists_assemble_iff, fun _ => FetchedBlock.pairs_of_assemble, exists_make_iff,
    fun _ => range_of_make⟩

end CompletedChunk
end BlockIngest
