import BlockIngest.Buffer.Call
import BlockIngest.Proofs.HeightMap

/-!
# What the operations of the buffer do

A chunk that wants in is dropped, let in or refused.  The lemmas here say when, and
what of the buffer is changed; listening, forgetting and announcing change no chunk.

## Main definitions

* `Buffer.SameChunks` — buffers with the same chunks.

## Main results

* `Buffer.admission_eq_stale`, `Buffer.admission_eq_stored`, `Buffer.admission_eq_full` —
  when a chunk is dropped, let in and refused.
* `Buffer.offer_of_stored`, `Buffer.take_some` — a chunk that is let in, and one that is
  taken out.
* `Buffer.mem_listen`, `Buffer.mem_forget` — who listens.
* `Buffer.stepPush_cases` — what a call that puts a chunk in changes.
-/

namespace BlockIngest
namespace Buffer

variable {b b' : Buffer} {d : CompletedChunk} {t u : TaskId}

/-! ### Admission -/

theorem admission_eq_stale : b.admission d = .stale ↔ d.range.first < b.nextCommit := by
  unfold admission
  by_cases hlow : d.range.first < b.nextCommit
  · simp [hlow]
  · rw [if_neg hlow]
    split <;> simp [hlow]

/-- A chunk that is not below what is due is let in if there is room or if it is the due
one. -/
theorem admission_eq_stored : b.admission d = .stored ↔
    b.nextCommit ≤ d.range.first ∧
      (b.chunks.size < b.capacity ∨ d.range.first = b.nextCommit) := by
  unfold admission hasRoom
  by_cases hlow : d.range.first < b.nextCommit
  · simp [hlow, Nat.not_le.mpr hlow]
  · rw [if_neg hlow]
    split
    · next hin => simpa [Nat.not_lt.mp hlow] using hin
    · next hin => simpa [Nat.not_lt.mp hlow] using hin

theorem admission_eq_full : b.admission d = .full ↔
    b.nextCommit < d.range.first ∧ b.capacity ≤ b.chunks.size := by
  unfold admission hasRoom
  by_cases hlow : d.range.first < b.nextCommit
  · have hnot : ¬ b.nextCommit < d.range.first := by omega
    simp [hlow, hnot]
  · rw [if_neg hlow]
    split
    · next hin =>
      simp only [decide_eq_true_eq] at hin
      simp only [reduceCtorEq, false_iff]
      omega
    · next hin =>
      simp only [decide_eq_true_eq] at hin
      simp only [true_iff]
      omega

theorem offer_of_stored (h : b.admission d = .stored) :
    b.offer d = (.stored, { b with chunks := b.chunks.insert d.range.first d }.announce) := by
  unfold offer
  rw [h]

/-! ### Taking out -/

theorem take_some (h : b.take = (some d, b')) :
    b.chunks.find? b.nextCommit = some d ∧ b' = { b with
      chunks := b.chunks.erase b.nextCommit
      nextCommit := Height.next d.range.last } := by
  unfold take at h
  split at h
  · next hfind =>
    cases h
    exact ⟨hfind, rfl⟩
  · cases h

theorem take_none (h : b.take = (none, b')) : b' = b := by
  unfold take at h
  split at h
  · cases h
  · cases h
    rfl

/-! ### Listening -/

/-- Buffers with the same chunks, of which the same one is due. -/
structure SameChunks (b b' : Buffer) : Prop where
  chunks_eq : b'.chunks = b.chunks
  nextCommit_eq : b'.nextCommit = b.nextCommit
  capacity_eq : b'.capacity = b.capacity

theorem SameChunks.refl (b : Buffer) : SameChunks b b := ⟨rfl, rfl, rfl⟩

theorem SameChunks.of_eq (h : b' = b) : SameChunks b b' := h ▸ .refl b

theorem same_listen (b : Buffer) (t : TaskId) : SameChunks b (b.listen t) := by
  unfold listen
  split <;> exact ⟨rfl, rfl, rfl⟩

theorem same_forget (b : Buffer) (t : TaskId) : SameChunks b (b.forget t) := ⟨rfl, rfl, rfl⟩

theorem mem_listen : u ∈ (b.listen t).listeners ↔ u ∈ b.listeners ∨ u = t := by
  unfold listen
  split
  · next ht =>
    constructor
    · exact Or.inl
    · rintro (hu | rfl)
      · exact hu
      · exact ht
  · simp

theorem mem_forget : u ∈ (b.forget t).listeners ↔ u ∈ b.listeners ∧ u ≠ t := by
  simp [forget]

/-! ### Calls that put a chunk in -/

/-- A step of a call either leaves the chunks as they are or lets its chunk in. -/
theorem stepPush_cases {call : CallPhase} {answer : CallStep Bool}
    (h : b.stepPush t d call = some (answer, b')) :
    SameChunks b b' ∨
      b' = ({ b with chunks := b.chunks.insert d.range.first d }.announce).forget t := by
  cases call with
  | fresh =>
    cases h
    exact Or.inl (same_listen b t)
  | looking =>
    simp only [stepPush, offer] at h
    rcases hadmission : b.admission d with _ | _ | _
    · simp only [hadmission] at h
      cases h
      exact Or.inl (same_forget b t)
    · simp only [hadmission] at h
      cases h
      exact Or.inr rfl
    · simp only [hadmission] at h
      cases h
      exact Or.inl (.refl b)
  | waiting =>
    by_cases htold : b.isListening t
    · simp only [stepPush, htold, if_true] at h
      cases h
    · simp only [stepPush, htold] at h
      cases h
      exact Or.inl (.refl b)

end Buffer
end BlockIngest
