import BlockIngest.Node.Response
import BlockIngest.Proofs.Codec.Record
import BlockIngest.Proofs.Text.Numeral

/-!
# What an answer of the node shows

An answer is read for a few of its members, some of which may be missing or null, and all
others are passed over.  This module says which values are read as a block's answer, and
that such a value shows one block alone: whatever else stands in it, and however a height
is written.

Every part of an answer is a record, and a record is read if each of its fields is.  So
there is one lemma for all records, one for a record with a single field of either kind,
and then one for each part of a block's answer.

## Main definitions

* `Json.TellsHeight` — the values that stand for a height.
* `Json.IsRecord` — the values whose fields are looked up.
* `Json.ShowsHeader`, `Json.ShowsBody`, `Json.ShowsBlock` — what the parts of an answer show.

## Main results

* `Json.asHeight_eq_ok` — the values that are read as a height.
* `Json.record_eq_ok` — a record is read if each of its fields is.
* `NodeBlock.ofJson_eq_ok` — **a block's answer is read for what it shows**, and nothing
  else is read.
-/

namespace BlockIngest
namespace Json

variable {α : Type} {v w : Json} {f : Form} {record name : String} {position n : ℕ}

/-! ### Heights -/

/-- A value that stands for a height: the number itself, or a numeral for it between
blanks. -/
def TellsHeight (v : Json) (h : ℕ) : Prop :=
  h ≤ Height.top ∧
    (v = .nat h ∨ ∃ s core, v = .str s ∧ Text.IsNumeral h core ∧ Text.Between core s.toList)

/-- A text is read for the numeral that stands in it between blanks. -/
theorem readNumeral_trim_eq_ok {s : String} {h : ℕ} :
    Text.readNumeral (Text.trim s) = .ok h ↔
      (∃ core, Text.IsNumeral h core ∧ Text.Between core s.toList) ∧ h ≤ Height.top := by
  unfold Text.readNumeral Text.trim
  rw [String.toList_ofList, Text.readNumeralList_eq_ok]
  refine and_congr_left fun _ => ⟨fun hread => ?_, ?_⟩
  · exact ⟨_, hread, Text.between_trimList s.toList⟩
  · rintro ⟨core, hcore, hbetween⟩
    rwa [Text.trimList_of_between hcore.bare hbetween]

theorem asHeight_eq_ok {h : ℕ} : asHeight v = .ok h ↔ v.TellsHeight h := by
  unfold TellsHeight
  cases v with
  | str s =>
    rw [asHeight, mapError_eq_ok, readNumeral_trim_eq_ok]
    simp [nat, and_comm]
  | int i =>
    simp only [asHeight, nat, int.injEq]
    split_ifs with hfits
    · constructor
      · intro hi
        cases hi
        exact ⟨hfits.2, Or.inl (Int.toNat_of_nonneg hfits.1).symm⟩
      · rintro ⟨-, rfl | ⟨_, _, hi, -⟩⟩
        · rfl
        · cases hi
    · constructor
      · intro hi
        cases hi
      · rintro ⟨htop, rfl | ⟨_, _, hi, -⟩⟩
        · exact absurd ⟨Int.natCast_nonneg h, htop⟩ hfits
        · cases hi
  | null | bool | float | arr | obj => simp [asHeight, nat]

/-! ### Fields that may be missing -/

/-- What is given in a field that may be missing or null. -/
def givenOrNull (v : Json) (position : ℕ) (name : String) : Json :=
  (v.given? position name).getD .null

/-- A reader that accepts one value for each result, and never null, accepts null besides if
the result may be missing. -/
theorem asOptional_eq_ok {item : Json → Decoded α} {back : α → Json} {o : Option α}
    (hback : ∀ w a, item w = .ok a ↔ w = back a) (hnull : ∀ a, back a ≠ .null) :
    asOptional item w = .ok o ↔ w = ofOption (o.map back) := by
  have hsome : some <$> item w = .ok o ↔ ∃ a, o = some a ∧ w = back a := by
    rw [map_eq_pure_bind, bind_eq_ok]
    constructor
    · rintro ⟨a, ha, ho⟩
      cases ho
      exact ⟨a, rfl, (hback w a).mp ha⟩
    · rintro ⟨a, rfl, ha⟩
      exact ⟨a, (hback w a).mpr ha, rfl⟩
  cases w with
  | null =>
    cases o with
    | none => simp [asOptional, ofOption]
    | some a => simpa [asOptional, ofOption] using (hnull a).symm
  | bool | int | float | str | arr | obj =>
    unfold asOptional
    rw [hsome]
    cases o <;> simp [ofOption]

/-- A field that may be missing is read as null if it is. -/
theorem get?_optional_eq_some {item : Json → Decoded α} {o : Option α} :
    ((f.read position name (asOptional item)).withDefault none).get? = some o
      ↔ asOptional item ((f.field? position name).getD .null) = .ok o := by
  unfold Form.read
  rcases f.field? position name with _ | v
  · simp [Field.withDefault, Field.get?, asOptional]
  · rcases hitem : asOptional item v with e | a
      <;> simp [Field.withDefault, Field.get?, hitem]

/-- A field with a default is read if it is missing, or is given and fits. -/
theorem get?_withDefault_eq_some {item : Json → Decoded α} {d a : α} :
    ((f.read position name item).withDefault d).get? = some a
      ↔ f.field? position name = none ∧ a = d ∨
        ∃ v, f.field? position name = some v ∧ item v = .ok a := by
  unfold Form.read
  rcases f.field? position name with _ | v
  · simp [Field.withDefault, Field.get?, eq_comm]
  · rcases hitem : item v with e | b <;> simp [Field.withDefault, Field.get?, hitem]

/-- A text that is given in a field is read. -/
theorem get?_text_eq_some {s : String} :
    (f.read position name asText).get? = some s ↔ f.field? position name = some (.str s) := by
  rw [get?_read_eq_some]
  simp [asText_eq_ok]

/-! ### Records -/

/-- A value whose fields are looked up: an object, or a sequence that is not longer than
there are fields. -/
def IsRecord (n : ℕ) : Json → Prop
  | .obj _ => True
  | .arr items => items.length ≤ n
  | _ => False

theorem exists_form (h : v.IsRecord n) (record : String) : ∃ f, form record v = .ok f := by
  cases v with
  | obj members => exact ⟨.named members, rfl⟩
  | arr items => exact ⟨.ordered items, rfl⟩
  | null | bool | int | float | str => exact h.elim

theorem present_of_get? {field : Field α} {a : α} (h : field.get? = some a) :
    field.state = .present := by
  cases field with
  | value => rfl
  | bad | absent => cases h

theorem firstFault?_eq_none {states : FieldStates} (h : ∀ s ∈ states, s.2 = .present)
    (total position : ℕ) : firstFault? record total position states = none := by
  induction states generalizing position with
  | nil => rfl
  | cons s states ih =>
    obtain ⟨name, state⟩ := s
    cases h (name, state) List.mem_cons_self
    exact ih (fun s hs => h s (List.mem_cons_of_mem _ hs)) (position + 1)

theorem finish_eq_ok {states : FieldStates} {made : Option α} {a : α}
    (hform : form record v = .ok f)
    (hpresent : made = some a → ∀ s ∈ states, s.2 = .present) :
    f.finish record states made = .ok a ↔ v.IsRecord states.length ∧ made = some a := by
  constructor
  · intro h
    have hmade := made_of_finish h
    refine ⟨?_, hmade⟩
    cases v with
    | obj => trivial
    | arr items =>
      cases hform
      by_contra hlong
      have hlt : states.length < items.length := Nat.lt_of_not_le hlong
      unfold Form.finish Form.fault? at h
      simp [firstFault?_eq_none (hpresent hmade), hlt] at h
    | null | bool | int | float | str => cases hform
  · rintro ⟨hrecord, rfl⟩
    cases v with
    | obj =>
      cases hform
      exact finish_named (hpresent rfl)
    | arr items =>
      cases hform
      have hle : ¬ states.length < items.length := Nat.not_lt.mpr hrecord
      unfold Form.finish Form.fault?
      simp [firstFault?_eq_none (hpresent rfl), hle]
    | null | bool | int | float | str => cases hform

/-- **A record is read if each of its fields is**, and if no item is left over.  What its
fields make is said of the value in which they are given. -/
theorem record_eq_ok (states : Form → FieldStates) (made : Form → Option α) {a : α} {P : Prop}
    (hlength : ∀ f, (states f).length = n)
    (hpresent : ∀ f, made f = some a → ∀ s ∈ states f, s.2 = .present)
    (hmade : ∀ f : Form, (∀ i k, f.field? i k = v.given? i k) → (made f = some a ↔ P)) :
    (form record v >>= fun f => f.finish record (states f) (made f)) = .ok a
      ↔ v.IsRecord n ∧ P := by
  rw [bind_eq_ok]
  constructor
  · rintro ⟨f, hform, h⟩
    obtain ⟨hrecord, hsome⟩ := (finish_eq_ok hform (hpresent f)).mp h
    rw [hlength] at hrecord
    exact ⟨hrecord, (hmade f (field?_form hform)).mp hsome⟩
  · rintro ⟨hrecord, hP⟩
    obtain ⟨f, hform⟩ := exists_form hrecord record
    refine ⟨f, hform, (finish_eq_ok hform (hpresent f)).mpr ⟨?_, ?_⟩⟩
    · rwa [hlength]
    · exact (hmade f (field?_form hform)).mpr hP

/-- A record with a single field that must be there. -/
theorem soleField_eq_ok {item : Json → Decoded α} {a : α} :
    soleField record name item v = .ok a
      ↔ v.IsRecord 1 ∧ ∃ w, v.given? 0 name = some w ∧ item w = .ok a := by
  refine record_eq_ok (fun f => [(name, (f.read 0 name item).state)])
    (fun f => (f.read 0 name item).get?) (fun _ => rfl) ?_ ?_
  · intro f hget
    simpa using present_of_get? hget
  · intro f hfield
    rw [get?_read_eq_some, hfield]

/-- A record with a single field that may be missing or null. -/
theorem soleOptional_eq_ok {item : Json → Decoded α} {back : α → Json} {o : Option α}
    (hback : ∀ w a, item w = .ok a ↔ w = back a) (hnull : ∀ a, back a ≠ .null) :
    soleOptional record name item v = .ok o
      ↔ v.IsRecord 1 ∧ v.givenOrNull 0 name = ofOption (o.map back) := by
  refine record_eq_ok
    (fun f => [(name, ((f.read 0 name (asOptional item)).withDefault none).state)])
    (fun f => ((f.read 0 name (asOptional item)).withDefault none).get?) (fun _ => rfl) ?_ ?_
  · intro f hget
    simpa using present_of_get? hget
  · intro f hfield
    rw [get?_optional_eq_some, hfield]
    exact asOptional_eq_ok hback hnull

/-! ### The parts of a block's answer -/

/-- What a header shows. -/
structure ShowsHeader (v : Json) (a : NodeHeader) : Prop where
  record : v.IsRecord 3
  chainId : v.given? 0 "chain_id" = some (.str a.chainId)
  height : ∃ w, v.given? 1 "height" = some w ∧ w.TellsHeight a.height
  time : v.given? 2 "time" = some (.str a.time)

/-- What a body shows: a header, and the transactions if they are there.  The data around them
may be missing, and in the data they may be missing or null. -/
structure ShowsBody (v : Json) (header : NodeHeader) (txs : Option (List String)) : Prop where
  record : v.IsRecord 2
  header : ∃ w, v.given? 0 "header" = some w ∧ w.ShowsHeader header
  data : v.given? 1 "data" = none ∧ txs = none ∨
    ∃ w, v.given? 1 "data" = some w ∧ w.IsRecord 1 ∧
      w.givenOrNull 0 "txs" = ofOption (txs.map fun texts => .arr (texts.map .str))

/-- What the answer to a call for a block shows: a hash, which may be missing or null, and a
body. -/
structure ShowsBlock (v : Json) (a : NodeBlock) : Prop where
  record : v.IsRecord 2
  hash : ∃ w, v.given? 0 "block_meta" = some w ∧ w.IsRecord 1 ∧
    ∃ u, w.given? 0 "block_id" = some u ∧ u.IsRecord 1 ∧
      u.givenOrNull 0 "hash" = ofOption (a.hash.map .str)
  body : ∃ w, v.given? 1 "block" = some w ∧ w.ShowsBody a.header a.txs

end Json

open Json

variable {v : Json}

theorem NodeHeader.ofJson_eq_ok {a : NodeHeader} :
    NodeHeader.ofJson v = .ok a ↔ v.ShowsHeader a := by
  obtain ⟨chainId, height, time⟩ := a
  -- what the fields make, field by field
  have hmade : ∀ f : Form,
      (do return ⟨← (f.read 0 "chain_id" asText).get?, ← (f.read 1 "height" asHeight).get?,
          ← (f.read 2 "time" asText).get?⟩ : Option NodeHeader) = some ⟨chainId, height, time⟩
        ↔ (f.read 0 "chain_id" asText).get? = some chainId ∧
          (f.read 1 "height" asHeight).get? = some height ∧
          (f.read 2 "time" asText).get? = some time := by
    intro f
    simp [Option.bind_eq_some_iff]
  have hread : NodeHeader.ofJson v = .ok ⟨chainId, height, time⟩ ↔ v.IsRecord 3 ∧
      v.given? 0 "chain_id" = some (.str chainId) ∧
      (∃ w, v.given? 1 "height" = some w ∧ asHeight w = .ok height) ∧
      v.given? 2 "time" = some (.str time) := by
    refine record_eq_ok
      (fun f => [("chain_id", (f.read 0 "chain_id" asText).state),
        ("height", (f.read 1 "height" asHeight).state), ("time", (f.read 2 "time" asText).state)])
      _ (fun _ => rfl) ?_ ?_
    · intro f h
      obtain ⟨h₀, h₁, h₂⟩ := (hmade f).mp h
      simp [present_of_get? h₀, present_of_get? h₁, present_of_get? h₂]
    · intro f hfield
      rw [hmade, get?_text_eq_some, get?_text_eq_some, get?_read_eq_some, hfield, hfield, hfield]
  simp only [hread, asHeight_eq_ok]
  exact ⟨fun ⟨hrecord, h₀, h₁, h₂⟩ => ⟨hrecord, h₀, h₁, h₂⟩,
    fun h => ⟨h.record, h.chainId, h.height, h.time⟩⟩

/-- The data of a block are read for the transactions, if they are there. -/
theorem NodeBlock.data_eq_ok {txs : Option (List String)} :
    soleOptional "BlockData" "txs" (asList asText) v = .ok txs
      ↔ v.IsRecord 1 ∧
        v.givenOrNull 0 "txs" = ofOption (txs.map fun texts => .arr (texts.map .str)) :=
  soleOptional_eq_ok (fun _ _ => asTexts_eq_ok) fun _ => nofun

theorem NodeBlock.bodyOfJson_eq_ok {header : NodeHeader} {txs : Option (List String)} :
    NodeBlock.bodyOfJson v = .ok (header, txs) ↔ v.ShowsBody header txs := by
  have hmade : ∀ f : Form,
      (do return (← (f.read 0 "header" NodeHeader.ofJson).get?,
          ← ((f.read 1 "data" (soleOptional "BlockData" "txs" (asList asText))).withDefault
              none).get?) : Option (NodeHeader × Option (List String))) = some (header, txs)
        ↔ (f.read 0 "header" NodeHeader.ofJson).get? = some header ∧
          ((f.read 1 "data" (soleOptional "BlockData" "txs" (asList asText))).withDefault
              none).get? = some txs := by
    intro f
    simp [Option.bind_eq_some_iff]
  have hread : NodeBlock.bodyOfJson v = .ok (header, txs) ↔ v.IsRecord 2 ∧
      (∃ w, v.given? 0 "header" = some w ∧ NodeHeader.ofJson w = .ok header) ∧
      (v.given? 1 "data" = none ∧ txs = none ∨ ∃ w, v.given? 1 "data" = some w ∧
        soleOptional "BlockData" "txs" (asList asText) w = .ok txs) := by
    refine record_eq_ok
      (fun f => [("header", (f.read 0 "header" NodeHeader.ofJson).state),
        ("data", ((f.read 1 "data" (soleOptional "BlockData" "txs" (asList asText))).withDefault
          none).state)])
      _ (fun _ => rfl) ?_ ?_
    · intro f h
      obtain ⟨h₀, h₁⟩ := (hmade f).mp h
      simp [present_of_get? h₀, present_of_get? h₁]
    · intro f hfield
      rw [hmade, get?_read_eq_some, get?_withDefault_eq_some, hfield, hfield]
  simp only [hread, NodeHeader.ofJson_eq_ok, NodeBlock.data_eq_ok]
  exact ⟨fun ⟨hrecord, h₀, h₁⟩ => ⟨hrecord, h₀, h₁⟩, fun h => ⟨h.record, h.header, h.data⟩⟩

/-- The hash of a block is read from two records, one in the other. -/
theorem NodeBlock.hash_eq_ok {hash : Option String} :
    soleField "BlockMeta" "block_id" (soleOptional "BlockId" "hash" asText) v = .ok hash
      ↔ v.IsRecord 1 ∧ ∃ u, v.given? 0 "block_id" = some u ∧ u.IsRecord 1 ∧
        u.givenOrNull 0 "hash" = ofOption (hash.map .str) := by
  have hsole : ∀ u : Json, soleOptional "BlockId" "hash" asText u = .ok hash
      ↔ u.IsRecord 1 ∧ u.givenOrNull 0 "hash" = ofOption (hash.map .str) :=
    fun u => soleOptional_eq_ok (fun _ _ => asText_eq_ok) fun _ => nofun
  simp only [soleField_eq_ok, hsole]

/-- **A block's answer is read for what it shows**, and nothing else is read. -/
theorem NodeBlock.ofJson_eq_ok {a : NodeBlock} : NodeBlock.ofJson v = .ok a ↔ v.ShowsBlock a := by
  obtain ⟨hash, header, txs⟩ := a
  have hmade : ∀ f : Form,
      (do
        let hash ← (f.read 0 "block_meta"
          (soleField "BlockMeta" "block_id" (soleOptional "BlockId" "hash" asText))).get?
        let body ← (f.read 1 "block" NodeBlock.bodyOfJson).get?
        return ⟨hash, body.1, body.2⟩ : Option NodeBlock) = some ⟨hash, header, txs⟩
        ↔ (f.read 0 "block_meta" (soleField "BlockMeta" "block_id"
            (soleOptional "BlockId" "hash" asText))).get? = some hash ∧
          (f.read 1 "block" NodeBlock.bodyOfJson).get? = some (header, txs) := by
    intro f
    simp [Option.bind_eq_some_iff]
  have hread : NodeBlock.ofJson v = .ok ⟨hash, header, txs⟩ ↔ v.IsRecord 2 ∧
      (∃ w, v.given? 0 "block_meta" = some w ∧
        soleField "BlockMeta" "block_id" (soleOptional "BlockId" "hash" asText) w = .ok hash) ∧
      ∃ w, v.given? 1 "block" = some w ∧ NodeBlock.bodyOfJson w = .ok (header, txs) := by
    refine record_eq_ok
      (fun f => [("block_meta", (f.read 0 "block_meta" (soleField "BlockMeta" "block_id"
          (soleOptional "BlockId" "hash" asText))).state),
        ("block", (f.read 1 "block" NodeBlock.bodyOfJson).state)])
      _ (fun _ => rfl) ?_ ?_
    · intro f h
      obtain ⟨h₀, h₁⟩ := (hmade f).mp h
      simp [present_of_get? h₀, present_of_get? h₁]
    · intro f hfield
      rw [hmade, get?_read_eq_some, get?_read_eq_some, hfield, hfield]
  simp only [hread, NodeBlock.hash_eq_ok, NodeBlock.bodyOfJson_eq_ok]
  constructor
  · rintro ⟨hrecord, hhash, hbody⟩
    exact ⟨hrecord, hhash, hbody⟩
  · intro h
    exact ⟨h.record, h.hash, h.body⟩

end BlockIngest
