import BlockIngest.Block.Codec
import BlockIngest.Proofs.Codec.Base64
import Mathlib.Data.List.Basic

/-!
# Records are read as they are written

A stored record is an object, and it is read back to the record that was written.  Records
that were written elsewhere may be sequences of their fields, may hold further members, and a
block may lack the node's answer; once such a record was read, writing it and reading it
again changes nothing, and the transactions are written in the very texts in which they stood.

A reader of a simple value accepts just the values that a writer writes.  A field is
therefore known from what was read of it, and a record from its fields.

## Main definitions

* `Json.given?` — the value in which a record's field is given.

## Main results

* `Json.member?_insertMember` — an object's members after one more was written.
* `Json.asWord_eq_ok`, `Json.asText_eq_ok`, `Json.asBytes_eq_ok`, `Json.asBytesList_eq_ok` —
  the values that readers accept.
* `Json.get?_read_eq_some` — what is read of a field.
* `Block.ofJson_toJson`, `TxResult.ofJson_toJson` — a record that is written is read back.
* `Block.given_of_ofJson`, `TxResult.given_of_ofJson` — what a record that was read says about
  the value that it was read from.
* `records_round_trip` — **reading is the inverse of writing**, and texts are kept.
-/

namespace BlockIngest
namespace Json

variable {α : Type} {v w : Json} {f : Form} {record name : String} {position n bits : ℕ}

/-! ### Members of an object -/

theorem member?_cons (k : String) (v : Json) (ms : List (String × Json)) (name : String) :
    (obj ((k, v) :: ms)).member? name = if k = name then some v else (obj ms).member? name := by
  unfold member?
  by_cases hk : k = name <;> simp [hk]

/-- A member that is written is found, and all others are found as before. -/
theorem member?_insertMember (k : String) (v : Json) (ms : List (String × Json))
    (name : String) : (obj (insertMember k v ms)).member? name
      = if k = name then some v else (obj ms).member? name := by
  induction ms with
  | nil => exact member?_cons k v [] name
  | cons m ms ih =>
    obtain ⟨j, u⟩ := m
    unfold insertMember
    by_cases hlt : k < j
    · rw [if_pos hlt]
      exact member?_cons k v ((j, u) :: ms) name
    by_cases heq : k = j
    · rw [if_neg hlt, if_pos heq, member?_cons, member?_cons, heq]
      split_ifs <;> rfl
    · rw [if_neg hlt, if_neg heq, member?_cons, member?_cons, ih]
      split_ifs with hj hk
      · exact absurd (hk.trans hj.symm) heq
      all_goals rfl

/-- Of the members that are written under one name, the last one is found. -/
theorem member?_object (ms : List (String × Json)) (name : String) :
    (object ms).member? name = (ms.reverse.find? fun m => m.1 == name).map Prod.snd := by
  induction ms using List.reverseRecOn with
  | nil => rfl
  | append_singleton ms m ih =>
    have hlast : object (ms ++ [m]) = obj (insertMember m.1 m.2 (byName ms)) := by
      unfold object byName
      rw [List.foldl_append, List.foldl_cons, List.foldl_nil]
    rw [hlast, member?_insertMember, List.reverse_concat, List.find?_cons]
    by_cases hm : m.1 = name
    · rw [if_pos hm, beq_iff_eq.mpr hm, Option.map_some]
    · rw [if_neg hm, beq_eq_false_iff_ne.mpr hm]
      exact ih

/-! ### Simple values -/

theorem asText_eq_ok {s : String} : asText v = .ok s ↔ v = .str s := by
  cases v <;> simp [asText]

theorem asWord_eq_ok : asWord bits v = .ok n ↔ v = .nat n ∧ n < 2 ^ bits := by
  cases v with
  | int i =>
    simp only [asWord, nat, int.injEq]
    split_ifs with h
    · constructor
      · intro hn
        cases hn
        exact ⟨(Int.toNat_of_nonneg h.1).symm, h.2⟩
      · rintro ⟨rfl, -⟩
        rfl
    · refine ⟨nofun, ?_⟩
      rintro ⟨rfl, hn⟩
      exact absurd ⟨Int.natCast_nonneg n, hn⟩ h
  | null | bool | float | str | arr | obj => simp [asWord, nat]

/-- Bytes are accepted in the one text that they are encoded to. -/
theorem asBytes_eq_ok {bs : List UInt8} :
    asBytes v = .ok bs ↔ v = .str (Base64.encodeText bs) := by
  unfold asBytes
  rw [bind_eq_ok]
  constructor
  · rintro ⟨text, htext, hbytes⟩
    rw [asText_eq_ok.mp htext, Base64.encodeText_of_decodeText (mapError_eq_ok.mp hbytes)]
  · rintro rfl
    exact ⟨_, rfl, mapError_eq_ok.mpr (Base64.decodeText_encodeText bs)⟩

/-- A reader of items that accepts one value for each result accepts one list for each list of
results. -/
theorem mapM_eq_ok_iff_map {α β ε : Type} {g : α → Except ε β} {back : β → α}
    (hg : ∀ a b, g a = .ok b ↔ a = back b) {as : List α} {bs : List β} :
    as.mapM g = .ok bs ↔ as = bs.map back := by
  rw [mapM_eq_ok, ← List.forall₂_eq_eq_eq, List.forall₂_map_right_iff]
  simp only [hg]

theorem asTexts_eq_ok {texts : List String} :
    asList asText v = .ok texts ↔ v = .arr (texts.map .str) := by
  cases v with
  | arr items =>
    rw [arr.injEq]
    exact mapM_eq_ok_iff_map fun _ _ => asText_eq_ok
  | null | bool | int | float | str | obj => simp [asList]

theorem asBytesList_eq_ok {txs : List (List UInt8)} :
    asBytesList v = .ok txs ↔ v = .arr (txs.map fun tx => .str (Base64.encodeText tx)) := by
  have hbytes : ∀ texts : List String,
      (texts.mapM fun t => (Base64.decodeText t).mapError DecodeError.badBytes) = .ok txs
        ↔ texts = txs.map Base64.encodeText := by
    intro texts
    refine mapM_eq_ok_iff_map fun text bs => mapError_eq_ok.trans ⟨fun h => ?_, ?_⟩
    · exact (Base64.encodeText_of_decodeText h).symm
    · rintro rfl
      exact Base64.decodeText_encodeText bs
  unfold asBytesList
  rw [bind_eq_ok]
  constructor
  · rintro ⟨texts, hread, hdecoded⟩
    rw [asTexts_eq_ok.mp hread, (hbytes texts).mp hdecoded, List.map_map]
    rfl
  · rintro rfl
    exact ⟨_, asTexts_eq_ok.mpr (by rw [List.map_map]; rfl), (hbytes _).mpr rfl⟩

/-! ### Fields -/

/-- The value in which a record's field is given: the member of its name, or the item at its
position. -/
def given? (v : Json) (position : ℕ) (name : String) : Option Json :=
  match v with
  | .arr items => items[position]?
  | v => v.member? name

theorem given?_object (ms : List (String × Json)) (position : ℕ) (name : String) :
    (object ms).given? position name = (ms.reverse.find? fun m => m.1 == name).map Prod.snd :=
  member?_object ms name

theorem field?_form (h : form record v = .ok f) (position : ℕ) (name : String) :
    f.field? position name = v.given? position name := by
  cases v with
  | obj | arr =>
    cases h
    rfl
  | null | bool | int | float | str => cases h

theorem read_eq_value {item : Json → Decoded α} {a : α} (hv : f.field? position name = some v)
    (ha : item v = .ok a) : f.read position name item = .value a := by
  unfold Form.read
  rw [hv]
  simp only [ha]

/-- A field has a value if it is given and fits. -/
theorem get?_read_eq_some {item : Json → Decoded α} {a : α} :
    (f.read position name item).get? = some a
      ↔ ∃ v, f.field? position name = some v ∧ item v = .ok a := by
  unfold Form.read
  rcases f.field? position name with _ | v
  · simp [Field.get?]
  · rcases hitem : item v with e | b <;> simp [Field.get?, hitem]

theorem made_of_finish {states : FieldStates} {made : Option α} {a : α}
    (h : f.finish record states made = .ok a) : made = some a := by
  unfold Form.finish at h
  split at h
  · cases h
  · cases h
    rfl
  · cases h

theorem mem_insertMember {k : String} {a : α} {m : String × α} {ms : List (String × α)}
    (h : m ∈ insertMember k a ms) : m = (k, a) ∨ m ∈ ms := by
  induction ms with
  | nil => exact Or.inl (List.mem_singleton.mp h)
  | cons e ms ih =>
    rw [insertMember] at h
    split_ifs at h with hlt heq
    · exact List.mem_cons.mp h
    · exact (List.mem_cons.mp h).imp_right (List.mem_cons_of_mem e)
    · rcases List.mem_cons.mp h with rfl | hm
      · exact Or.inr List.mem_cons_self
      · exact (ih hm).imp_right (List.mem_cons_of_mem e)

/-- Members by name are among the members. -/
theorem mem_of_mem_byName {ms : List (String × α)} {m : String × α} (h : m ∈ byName ms) :
    m ∈ ms := by
  have hfold : ∀ l, m ∈ ms.foldl (fun l e => insertMember e.1 e.2 l) l → m ∈ l ∨ m ∈ ms := by
    clear h
    induction ms with
    | nil => exact fun l hm => Or.inl hm
    | cons e ms ih =>
      intro l hm
      rcases ih _ hm with hm | hm
      · rcases mem_insertMember hm with rfl | hm
        · exact Or.inr List.mem_cons_self
        · exact Or.inl hm
      · exact Or.inr (List.mem_cons_of_mem e hm)
  exact (hfold [] h).resolve_left List.not_mem_nil

theorem firstBad?_eq_none {states : FieldStates} (h : ∀ s ∈ states, s.2 = .present) :
    firstBad? states = none := by
  induction states with
  | nil => rfl
  | cons s states ih =>
    obtain ⟨name, state⟩ := s
    cases h (name, state) List.mem_cons_self
    exact ih fun s hs => h s (List.mem_cons_of_mem _ hs)

theorem firstAbsent?_eq_none {states : FieldStates} (h : ∀ s ∈ states, s.2 = .present) :
    firstAbsent? states = none := by
  induction states with
  | nil => rfl
  | cons s states ih =>
    obtain ⟨name, state⟩ := s
    cases h (name, state) List.mem_cons_self
    exact ih fun s hs => h s (List.mem_cons_of_mem _ hs)

/-- An object in which every field has a value is a record. -/
theorem finish_named {ms : List (String × Json)} {states : FieldStates} {a : α}
    (h : ∀ s ∈ states, s.2 = .present) :
    (Form.named ms).finish record states (some a) = .ok a := by
  have hbad : firstBad? (byName states) = none :=
    firstBad?_eq_none fun s hs => h s (mem_of_mem_byName hs)
  unfold Form.finish Form.fault?
  simp only [hbad, firstAbsent?_eq_none h, Option.map_none]

end Json

open Json

/-! ### Blocks -/

namespace Block

variable {v : Json} {b : Block}

/-- A block that is written is read back. -/
theorem ofJson_toJson (hheight : b.height ≤ Height.top) : ofJson b.toJson = .ok b := by
  obtain ⟨ms, hform⟩ : ∃ ms, form "Block" b.toJson = .ok (.named ms) := ⟨_, rfl⟩
  have hgiven : ∀ position name,
      (Form.named ms).field? position name = b.toJson.given? position name := field?_form hform
  simp only [toJson, given?_object] at hgiven
  have hread₀ : (Form.named ms).read 0 "height" (asWord 64) = .value b.height :=
    read_eq_value (hgiven _ _) (asWord_eq_ok.mpr ⟨rfl, Nat.lt_succ_of_le hheight⟩)
  have hread₁ : (Form.named ms).read 1 "hash" asText = .value b.hash :=
    read_eq_value (hgiven _ _) rfl
  have hread₂ : (Form.named ms).read 2 "chain_id" asText = .value b.chainId :=
    read_eq_value (hgiven _ _) rfl
  have hread₃ : (Form.named ms).read 3 "time" asText = .value b.time :=
    read_eq_value (hgiven _ _) rfl
  have hread₄ : (Form.named ms).read 4 "txs" asBytesList = .value b.txs :=
    read_eq_value (hgiven _ _) (asBytesList_eq_ok.mpr rfl)
  have hread₅ : (Form.named ms).read 5 "raw" asAny = .value b.raw :=
    read_eq_value (hgiven _ _) rfl
  unfold ofJson
  rw [hform]
  show Form.finish _ _ _ _ = _
  rw [hread₀, hread₁, hread₂, hread₃, hread₄, hread₅]
  exact finish_named (by simp [Field.state, Field.withDefault])

/-- What a block that was read says about the value that it was read from. -/
theorem given_of_ofJson (h : ofJson v = .ok b) :
    b.height ≤ Height.top ∧
      v.given? 4 "txs" = some (.arr (b.txs.map fun tx => .str (Base64.encodeText tx))) := by
  unfold ofJson at h
  obtain ⟨f, hform, hfinish⟩ := bind_eq_ok.mp h
  have hmade := made_of_finish hfinish
  obtain ⟨height, hheight, hmade⟩ := Option.bind_eq_some_iff.mp hmade
  obtain ⟨hash, -, hmade⟩ := Option.bind_eq_some_iff.mp hmade
  obtain ⟨chainId, -, hmade⟩ := Option.bind_eq_some_iff.mp hmade
  obtain ⟨time, -, hmade⟩ := Option.bind_eq_some_iff.mp hmade
  obtain ⟨txs, htxs, hmade⟩ := Option.bind_eq_some_iff.mp hmade
  obtain ⟨raw, -, hmade⟩ := Option.bind_eq_some_iff.mp hmade
  cases hmade
  obtain ⟨w, -, hword⟩ := get?_read_eq_some.mp hheight
  obtain ⟨u, hgiven, htexts⟩ := get?_read_eq_some.mp htxs
  refine ⟨Nat.le_of_lt_succ (asWord_eq_ok.mp hword).2, ?_⟩
  rw [← field?_form hform, hgiven, asBytesList_eq_ok.mp htexts]

end Block

/-! ### Outcomes of transactions -/

namespace TxResult

variable {v : Json} {t : TxResult}

/-- An outcome that is written is read back. -/
theorem ofJson_toJson (hheight : t.height ≤ Height.top) (hindex : t.index < 2 ^ 32) :
    ofJson t.toJson = .ok t := by
  obtain ⟨ms, hform⟩ : ∃ ms, form "TxResult" t.toJson = .ok (.named ms) := ⟨_, rfl⟩
  have hgiven : ∀ position name,
      (Form.named ms).field? position name = t.toJson.given? position name := field?_form hform
  simp only [toJson, given?_object] at hgiven
  have hread₀ : (Form.named ms).read 0 "height" (asWord 64) = .value t.height :=
    read_eq_value (hgiven _ _) (asWord_eq_ok.mpr ⟨rfl, Nat.lt_succ_of_le hheight⟩)
  have hread₁ : (Form.named ms).read 1 "index" (asWord 32) = .value t.index :=
    read_eq_value (hgiven _ _) (asWord_eq_ok.mpr ⟨rfl, hindex⟩)
  have hread₂ : (Form.named ms).read 2 "hash" asText = .value t.hash :=
    read_eq_value (hgiven _ _) rfl
  have hread₃ : (Form.named ms).read 3 "tx" asBytes = .value t.tx :=
    read_eq_value (hgiven _ _) (asBytes_eq_ok.mpr rfl)
  have hread₄ : (Form.named ms).read 4 "response" asAny = .value t.response :=
    read_eq_value (hgiven _ _) rfl
  unfold ofJson
  rw [hform]
  show Form.finish _ _ _ _ = _
  rw [hread₀, hread₁, hread₂, hread₃, hread₄]
  exact finish_named (by simp [Field.state])

/-- What an outcome that was read says about the value that it was read from. -/
theorem given_of_ofJson (h : ofJson v = .ok t) :
    t.height ≤ Height.top ∧ t.index < 2 ^ 32 ∧
      v.given? 3 "tx" = some (.str (Base64.encodeText t.tx)) := by
  unfold ofJson at h
  obtain ⟨f, hform, hfinish⟩ := bind_eq_ok.mp h
  have hmade := made_of_finish hfinish
  obtain ⟨height, hheight, hmade⟩ := Option.bind_eq_some_iff.mp hmade
  obtain ⟨index, hindex, hmade⟩ := Option.bind_eq_some_iff.mp hmade
  obtain ⟨hash, -, hmade⟩ := Option.bind_eq_some_iff.mp hmade
  obtain ⟨tx, htx, hmade⟩ := Option.bind_eq_some_iff.mp hmade
  obtain ⟨response, -, hmade⟩ := Option.bind_eq_some_iff.mp hmade
  cases hmade
  obtain ⟨_, -, hword⟩ := get?_read_eq_some.mp hheight
  obtain ⟨_, -, hhalf⟩ := get?_read_eq_some.mp hindex
  obtain ⟨u, hgiven, htext⟩ := get?_read_eq_some.mp htx
  refine ⟨Nat.le_of_lt_succ (asWord_eq_ok.mp hword).2, (asWord_eq_ok.mp hhalf).2, ?_⟩
  rw [← field?_form hform, hgiven, asBytes_eq_ok.mp htext]

end TxResult

/-! ### Both -/

/-- **Reading is the inverse of writing.**  A record that is written is read back.  A record
that was read from any value at all is written to one from which the same record is read
again, and its transactions stand there in the very texts from which they were read; for no
two texts denote the same bytes. -/
theorem records_round_trip :
    (∀ b : Block, b.height ≤ Height.top → Block.ofJson b.toJson = .ok b) ∧
    (∀ t : TxResult, t.height ≤ Height.top → t.index < 2 ^ 32 →
      TxResult.ofJson t.toJson = .ok t) ∧
    (∀ v b, Block.ofJson v = .ok b → Block.ofJson b.toJson = .ok b ∧
      ∃ texts : List String, v.given? 4 "txs" = some (.arr (texts.map .str)) ∧
        b.toJson.given? 4 "txs" = some (.arr (texts.map .str)) ∧
        List.Forall₂ (fun text tx => Base64.decodeText text = .ok tx) texts b.txs) ∧
    (∀ v t, TxResult.ofJson v = .ok t → TxResult.ofJson t.toJson = .ok t ∧
      ∃ text : String, v.given? 3 "tx" = some (.str text) ∧
        t.toJson.given? 3 "tx" = some (.str text) ∧ Base64.decodeText text = .ok t.tx) ∧
    ∀ text text' bs, Base64.decodeText text = .ok bs → Base64.decodeText text' = .ok bs →
      text = text' := by
  refine ⟨fun b => Block.ofJson_toJson, fun t => TxResult.ofJson_toJson, fun v b hb => ?_,
    fun v t ht => ?_, fun text text' bs h h' => ?_⟩
  · obtain ⟨hheight, htxs⟩ := Block.given_of_ofJson hb
    have hagain := Block.ofJson_toJson hheight
    have htexts : (b.txs.map Base64.encodeText).map Json.str
        = b.txs.map fun tx => .str (Base64.encodeText tx) := List.map_map
    refine ⟨hagain, b.txs.map Base64.encodeText, ?_, ?_, ?_⟩
    · rw [htexts, htxs]
    · rw [htexts, (Block.given_of_ofJson hagain).2]
    · rw [List.forall₂_map_left_iff]
      exact List.forall₂_same.mpr fun tx _ => Base64.decodeText_encodeText tx
  · obtain ⟨hheight, hindex, htx⟩ := TxResult.given_of_ofJson ht
    have hagain := TxResult.ofJson_toJson hheight hindex
    exact ⟨hagain, Base64.encodeText t.tx, htx, (TxResult.given_of_ofJson hagain).2.2,
      Base64.decodeText_encodeText t.tx⟩
  · rw [← Base64.encodeText_of_decodeText h, Base64.encodeText_of_decodeText h']

/-- A block as a sequence of its fields, without the node's answer; its transactions are of
every length modulo three. -/
def bareFields : List Json :=
  [.nat 7, .str "AB", .str "dev", .str "noon",
    .arr [.str "", .str "Zg==", .str "Zm8=", .str "Zm9v"]]

/-- An outcome as an object with one member too many. -/
def wideMembers : List (String × Json) :=
  [("gas", .null), ("hash", .str "c0"), ("height", .nat 7), ("index", .nat 1),
    ("response", .null), ("tx", .str "Zg==")]

/-- Neither was written by this library. -/
theorem records_round_trip_of_strangers :
    ∃ (b : Block) (t : TxResult),
      Block.ofJson (.arr bareFields) = .ok b ∧ b.txs = [[], [102], [102, 111], [102, 111, 111]] ∧
        b.height ≤ Height.top ∧ Block.ofJson b.toJson = .ok b ∧
      TxResult.ofJson (.obj wideMembers) = .ok t ∧ t.tx = [102] ∧ t.height ≤ Height.top ∧
        t.index < 2 ^ 32 ∧ TxResult.ofJson t.toJson = .ok t ∧
        ∀ text, Base64.decodeText text = .ok t.tx → text = "Zg==" := by
  obtain ⟨-, houtcome, hblocks, -, hunique⟩ := records_round_trip
  have htxs : (Form.ordered bareFields).read 4 "txs" asBytesList
      = .value [[], [102], [102, 111], [102, 111, 111]] :=
    read_eq_value rfl (asBytesList_eq_ok.mpr rfl)
  have hb : Block.ofJson (.arr bareFields)
      = .ok ⟨7, "AB", "dev", "noon", [[], [102], [102, 111], [102, 111, 111]], .null⟩ := by
    unfold Block.ofJson
    show Form.finish _ _ _ _ = _
    rw [htxs]
    rfl
  have htx : (Form.named wideMembers).read 3 "tx" asBytes = .value [102] :=
    read_eq_value rfl (asBytes_eq_ok.mpr rfl)
  have ht : TxResult.ofJson (.obj wideMembers) = .ok ⟨7, 1, "c0", [102], .null⟩ := by
    unfold TxResult.ofJson
    show Form.finish _ _ _ _ = _
    rw [htx]
    rfl
  exact ⟨_, _, hb, rfl, by decide, (hblocks _ _ hb).1, ht, rfl, by decide, by decide,
    houtcome _ (by decide) (by decide),
    fun text htext => hunique text _ [102] htext (Base64.decodeText_encodeText [102])⟩

end BlockIngest
