import BlockIngest.Node.Client
import BlockIngest.Proofs.Node.Answer

/-!
# What a call for a block returns

When the node has answered, a call for a block returns either the block that the answer
shows, with all its transactions in their order and with the whole answer, or a failure
that says that the answer contradicts the question.  There is no third case.  If it is
only a transaction that cannot be decoded, the failure names the first one.

A transaction is written in base64, maybe between blanks.  As no two texts in base64 denote
the same bytes, the texts that are decoded to given bytes are known exactly.

## Main definitions

* `Base64.Writes` — the texts in which bytes are written.
* `FirstSpoilt` — the first text in which no bytes are written.
* `NodeClient.Reads` — the law.

## Main results

* `decodeTxsFrom_eq_ok`, `decodeTxsFrom_of_spoilt` — how the transactions of a block are decoded.
* `NodeClient.reads_answer` — **what a call for a block returns**, for any answer at all.
-/

namespace BlockIngest

/-! ### Transactions -/

namespace Base64

/-- Bytes are written in a text: it is their base64 text, maybe between blanks. -/
def Writes (text : String) (bytes : List UInt8) : Prop :=
  Text.Between (encodeText bytes).toList text.toList

variable {text : String} {bytes : List UInt8}

/-- No sign of the alphabet is a blank. -/
theorem bare_encodeText (bytes : List UInt8) : Text.Bare (encodeText bytes).toList := by
  have hsymbol : ∀ n < 64, ¬ Text.isBlank (Char.ofNat (symbol n).toNat) := by decide
  have hpad : ¬ Text.isBlank (Char.ofNat pad.toNat) := by decide
  refine Text.bare_of_forall fun c hc => ?_
  unfold encodeText at hc
  rw [String.toList_ofList] at hc
  obtain ⟨s, hs, rfl⟩ := List.mem_map.mp hc
  rcases mem_encode hs with rfl | ⟨n, hn, rfl⟩
  · exact hpad
  · exact hsymbol n hn

/-- A text is decoded to the bytes that are written in it. -/
theorem decodeText_trim_eq_ok : decodeText (Text.trim text) = .ok bytes ↔ Writes text bytes := by
  unfold Writes Text.trim
  constructor
  · intro h
    rw [encodeText_of_decodeText h, String.toList_ofList]
    exact Text.between_trimList text.toList
  · intro h
    rw [Text.trimList_of_between (bare_encodeText bytes) h, String.ofList_toList]
    exact decodeText_encodeText bytes

end Base64

open Base64

/-- The text at `i` is the first one in which no bytes are written. -/
def FirstSpoilt (texts : List String) (i : ℕ) : Prop :=
  (∃ text, texts[i]? = some text ∧ ∀ bytes, ¬ Writes text bytes) ∧
    ∀ j < i, ∃ text bytes, texts[j]? = some text ∧ Writes text bytes

variable {texts : List String} {txs : List (List UInt8)} {i index : ℕ}

/-- Transactions are decoded if bytes are written in each text. -/
theorem decodeTxsFrom_eq_ok :
    decodeTxsFrom index texts = .ok txs ↔ List.Forall₂ Writes texts txs := by
  induction texts generalizing index txs with
  | nil =>
    rw [decodeTxsFrom, List.forall₂_nil_left_iff]
    exact ⟨fun h => by cases h; rfl, fun h => by rw [h]⟩
  | cons text texts ih =>
    rw [decodeTxsFrom, List.forall₂_cons_left_iff]
    rcases hread : decodeText (Text.trim text) with e | bytes
    · refine ⟨nofun, ?_⟩
      rintro ⟨bytes, txs, hbytes, -⟩
      rw [decodeText_trim_eq_ok.mpr hbytes] at hread
      cases hread
    · simp only [bind_eq_ok, ih]
      constructor
      · rintro ⟨txs, htxs, hout⟩
        cases hout
        exact ⟨bytes, txs, decodeText_trim_eq_ok.mp hread, htxs, rfl⟩
      · rintro ⟨bytes', txs, hbytes, htxs, rfl⟩
        rw [decodeText_trim_eq_ok.mpr hbytes] at hread
        cases hread
        exact ⟨txs, htxs, rfl⟩

/-- The first text that cannot be decoded is reported, counted from `index` on. -/
theorem decodeTxsFrom_of_spoilt (index : ℕ) (h : FirstSpoilt texts i) :
    ∃ e : Base64.Error, decodeTxsFrom index texts
      = .error ((Failure.ofText e.message).context s!"tx {index + i} is not valid base64") := by
  induction texts generalizing index i with
  | nil =>
    obtain ⟨⟨text, htext, -⟩, -⟩ := h
    cases htext
  | cons text texts ih =>
    obtain ⟨⟨spoilt, hspoilt, hnone⟩, hearlier⟩ := h
    rw [decodeTxsFrom]
    -- the first text is spoilt, or it is decoded and the spoilt one is counted from the next on
    cases i with
    | zero =>
      cases hspoilt
      rcases hread : decodeText (Text.trim text) with e | bytes
      · exact ⟨e, rfl⟩
      · exact absurd (decodeText_trim_eq_ok.mp hread) (hnone bytes)
    | succ i =>
      obtain ⟨first, bytes, hfirst, hbytes⟩ := hearlier 0 (Nat.succ_pos i)
      cases hfirst
      rw [decodeText_trim_eq_ok.mpr hbytes]
      obtain ⟨e, he⟩ := ih (index + 1) ⟨⟨spoilt, hspoilt, hnone⟩, fun j hj =>
        hearlier (j + 1) (Nat.succ_lt_succ hj)⟩
      refine ⟨e, ?_⟩
      rw [he, Nat.add_right_comm index 1 i, Nat.add_assoc]
      rfl

/-- Bytes are written in all texts, or there is a first one in which none are. -/
theorem writes_or_spoilt (texts : List String) :
    (∃ txs, List.Forall₂ Writes texts txs) ∨ ∃ i, FirstSpoilt texts i := by
  induction texts with
  | nil => exact Or.inl ⟨[], .nil⟩
  | cons text texts ih =>
    by_cases hbytes : ∃ bytes, Writes text bytes
    · obtain ⟨bytes, hbytes⟩ := hbytes
      rcases ih with ⟨txs, htxs⟩ | ⟨i, hspoilt, hearlier⟩
      · exact Or.inl ⟨bytes :: txs, .cons hbytes htxs⟩
      · refine Or.inr ⟨i + 1, hspoilt, fun j hj => ?_⟩
        cases j with
        | zero => exact ⟨text, bytes, rfl, hbytes⟩
        | succ j => exact hearlier j (Nat.lt_of_succ_lt_succ hj)
    · exact Or.inr ⟨0, ⟨text, rfl, not_exists.mp hbytes⟩, fun j hj => absurd hj j.not_lt_zero⟩

/-! ### Blocks -/

/-- The block that an answer shows, if its transactions are these. -/
def NodeBlock.toBlock (a : NodeBlock) (txs : List (List UInt8)) (raw : Json) : Block where
  height := a.header.height
  hash := a.hash.getD ""
  chainId := a.header.chainId
  time := a.header.time
  txs := txs
  raw := raw

namespace NodeClient

variable {height : ℕ} {v : Json} {a : NodeBlock}

/-- The whole chain of a failure about a transaction as one text. -/
theorem message_spoilt (i : ℕ) (why : String) :
    ((Failure.ofText why).context s!"tx {i} is not valid base64").message
      = s!"tx {i} is not valid base64: {why}" := by
  have hjoined : s!"tx {i} is not valid base64" ++ ": " = s!"tx {i} is not valid base64: " := by
    show "tx " ++ toString i ++ " is not valid base64" ++ ": " = _
    rw [String.append_assoc]
    rfl
  show s!"tx {i} is not valid base64" ++ ": " ++ why = _
  rw [hjoined]
  rfl

/-- What is left to do when the shape of an answer is right. -/
theorem readBlock_eq (ha : v.ShowsBlock a) :
    readBlock height v = ((decodeTxs a.txs).mapError fun f => malformed height f.message).map
      (a.toBlock · v) := by
  unfold readBlock
  rw [NodeBlock.ofJson_eq_ok.mpr ha]
  -- the transactions are decoded, or the first failure among them is put in other words
  rcases hdecoded : decodeTxs a.txs with f | txs
  · simp only [Except.mapError, Except.map, bind, Except.bind, hdecoded]
  · simp only [Except.mapError, Except.map, bind, Except.bind, hdecoded]
    rfl

theorem readBlock_of_shown (ha : v.ShowsBlock a) (htxs : List.Forall₂ Writes (a.txs.getD []) txs) :
    readBlock height v = .ok (a.toBlock txs v) := by
  have hdecoded : decodeTxs a.txs = .ok txs := decodeTxsFrom_eq_ok.mpr htxs
  rw [readBlock_eq ha, hdecoded]
  rfl

theorem readBlock_of_spoilt (height : ℕ) (ha : v.ShowsBlock a)
    (hi : FirstSpoilt (a.txs.getD []) i) :
    ∃ e : Base64.Error, readBlock height v
      = .error (malformed height s!"tx {i} is not valid base64: {e.message}") := by
  obtain ⟨e, he⟩ := decodeTxsFrom_of_spoilt 0 hi
  rw [Nat.zero_add] at he
  have hdecoded : decodeTxs a.txs = _ := he
  refine ⟨e, ?_⟩
  rw [readBlock_eq ha, hdecoded, ← message_spoilt]
  rfl

theorem readBlock_of_shapeless (height : ℕ) (h : ∀ a, ¬ v.ShowsBlock a) :
    ∃ e : Json.DecodeError, readBlock height v
      = .error (malformed height s!"malformed block response: {e.message}") := by
  rcases hread : NodeBlock.ofJson v with e | a
  · refine ⟨e, ?_⟩
    unfold readBlock
    rw [hread]
    rfl
  · exact absurd (NodeBlock.ofJson_eq_ok.mp hread) (h a)

/-- An answer either shows a block, which is returned, or it contradicts the question. -/
theorem readBlock_cases (height : ℕ) (v : Json) :
    (∃ a txs, v.ShowsBlock a ∧ List.Forall₂ Writes (a.txs.getD []) txs ∧
      readBlock height v = .ok (a.toBlock txs v)) ∨
    ∃ reason, readBlock height v = .error (.ofRpc (.inconsistent height reason)) := by
  by_cases hshape : ∃ a, v.ShowsBlock a
  · obtain ⟨a, ha⟩ := hshape
    rcases writes_or_spoilt (a.txs.getD []) with ⟨txs, htxs⟩ | ⟨i, hi⟩
    · exact Or.inl ⟨a, txs, ha, htxs, readBlock_of_shown ha htxs⟩
    · obtain ⟨e, he⟩ := readBlock_of_spoilt height ha hi
      exact Or.inr ⟨_, he⟩
  · obtain ⟨e, he⟩ := readBlock_of_shapeless height (not_exists.mp hshape)
    exact Or.inr ⟨_, he⟩

/-- **What the call for the block of a height returns** for an answer. -/
structure Reads (height : ℕ) (v : Json) (result : Except Failure Block) : Prop where
  /-- A block that the answer shows is returned with all that it shows, and with the whole
  answer. -/
  shown : ∀ a txs, v.ShowsBlock a → List.Forall₂ Writes (a.txs.getD []) txs →
    result = .ok (a.toBlock txs v)
  /-- Nothing else is returned as a block. -/
  genuine : ∀ b, result = .ok b → ∃ a txs, v.ShowsBlock a ∧
    List.Forall₂ Writes (a.txs.getD []) txs ∧ b = a.toBlock txs v
  /-- If no block is returned, the answer is said to contradict the question. -/
  refused : (∀ b, result ≠ .ok b) →
    ∃ reason, result = .error (.ofRpc (.inconsistent height reason))
  /-- If the answer has the right shape but a transaction cannot be decoded, the first one is
  named. -/
  blamed : ∀ a i, v.ShowsBlock a → FirstSpoilt (a.txs.getD []) i → ∃ e : Base64.Error,
    result = .error (.ofRpc (.inconsistent height s!"tx {i} is not valid base64: {e.message}"))

/-- **What a call for a block returns** when the node has answered, whatever it has
answered. -/
theorem reads_answer (c : NodeClient) (height latency : ℕ) (v : Json) :
    Reads height v (c.block height (.answered v) latency).1 := by
  show Reads height v (readBlock height v)
  constructor
  · intro a txs ha htxs
    exact readBlock_of_shown ha htxs
  · intro b hb
    rcases readBlock_cases height v with ⟨a, txs, ha, htxs, hread⟩ | ⟨reason, hread⟩
    · rw [hread] at hb
      cases hb
      exact ⟨a, txs, ha, htxs, rfl⟩
    · rw [hread] at hb
      cases hb
  · intro hnone
    rcases readBlock_cases height v with ⟨a, txs, -, -, hread⟩ | hrefused
    · exact absurd hread (hnone _)
    · exact hrefused
  · intro a i ha hi
    exact readBlock_of_spoilt height ha hi

/-- An answer in which the height stands between blanks, the hash may be null, and members that
nobody looks at come before and after the others. -/
def paddedAnswer (a : NodeBlock) (texts : List String) : Json :=
  .obj [("block", .obj [("data", .obj [("txs", .arr (texts.map .str))]),
      ("header", .obj [("app_hash", .null), ("chain_id", .str a.header.chainId),
        ("height", .str (" " ++ toString a.header.height ++ "\n")),
        ("time", .str a.header.time)])]),
    ("block_meta", .obj [("block_id", .obj [("hash", .ofOption (a.hash.map .str)),
      ("parts", .obj [])])]),
    ("size", .nat 2)]

theorem showsBlock_paddedAnswer {texts : List String} (htop : a.header.height ≤ Height.top)
    (htexts : a.txs = some texts) : (paddedAnswer a texts).ShowsBlock a := by
  have hheight : (Json.str (" " ++ toString a.header.height ++ "\n")).TellsHeight
      a.header.height := by
    refine ⟨htop, Or.inr ⟨_, _, rfl, Text.isNumeral_toString a.header.height, [' '], ['\n'],
      ?_, ?_, ?_⟩⟩
    · simp [Text.Blank, Text.isBlank]
    · simp [Text.Blank, Text.isBlank]
    · simp [String.toList_append]
  constructor
  · trivial
  · exact ⟨_, rfl, trivial, _, rfl, trivial, rfl⟩
  · refine ⟨_, rfl, trivial, ⟨_, rfl, trivial, rfl, ⟨_, rfl, hheight⟩, rfl⟩,
      Or.inr ⟨_, rfl, trivial, ?_⟩⟩
    rw [htexts]
    rfl

/-- What a block shows that has these transactions and no hash. -/
def devBlock (texts : List String) : NodeBlock := ⟨none, ⟨"dev", 7, "noon"⟩, some texts⟩

/-- Two transactions that are written between blanks, the second of them empty, are decoded;
and of two that cannot be decoded, the first one is named. -/
theorem reads_answer_padded :
    ((⟨"http://node", {}, {}⟩ : NodeClient).block 9
        (.answered (paddedAnswer (devBlock ["aGk= ", " "]) ["aGk= ", " "])) 0).1
      = .ok ⟨7, "", "dev", "noon", [[104, 105], []],
          paddedAnswer (devBlock ["aGk= ", " "]) ["aGk= ", " "]⟩ ∧
    ∃ e : Base64.Error, ((⟨"http://node", {}, {}⟩ : NodeClient).block 9
        (.answered (paddedAnswer (devBlock ["aGk=", "aGl=", "?"]) ["aGk=", "aGl=", "?"])) 0).1
      = .error (.ofRpc (.inconsistent 9 s!"tx {1} is not valid base64: {e.message}")) := by
  have htexts : List.Forall₂ Writes ["aGk= ", " "] [[104, 105], []] := by
    refine .cons ?_ (.cons ?_ .nil)
    · exact decodeText_trim_eq_ok.mp (by decide +kernel)
    · exact decodeText_trim_eq_ok.mp (by decide +kernel)
  have hspoilt : FirstSpoilt ["aGk=", "aGl=", "?"] 1 := by
    -- the last symbol of the second text has bits that denote nothing and are not zero
    have hbits : decodeText (Text.trim "aGl=") = .error (.invalidLastSymbol 2 108) := by
      decide +kernel
    refine ⟨⟨"aGl=", rfl, fun bytes hbytes => ?_⟩, fun j hj => ?_⟩
    · rw [decodeText_trim_eq_ok.mpr hbytes] at hbits
      cases hbits
    · cases Nat.lt_one_iff.mp hj
      exact ⟨"aGk=", [104, 105], rfl, decodeText_trim_eq_ok.mp (by decide +kernel)⟩
  have hshows (texts : List String) : (paddedAnswer (devBlock texts) texts).ShowsBlock
      (devBlock texts) := showsBlock_paddedAnswer (by decide : 7 ≤ Height.top) rfl
  exact ⟨(reads_answer _ 9 0 _).shown (devBlock _) _ (hshows _) htexts,
    (reads_answer _ 9 0 _).blamed (devBlock _) 1 (hshows _) hspoilt⟩

end NodeClient
end BlockIngest
