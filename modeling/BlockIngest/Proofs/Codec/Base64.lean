import BlockIngest.Base64
import BlockIngest.Proofs.Except
import Mathlib.Data.List.Basic
import Mathlib.Data.UInt

/-!
# Base64 is read as it is written

Encoding and decoding are inverse to each other, on both sides.  Whatever is encoded is
decoded to the same bytes; and a text that is decoded is the one that its bytes are
encoded to, so that no two texts denote the same bytes.

Three bytes are four numbers below sixty-four, and each of these is one symbol.  Both
directions are shown group by group; the last group may lack a byte or two, and then the
bits that are left over have to be zero, and padding fills the place of the symbols.

## Main results

* `Base64.value?_symbol`, `Base64.symbol_of_value?` — symbols and numbers.
* `Base64.encode_group`, `Base64.encode_two`, `Base64.encode_one` — groups by the numbers
  that their symbols stand for.
* `Base64.lastSymbols_eq_ok` — what the last group is made of.
* `Base64.decode_encode`, `Base64.encode_of_decode` — **decoding is the inverse of
  encoding**, for symbols.
* `Base64.decodeText_encodeText`, `Base64.encodeText_of_decodeText` — the same for texts.
-/

namespace BlockIngest

namespace Base64

variable {n offset seen padding : ℕ} {a b c d : ℕ} {s : UInt8} {bs out : List UInt8}

/-! ### Symbols -/

theorem value?_symbol (hn : n < 64) : value? (symbol n) = some n := by
  have hall : ∀ n < 64, value? (symbol n) = some n := by decide
  exact hall n hn

theorem symbol_ne_pad (hn : n < 64) : symbol n ≠ pad := by
  have hall : ∀ n < 64, symbol n ≠ pad := by decide
  exact hall n hn

theorem symbol_lt (hn : n < 64) : (symbol n).toNat < 128 := by
  have hall : ∀ n < 64, (symbol n).toNat < 128 := by decide
  exact hall n hn

/-- A symbol stands for one number alone. -/
theorem symbol_of_value? (h : value? s = some n) : n < 64 ∧ symbol n = s := by
  have hall : ∀ k < 256, (value? (UInt8.ofNat k)).all
      fun n => n < 64 && symbol n == UInt8.ofNat k := by
    decide +kernel
  have hs := hall s.toNat s.toNat_lt
  rw [UInt8.ofNat_toNat, h, Option.all_some, Bool.and_eq_true, beq_iff_eq] at hs
  exact ⟨of_decide_eq_true hs.1, hs.2⟩

theorem valueAt_symbol (hn : n < 64) : valueAt offset (symbol n) = .ok n := by
  unfold valueAt
  rw [value?_symbol hn]

theorem symbol_of_valueAt (h : valueAt offset s = .ok n) : n < 64 ∧ symbol n = s := by
  unfold valueAt at h
  split at h
  · next m hvalue =>
    cases h
    exact symbol_of_value? hvalue
  · cases h

/-! ### Groups -/

/-- The first byte of a group, from its first two symbols. -/
def byte₁ (a b : ℕ) : UInt8 := UInt8.ofNat (a * 4 + b / 16)

/-- The second one. -/
def byte₂ (b c : ℕ) : UInt8 := UInt8.ofNat (b % 16 * 16 + c / 4)

/-- The third one. -/
def byte₃ (c d : ℕ) : UInt8 := UInt8.ofNat (c % 4 * 64 + d)

theorem toNat_byte₁ (ha : a < 64) (hb : b < 64) : (byte₁ a b).toNat = a * 4 + b / 16 :=
  UInt8.toNat_ofNat_of_lt' (by show _ < 256; omega)

theorem toNat_byte₂ (hc : c < 64) : (byte₂ b c).toNat = b % 16 * 16 + c / 4 :=
  UInt8.toNat_ofNat_of_lt' (by show _ < 256; omega)

theorem toNat_byte₃ (hd : d < 64) : (byte₃ c d).toNat = c % 4 * 64 + d :=
  UInt8.toNat_ofNat_of_lt' (by show _ < 256; omega)

/-- Three bytes are encoded to the symbols that they are made of. -/
theorem encode_group (ha : a < 64) (hb : b < 64) (hc : c < 64) (hd : d < 64) (bs : List UInt8) :
    encode (byte₁ a b :: byte₂ b c :: byte₃ c d :: bs)
      = symbol a :: symbol b :: symbol c :: symbol d :: encode bs := by
  have h₁ : (a * 4 + b / 16) / 4 = a := by omega
  have h₂ : (a * 4 + b / 16) % 4 * 16 + (b % 16 * 16 + c / 4) / 16 = b := by omega
  have h₃ : (b % 16 * 16 + c / 4) % 16 * 4 + (c % 4 * 64 + d) / 64 = c := by omega
  have h₄ : (c % 4 * 64 + d) % 64 = d := by omega
  rw [encode, toNat_byte₁ ha hb, toNat_byte₂ hc, toNat_byte₃ hd, h₁, h₂, h₃, h₄]

/-- So are two, if the third symbol leaves nothing over. -/
theorem encode_two (ha : a < 64) (hb : b < 64) (hc : c < 64) (hrest : c % 4 = 0) :
    encode [byte₁ a b, byte₂ b c] = [symbol a, symbol b, symbol c, pad] := by
  have h₁ : (a * 4 + b / 16) / 4 = a := by omega
  have h₂ : (a * 4 + b / 16) % 4 * 16 + (b % 16 * 16 + c / 4) / 16 = b := by omega
  have h₃ : (b % 16 * 16 + c / 4) % 16 * 4 = c := by omega
  rw [encode, toNat_byte₁ ha hb, toNat_byte₂ hc, h₁, h₂, h₃]

/-- So is one, if the second symbol leaves nothing over. -/
theorem encode_one (ha : a < 64) (hb : b < 64) (hrest : b % 16 = 0) :
    encode [byte₁ a b] = [symbol a, symbol b, pad, pad] := by
  have h₁ : (a * 4 + b / 16) / 4 = a := by omega
  have h₂ : (a * 4 + b / 16) % 4 * 16 = b := by omega
  rw [encode, toNat_byte₁ ha hb, h₁, h₂]

/-- Every three bytes are made of four symbols. -/
theorem exists_group (x y z : UInt8) : ∃ a < 64, ∃ b < 64, ∃ c < 64, ∃ d < 64,
    x = byte₁ a b ∧ y = byte₂ b c ∧ z = byte₃ c d := by
  have hx := x.toNat_lt
  have hy := y.toNat_lt
  have hz := z.toNat_lt
  refine ⟨x.toNat / 4, by omega, x.toNat % 4 * 16 + y.toNat / 16, by omega,
    y.toNat % 16 * 4 + z.toNat / 64, by omega, z.toNat % 64, by omega, ?_, ?_, ?_⟩
  · refine UInt8.toNat_inj.mp ?_
    rw [toNat_byte₁ (by omega) (by omega)]
    omega
  · refine UInt8.toNat_inj.mp ?_
    rw [toNat_byte₂ (by omega)]
    omega
  · refine UInt8.toNat_inj.mp ?_
    rw [toNat_byte₃ (by omega)]
    omega

/-- Every two are made of three that leave nothing over: they are a group whose third byte
is zero. -/
theorem exists_two (x y : UInt8) : ∃ a < 64, ∃ b < 64, ∃ c < 64,
    c % 4 = 0 ∧ x = byte₁ a b ∧ y = byte₂ b c := by
  obtain ⟨a, ha, b, hb, c, hc, d, hd, hx, hy, hz⟩ := exists_group x y 0
  have hzero := congrArg UInt8.toNat hz
  rw [toNat_byte₃ hd, UInt8.toNat_zero] at hzero
  exact ⟨a, ha, b, hb, c, hc, by omega, hx, hy⟩

theorem exists_one (x : UInt8) : ∃ a < 64, ∃ b < 64, b % 16 = 0 ∧ x = byte₁ a b := by
  obtain ⟨a, ha, b, hb, c, hc, -, hx, hy⟩ := exists_two x 0
  have hzero := congrArg UInt8.toNat hy
  rw [toNat_byte₂ hc, UInt8.toNat_zero] at hzero
  exact ⟨a, ha, b, hb, by omega, hx⟩

/-! ### The last group -/

/-- A number with its symbol. -/
def signed (n : ℕ) : UInt8 × ℕ := (symbol n, n)

/-- The last group is made of symbols, followed by padding. -/
theorem lastSymbols_eq_ok {symbols : List (UInt8 × ℕ)}
    (h : lastSymbols offset seen bs = .ok (symbols, padding)) :
    ∃ vs : List ℕ, (∀ v ∈ vs, v < 64) ∧ symbols = vs.map signed ∧
      bs = vs.map symbol ++ List.replicate padding pad := by
  induction bs generalizing seen symbols padding with
  | nil =>
    cases h
    exact ⟨[], by simp, rfl, rfl⟩
  | cons s bs ih =>
    unfold lastSymbols at h
    by_cases hs : s = pad
    · rw [if_pos hs] at h
      split at h
      · cases h
      · split at h
        · next hall =>
          cases h
          refine ⟨[], by simp, rfl, ?_⟩
          -- once padding has begun, there is nothing else
          refine List.eq_replicate_iff.mpr ⟨rfl, fun t ht => ?_⟩
          rcases List.mem_cons.mp ht with rfl | ht
          · exact hs
          · exact of_decide_eq_true (List.all_eq_true.mp hall t ht)
        · cases h
    · rw [if_neg hs] at h
      rcases hvalue : valueAt (offset + seen) s with e | n
      · rw [hvalue] at h
        cases h
      · obtain ⟨hn, rfl⟩ := symbol_of_valueAt hvalue
        rw [hvalue] at h
        rcases hrest : lastSymbols offset (seen + 1) bs with e | ⟨symbols', padding'⟩
        · rw [hrest] at h
          cases h
        · rw [hrest] at h
          cases h
          obtain ⟨vs, hvs, rfl, rfl⟩ := ih hrest
          exact ⟨n :: vs, by simpa [hn] using hvs, rfl, rfl⟩

/-- Two or three symbols may be followed by padding. -/
theorem lastSymbols_append {vs : List ℕ} (hvs : ∀ v ∈ vs, v < 64)
    (hseen : padding = 0 ∨ 2 ≤ seen + vs.length) :
    lastSymbols offset seen (vs.map symbol ++ List.replicate padding pad)
      = .ok (vs.map signed, padding) := by
  induction vs generalizing seen with
  | nil =>
    cases padding with
    | zero => rfl
    | succ k =>
      have htwo : ¬ seen < 2 := by
        rw [List.length_nil] at hseen
        omega
      have hall : (List.replicate k pad).all (· = pad) = true := by simp
      rw [List.map_nil, List.nil_append, List.replicate_succ, lastSymbols, if_pos rfl,
        if_neg htwo, if_pos hall, List.length_replicate]
      rfl
  | cons n vs ih =>
    have hn := hvs n List.mem_cons_self
    have hrest : lastSymbols offset (seen + 1) (vs.map symbol ++ List.replicate padding pad)
        = .ok (vs.map signed, padding) := by
      refine ih (fun v hv => hvs v (List.mem_cons_of_mem n hv)) ?_
      rw [List.length_cons] at hseen
      omega
    rw [List.map_cons, List.cons_append, lastSymbols, if_neg (symbol_ne_pad hn),
      valueAt_symbol hn, hrest]
    rfl

/-- The bytes of the last group, from the numbers that its symbols stand for. -/
def lastBytes (offset : ℕ) (bs : List UInt8) (padding : ℕ) : List ℕ → Except Error (List UInt8)
  | [] => if bs = [] then .ok [] else .error (.invalidLength offset)
  | [_] => .error (.invalidLength (offset + 1))
  | [a, b] =>
      if (padding + 2) % 4 ≠ 0 then .error .invalidPadding
      else if b % 16 ≠ 0 then .error (.invalidLastSymbol (offset + 1) (symbol b))
      else .ok [byte₁ a b]
  | [a, b, c] =>
      if (padding + 3) % 4 ≠ 0 then .error .invalidPadding
      else if c % 4 ≠ 0 then .error (.invalidLastSymbol (offset + 2) (symbol c))
      else .ok [byte₁ a b, byte₂ b c]
  | a :: b :: c :: d :: _ => .ok [byte₁ a b, byte₂ b c, byte₃ c d]

theorem decodeLast_eq {vs : List ℕ} (h : lastSymbols offset 0 bs = .ok (vs.map signed, padding)) :
    decodeLast offset bs = lastBytes offset bs padding vs := by
  unfold decodeLast
  rw [h]
  rcases vs with _ | ⟨a, _ | ⟨b, _ | ⟨c, _ | ⟨d, vs⟩⟩⟩⟩ <;> rfl

theorem decodeLast_append (vs : List ℕ) (padding : ℕ) (hvs : ∀ v ∈ vs, v < 64)
    (hpadding : padding = 0 ∨ 2 ≤ vs.length) :
    decodeLast offset (vs.map symbol ++ List.replicate padding pad)
      = lastBytes offset (vs.map symbol ++ List.replicate padding pad) padding vs :=
  decodeLast_eq (lastSymbols_append hvs (by rwa [Nat.zero_add]))

/-- The bytes of a full group. -/
theorem decodeLast_group (ha : a < 64) (hb : b < 64) (hc : c < 64) (hd : d < 64) :
    decodeLast offset [symbol a, symbol b, symbol c, symbol d]
      = .ok [byte₁ a b, byte₂ b c, byte₃ c d] :=
  decodeLast_append [a, b, c, d] 0 (by simp [ha, hb, hc, hd]) (Or.inl rfl)

theorem decodeLast_two (ha : a < 64) (hb : b < 64) (hc : c < 64) (hrest : c % 4 = 0) :
    decodeLast offset [symbol a, symbol b, symbol c, pad] = .ok [byte₁ a b, byte₂ b c] := by
  refine (decodeLast_append [a, b, c] 1 (by simp [ha, hb, hc])
    (Or.inr (by simp))).trans ?_
  rw [lastBytes, if_neg (by decide), if_neg (not_not_intro hrest)]

theorem decodeLast_one (ha : a < 64) (hb : b < 64) (hrest : b % 16 = 0) :
    decodeLast offset [symbol a, symbol b, pad, pad] = .ok [byte₁ a b] := by
  refine (decodeLast_append [a, b] 2 (by simp [ha, hb])
    (Or.inr (by simp))).trans ?_
  rw [lastBytes, if_neg (by decide), if_neg (not_not_intro hrest)]

/-- The last group is the one that its bytes are encoded to. -/
theorem encode_of_decodeLast (hlength : bs.length ≤ 4) (h : decodeLast offset bs = .ok out) :
    encode out = bs := by
  rcases hlast : lastSymbols offset 0 bs with e | ⟨symbols, padding⟩
  · unfold decodeLast at h
    rw [hlast] at h
    cases h
  obtain ⟨vs, hvs, rfl, hbs⟩ := lastSymbols_eq_ok hlast
  rw [decodeLast_eq hlast] at h
  rw [hbs, List.length_append, List.length_map, List.length_replicate] at hlength
  -- by the number of symbols; how much padding follows them is settled by the length
  rcases vs with _ | ⟨a, _ | ⟨b, _ | ⟨c, _ | ⟨d, vs⟩⟩⟩⟩
  · rw [lastBytes] at h
    split_ifs at h with hnil
    cases h
    exact hnil.symm
  · cases h
  · rw [lastBytes] at h
    split_ifs at h with hpadding hrest
    cases h
    have htwo : padding = 2 := by
      rw [List.length_cons, List.length_singleton] at hlength
      omega
    rw [hbs, htwo, encode_one (hvs a (by simp)) (hvs b (by simp)) (not_not.mp hrest)]
    rfl
  · rw [lastBytes] at h
    split_ifs at h with hpadding hrest
    cases h
    have hone : padding = 1 := by
      rw [List.length_cons, List.length_cons, List.length_singleton] at hlength
      omega
    rw [hbs, hone, encode_two (hvs a (by simp)) (hvs b (by simp)) (hvs c (by simp))
      (not_not.mp hrest)]
    rfl
  · cases h
    rw [List.length_cons, List.length_cons, List.length_cons, List.length_cons] at hlength
    have hnil : vs = [] := List.length_eq_zero_iff.mp (by omega)
    have hnone : padding = 0 := by omega
    rw [hbs, hnil, hnone, encode_group (hvs a (by simp)) (hvs b (by simp)) (hvs c (by simp))
      (hvs d (by simp))]
    rfl

/-! ### All groups -/

/-- There are four symbols for every three bytes that were begun. -/
theorem length_encode (bs : List UInt8) : (encode bs).length = (bs.length + 2) / 3 * 4 := by
  induction bs using encode.induct with
  | case1 | case2 | case3 => simp [encode]
  | case4 x y z bs ih =>
    rw [encode, List.length_cons, List.length_cons, List.length_cons, List.length_cons, ih,
      List.length_cons, List.length_cons, List.length_cons]
    omega

/-- All signs are symbols or padding. -/
theorem mem_encode (hs : s ∈ encode bs) : s = pad ∨ ∃ n < 64, s = symbol n := by
  induction bs using encode.induct with
  | case1 => cases hs
  | case2 x =>
    obtain ⟨a, ha, b, hb, hrest, rfl⟩ := exists_one x
    rw [encode_one ha hb hrest] at hs
    simp only [List.mem_cons, List.not_mem_nil, or_false] at hs
    rcases hs with rfl | rfl | rfl | rfl
    · exact Or.inr ⟨a, ha, rfl⟩
    · exact Or.inr ⟨b, hb, rfl⟩
    · exact Or.inl rfl
    · exact Or.inl rfl
  | case3 x y =>
    obtain ⟨a, ha, b, hb, c, hc, hrest, rfl, rfl⟩ := exists_two x y
    rw [encode_two ha hb hc hrest] at hs
    simp only [List.mem_cons, List.not_mem_nil, or_false] at hs
    rcases hs with rfl | rfl | rfl | rfl
    · exact Or.inr ⟨a, ha, rfl⟩
    · exact Or.inr ⟨b, hb, rfl⟩
    · exact Or.inr ⟨c, hc, rfl⟩
    · exact Or.inl rfl
  | case4 x y z bs ih =>
    obtain ⟨a, ha, b, hb, c, hc, d, hd, rfl, rfl, rfl⟩ := exists_group x y z
    rw [encode_group ha hb hc hd] at hs
    simp only [List.mem_cons] at hs
    rcases hs with rfl | rfl | rfl | rfl | hs
    · exact Or.inr ⟨a, ha, rfl⟩
    · exact Or.inr ⟨b, hb, rfl⟩
    · exact Or.inr ⟨c, hc, rfl⟩
    · exact Or.inr ⟨d, hd, rfl⟩
    · exact ih hs

/-- All signs are of the seven-bit alphabet. -/
theorem encode_lt (bs : List UInt8) : ∀ s ∈ encode bs, s.toNat < 128 := by
  intro s hs
  rcases mem_encode hs with rfl | ⟨n, hn, rfl⟩
  · decide
  · exact symbol_lt hn

/-- A group that is not the last one. -/
theorem decodeGroups_group (ha : a < 64) (hb : b < 64) (hc : c < 64) (hd : d < 64)
    (hbs : bs ≠ []) (htail : decodeGroups (offset + 4) bs = .ok out) :
    decodeGroups offset (symbol a :: symbol b :: symbol c :: symbol d :: bs)
      = .ok (byte₁ a b :: byte₂ b c :: byte₃ c d :: out) := by
  obtain ⟨e, rest, rfl⟩ := List.exists_cons_of_ne_nil hbs
  rw [decodeGroups, valueAt_symbol ha, valueAt_symbol hb, valueAt_symbol hc, valueAt_symbol hd,
    htail]
  rfl

theorem decodeGroups_encode (bs : List UInt8) (offset : ℕ) :
    decodeGroups offset (encode bs) = .ok bs := by
  induction bs using encode.induct generalizing offset with
  | case1 => rfl
  | case2 x =>
    obtain ⟨a, ha, b, hb, hrest, rfl⟩ := exists_one x
    rw [encode_one ha hb hrest]
    exact decodeLast_one ha hb hrest
  | case3 x y =>
    obtain ⟨a, ha, b, hb, c, hc, hrest, rfl, rfl⟩ := exists_two x y
    rw [encode_two ha hb hc hrest]
    exact decodeLast_two ha hb hc hrest
  | case4 x y z bs ih =>
    obtain ⟨a, ha, b, hb, c, hc, d, hd, rfl, rfl, rfl⟩ := exists_group x y z
    rw [encode_group ha hb hc hd]
    by_cases hbs : encode bs = []
    · -- it is the last one if nothing is left
      have hout := ih offset
      rw [hbs] at hout ⊢
      cases hout
      exact decodeLast_group ha hb hc hd
    · exact decodeGroups_group ha hb hc hd hbs (ih _)

/-- **What is encoded is decoded to the same bytes.** -/
theorem decode_encode (bs : List UInt8) : decode (encode bs) = .ok bs := by
  have hstray : strayLast? (encode bs) = none := by
    unfold strayLast?
    split
    · refine if_neg fun h => ?_
      have hlength := length_encode bs
      omega
    · rfl
  unfold decode
  rw [hstray]
  exact decodeGroups_encode bs 0

theorem encode_of_decodeGroups (h : decodeGroups offset bs = .ok out) : encode out = bs := by
  induction offset, bs using decodeGroups.induct generalizing out with
  | case1 offset s₁ s₂ s₃ s₄ s₅ rest ih =>
    rw [decodeGroups] at h
    obtain ⟨a, ha, h⟩ := bind_eq_ok.mp h
    obtain ⟨b, hb, h⟩ := bind_eq_ok.mp h
    obtain ⟨c, hc, h⟩ := bind_eq_ok.mp h
    obtain ⟨d, hd, h⟩ := bind_eq_ok.mp h
    obtain ⟨tail, htail, h⟩ := bind_eq_ok.mp h
    cases h
    obtain ⟨hlt₁, rfl⟩ := symbol_of_valueAt ha
    obtain ⟨hlt₂, rfl⟩ := symbol_of_valueAt hb
    obtain ⟨hlt₃, rfl⟩ := symbol_of_valueAt hc
    obtain ⟨hlt₄, rfl⟩ := symbol_of_valueAt hd
    rw [← ih htail]
    exact encode_group hlt₁ hlt₂ hlt₃ hlt₄ tail
  | case2 offset last hshort =>
    have hlast : decodeGroups offset last = decodeLast offset last :=
      decodeGroups.eq_2 offset last hshort
    have hlength : last.length ≤ 4 := by
      by_contra hlong
      rcases last with _ | ⟨a, _ | ⟨b, _ | ⟨c, _ | ⟨d, _ | ⟨e, rest⟩⟩⟩⟩⟩
      case cons.cons.cons.cons.cons => exact hshort a b c d e rest rfl
      all_goals simp at hlong
    exact encode_of_decodeLast hlength (hlast.symm.trans h)

/-- **What is decoded is what its bytes are encoded to.** -/
theorem encode_of_decode (h : decode bs = .ok out) : encode out = bs := by
  unfold decode at h
  split at h
  · cases h
  · exact encode_of_decodeGroups h

/-! ### Texts -/

private theorem toList_loop (bytes : ByteArray) (i : ℕ) (read : List UInt8) :
    ByteArray.toList.loop bytes i read = read.reverse ++ bytes.data.toList.drop i := by
  induction i, read using ByteArray.toList.loop.induct bytes with
  | case1 i read hlt ih =>
    have hget : bytes.get! i = bytes.data.toList[i] := getElem!_pos bytes.data i hlt
    rw [ByteArray.toList.loop, if_pos hlt, ih, hget, List.reverse_cons, List.append_assoc,
      List.singleton_append, List.getElem_cons_drop]
  | case2 i read hle =>
    have hdrop : bytes.data.toList.drop i = [] := List.drop_eq_nil_iff.mpr (Nat.le_of_not_lt hle)
    rw [ByteArray.toList.loop, if_neg hle, hdrop, List.append_nil]

theorem toList_data (bytes : ByteArray) : bytes.toList = bytes.data.toList :=
  toList_loop bytes 0 []

/-- Two texts with the same bytes are the same. -/
theorem utf8_injective {t u : String} (h : utf8 t = utf8 u) : t = u := by
  unfold utf8 at h
  rw [toList_data, toList_data] at h
  exact String.toByteArray_inj.mp (ByteArray.ext (Array.ext' h))

/-- Signs of the seven-bit alphabet are their own bytes. -/
theorem utf8_ofList {signs : List UInt8} (h : ∀ s ∈ signs, s.toNat < 128) :
    utf8 (String.ofList (signs.map fun s => Char.ofNat s.toNat)) = signs := by
  have hbyte : ∀ s ∈ signs, String.utf8EncodeChar (Char.ofNat s.toNat) = [s] := by
    intro s hs
    have hlt := h s hs
    have hval : (Char.ofNat s.toNat).val.toNat = s.toNat := by
      have hvalid : s.toNat.isValidChar := Or.inl (by omega)
      unfold Char.ofNat
      rw [dif_pos hvalid]
      rfl
    rw [String.utf8EncodeChar.eq_1, hval, if_pos (Nat.le_of_lt_succ hlt), UInt8.ofNat_toNat]
  have hflat : (signs.map fun s => Char.ofNat s.toNat).flatMap String.utf8EncodeChar = signs := by
    rw [List.flatMap_map, List.flatMap_congr hbyte, List.flatMap_singleton']
  unfold utf8
  rw [String.toUTF8_eq_toByteArray, String.toByteArray_ofList, List.utf8Encode.eq_1, hflat,
    toList_data, List.data_toByteArray]

theorem utf8_encodeText (bs : List UInt8) : utf8 (encodeText bs) = encode bs :=
  utf8_ofList (encode_lt bs)

/-- **A text that bytes are encoded to is decoded to them.** -/
theorem decodeText_encodeText (bs : List UInt8) : decodeText (encodeText bs) = .ok bs := by
  unfold decodeText
  rw [utf8_encodeText]
  exact decode_encode bs

/-- **A text that is decoded is the one that its bytes are encoded to.** -/
theorem encodeText_of_decodeText {t : String} (h : decodeText t = .ok bs) : encodeText bs = t := by
  refine utf8_injective ?_
  rw [utf8_encodeText]
  exact encode_of_decode h

end Base64
end BlockIngest
