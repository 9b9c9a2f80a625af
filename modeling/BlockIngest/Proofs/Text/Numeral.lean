import BlockIngest.Proofs.Text.Blank
import BlockIngest.Text.Numeral

/-!
# What a numeral denotes

A numeral is one digit or more, maybe behind a plus sign.  It is read digit by digit, and
refused as soon as the digits so far exceed 64 bits.  That is the same as to look at its
value when all digits are read: more digits never make a value smaller.

## Main definitions

* `Text.IsNumeral` — the numerals of a number.

## Main results

* `Text.readDigits_eq_ok` — digits are read to their value, if it fits.
* `Text.readNumeralList_eq_ok` — **the texts that are read as a number.**
* `Text.isNumeral_toString` — the decimal text of a number is a numeral for it.
-/

namespace BlockIngest
namespace Text

/-- A numeral for `n`: digits that denote it, maybe behind a plus sign. -/
def IsNumeral (n : ℕ) (cs : List Char) : Prop :=
  ∃ ds, (cs = ds ∨ cs = '+' :: ds) ∧ ds ≠ [] ∧ (∀ c ∈ ds, c.isDigit) ∧
    Nat.ofDigitChars 10 ds 0 = n

variable {c : Char} {cs : List Char} {n value : ℕ}

/-! ### Digits -/

theorem isDigit_iff : c.isDigit ↔ '0' ≤ c ∧ c ≤ '9' := by
  simp [Char.isDigit, Char.le_def]

theorem digit?_of_isDigit (h : c.isDigit) : digit? c = some (c.toNat - '0'.toNat) := by
  unfold digit?
  rw [if_pos (isDigit_iff.mp h)]

theorem digit?_of_not_isDigit (h : ¬ c.isDigit) : digit? c = none := by
  unfold digit?
  rw [if_neg (mt isDigit_iff.mpr h)]

theorem not_isBlank_of_isDigit (h : c.isDigit) : ¬ isBlank c := by
  have hrange : 48 ≤ c.toNat ∧ c.toNat ≤ 57 := by
    simpa [Char.isDigit, UInt32.le_iff_toNat_le] using h
  unfold isBlank
  simp
  omega

theorem le_ofDigitChars (cs : List Char) (value : ℕ) :
    value ≤ Nat.ofDigitChars 10 cs value := by
  induction cs generalizing value with
  | nil => exact Nat.le_of_eq Nat.ofDigitChars_nil.symm
  | cons c cs ih =>
    rw [Nat.ofDigitChars_cons]
    refine le_trans ?_ (ih _)
    omega

/-- **Digits are read to their value**, if it fits. -/
theorem readDigits_eq_ok (hvalue : value ≤ Height.top) :
    readDigits value cs = .ok n ↔
      (∀ c ∈ cs, c.isDigit) ∧ Nat.ofDigitChars 10 cs value = n ∧ n ≤ Height.top := by
  induction cs generalizing value with
  | nil =>
    rw [readDigits, Nat.ofDigitChars_nil]
    constructor
    · intro h
      cases h
      exact ⟨by simp, rfl, hvalue⟩
    · rintro ⟨-, rfl, -⟩
      rfl
  | cons c cs ih =>
    rw [readDigits, Nat.ofDigitChars_cons, List.forall_mem_cons]
    by_cases hc : c.isDigit
    · rw [digit?_of_isDigit hc]
      have hnext : 10 * value + (c.toNat - '0'.toNat) = value * 10 + (c.toNat - '0'.toNat) := by
        omega
      rw [hnext]
      by_cases hlarge : Height.top < value * 10 + (c.toNat - '0'.toNat)
      · -- what comes behind does not bring the value down again
        have hle := le_ofDigitChars cs (value * 10 + (c.toNat - '0'.toNat))
        simp only [if_pos hlarge]
        refine ⟨nofun, ?_⟩
        rintro ⟨-, rfl, htop⟩
        omega
      · simp only [if_neg hlarge]
        rw [ih (Nat.le_of_not_lt hlarge)]
        simp [hc]
    · rw [digit?_of_not_isDigit hc]
      simp [hc]

/-! ### Numerals -/

theorem not_isDigit_plus : ¬ '+'.isDigit := by decide

/-- **The texts that are read as a number** are its numerals, if it fits. -/
theorem readNumeralList_eq_ok :
    readNumeralList cs = .ok n ↔ IsNumeral n cs ∧ n ≤ Height.top := by
  unfold readNumeralList
  split
  · refine ⟨nofun, ?_⟩
    rintro ⟨⟨ds, rfl | h, hne, -⟩, -⟩
    · exact absurd rfl hne
    · cases h
  · refine ⟨nofun, ?_⟩
    rintro ⟨⟨ds, rfl | h, hne, hds, -⟩, -⟩
    · exact absurd (hds '+' List.mem_cons_self) not_isDigit_plus
    · cases h
      exact absurd rfl hne
  · next cs hplus =>
    rw [readDigits_eq_ok (Nat.zero_le _)]
    constructor
    · rintro ⟨hdigits, hvalue, htop⟩
      refine ⟨⟨cs, Or.inr rfl, ?_, hdigits, hvalue⟩, htop⟩
      rintro rfl
      exact hplus rfl
    · rintro ⟨⟨ds, rfl | h, -, hds, hvalue⟩, htop⟩
      · exact absurd (hds '+' List.mem_cons_self) not_isDigit_plus
      · cases h
        exact ⟨hds, hvalue, htop⟩
  · next hnil hplus hsigned =>
    rw [readDigits_eq_ok (Nat.zero_le _)]
    constructor
    · rintro ⟨hdigits, hvalue, htop⟩
      exact ⟨⟨cs, Or.inl rfl, hnil, hdigits, hvalue⟩, htop⟩
    · rintro ⟨⟨ds, rfl | h, -, hds, hvalue⟩, htop⟩
      · exact ⟨hds, hvalue, htop⟩
      · exact absurd h (hsigned ds)

/-- The decimal text of a number is a numeral for it. -/
theorem isNumeral_toString (n : ℕ) : IsNumeral n (toString n).toList := by
  rw [Nat.toString_eq_ofList_toDigits, String.toList_ofList]
  refine ⟨Nat.toDigits 10 n, Or.inl rfl, Nat.toDigits_ne_nil, ?_, Nat.ofDigitChars_ten_toDigits⟩
  intro c hc
  exact Nat.isDigit_of_mem_toDigits (by decide) (by decide) hc

/-- No blank stands in a numeral. -/
theorem IsNumeral.bare (h : IsNumeral n cs) : Bare cs := by
  obtain ⟨ds, hcs, -, hdigits, -⟩ := h
  have hds : ∀ c ∈ ds, ¬ isBlank c := fun c hc => not_isBlank_of_isDigit (hdigits c hc)
  have hplus : ¬ isBlank '+' := by decide
  rcases hcs with rfl | rfl
  · exact bare_of_forall hds
  · exact bare_of_forall (List.forall_mem_cons.mpr ⟨hplus, hds⟩)

end Text
end BlockIngest
