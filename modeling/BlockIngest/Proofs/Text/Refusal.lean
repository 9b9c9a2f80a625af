import BlockIngest.Proofs.Text.Numeral

/-!
# Why a text is no number

A text is refused as a number for the first fault that is met in it, read from the left.  So a
text that goes on behind too many digits is refused for these, whatever it goes on with, and a
numeral for a number that exceeds 64 bits is always refused as one: what was read of it is
never given for it.

## Main definitions

* `Text.unsigned` — a text without its sign.
* `Text.IsRefused` — the texts that are refused, by their fault.
* `Text.Exceeds` — digits that come to too much.

## Main results

* `Text.IsNumeral.unique` — a text is a numeral for one number at most.
* `Text.readDigits_eq_tooLarge` — digits are refused once they exceed 64 bits.
* `Text.readNumeralList_eq_error` — **the texts that are refused**, and why.
-/

namespace BlockIngest
namespace Text

variable {c : Char} {cs : List Char} {n value : ℕ}

/-! ### What is left without a sign -/

/-- What is left of a text without a plus sign in front. -/
def unsigned : List Char → List Char
  | '+' :: cs => cs
  | cs => cs

/-- A text begins with its sign, if it has one. -/
theorem eq_unsigned_or (cs : List Char) : cs = unsigned cs ∨ cs = '+' :: unsigned cs := by
  unfold unsigned
  split
  · exact Or.inr rfl
  · exact Or.inl rfl

theorem eq_of_unsigned_eq_nil (h : unsigned cs = []) : cs = [] ∨ cs = ['+'] := by
  have hcs := eq_unsigned_or cs
  rwa [h] at hcs

/-- Digits do not begin with a sign, so they are found behind one. -/
theorem prefix_unsigned {ds : List Char} (hne : ds ≠ []) (hdigits : ∀ c ∈ ds, c.isDigit)
    (h : ds <+: cs) : ds <+: unsigned cs := by
  rcases eq_unsigned_or cs with hcs | hcs
  · rwa [← hcs]
  · rw [hcs] at h
    cases ds with
    | nil => exact absurd rfl hne
    | cons d ds =>
      obtain ⟨rfl, -⟩ := List.cons_prefix_cons.mp h
      exact absurd (hdigits '+' List.mem_cons_self) not_isDigit_plus

/-- The numerals with which a text begins are the digits with which it begins behind its sign. -/
theorem exists_prefix_isNumeral_iff : (∃ front, front <+: cs ∧ IsNumeral n front) ↔
    ∃ ds, ds <+: unsigned cs ∧ ds ≠ [] ∧ (∀ c ∈ ds, c.isDigit) ∧ Nat.ofDigitChars 10 ds 0 = n := by
  constructor
  · rintro ⟨front, hfront, ds, rfl | rfl, hne, hdigits, hvalue⟩
    · exact ⟨front, prefix_unsigned hne hdigits hfront, hne, hdigits, hvalue⟩
    · obtain ⟨rest, rfl⟩ := hfront
      exact ⟨ds, ⟨rest, rfl⟩, hne, hdigits, hvalue⟩
  · rintro ⟨ds, hds, hne, hdigits, hvalue⟩
    rcases eq_unsigned_or cs with hcs | hcs
    · refine ⟨ds, ?_, ds, Or.inl rfl, hne, hdigits, hvalue⟩
      rw [hcs]
      exact hds
    · refine ⟨'+' :: ds, ?_, ds, Or.inr rfl, hne, hdigits, hvalue⟩
      rw [hcs]
      exact List.cons_prefix_cons.mpr ⟨rfl, hds⟩

theorem unsigned_of_digits (hdigits : ∀ c ∈ cs, c.isDigit) : unsigned cs = cs := by
  rcases eq_unsigned_or cs with hcs | hcs
  · exact hcs.symm
  · have hplus : '+' ∈ cs := by
      rw [hcs]
      exact List.mem_cons_self
    exact absurd (hdigits '+' hplus) not_isDigit_plus

theorem IsNumeral.value_unsigned (h : IsNumeral n cs) :
    Nat.ofDigitChars 10 (unsigned cs) 0 = n := by
  obtain ⟨ds, rfl | rfl, -, hdigits, hvalue⟩ := h
  · rwa [unsigned_of_digits hdigits]
  · exact hvalue

/-- A text is a numeral for one number at most. -/
theorem IsNumeral.unique {m : ℕ} (hm : IsNumeral m cs) (hn : IsNumeral n cs) : m = n :=
  hm.value_unsigned.symm.trans hn.value_unsigned

theorem readNumeralList_of_unsigned (h : unsigned cs ≠ []) :
    readNumeralList cs = readDigits 0 (unsigned cs) := by
  unfold readNumeralList
  split
  · exact absurd rfl h
  · exact absurd rfl h
  · rfl
  · next hsigned =>
    rcases eq_unsigned_or cs with hcs | hcs
    · rw [← hcs]
    · exact absurd hcs (hsigned _)

/-! ### Refusals -/

/-- The texts that are refused, by their first fault. -/
def IsRefused (cs : List Char) : NumeralError → Prop
  | .empty => cs = []
  | .tooLarge => ∃ n front, front <+: cs ∧ IsNumeral n front ∧ Height.top < n
  | .invalidDigit => cs ≠ [] ∧ (∀ n, ¬ IsNumeral n cs) ∧
      ∀ n front, front <+: cs → IsNumeral n front → n ≤ Height.top

/-- The digits with which a text begins, behind those that denote `value`, exceed 64 bits. -/
def Exceeds (value : ℕ) (cs : List Char) : Prop :=
  ∃ ds, ds <+: cs ∧ (∀ c ∈ ds, c.isDigit) ∧ Height.top < Nat.ofDigitChars 10 ds value

theorem exceeds_of_lt (h : Height.top < value) (cs : List Char) : Exceeds value cs := by
  refine ⟨[], List.nil_prefix, by simp, ?_⟩
  rwa [Nat.ofDigitChars_nil]

theorem not_exceeds_nil (hvalue : value ≤ Height.top) : ¬ Exceeds value [] := by
  rintro ⟨ds, hds, -, hlarge⟩
  rw [List.prefix_nil.mp hds, Nat.ofDigitChars_nil] at hlarge
  omega

/-- If those before do not exceed 64 bits, another digit is needed for it. -/
theorem exceeds_cons_iff (hvalue : value ≤ Height.top) :
    Exceeds value (c :: cs) ↔
      c.isDigit ∧ Exceeds (value * 10 + (c.toNat - '0'.toNat)) cs := by
  constructor
  · rintro ⟨ds, hds, hdigits, hlarge⟩
    rcases List.prefix_cons_iff.mp hds with rfl | ⟨rest, rfl, hrest⟩
    · rw [Nat.ofDigitChars_nil] at hlarge
      omega
    · rw [List.forall_mem_cons] at hdigits
      rw [Nat.ofDigitChars_cons, Nat.mul_comm] at hlarge
      exact ⟨hdigits.1, rest, hrest, hdigits.2, hlarge⟩
  · rintro ⟨hc, rest, hrest, hdigits, hlarge⟩
    refine ⟨c :: rest, List.cons_prefix_cons.mpr ⟨rfl, hrest⟩,
      List.forall_mem_cons.mpr ⟨hc, hdigits⟩, ?_⟩
    rwa [Nat.ofDigitChars_cons, Nat.mul_comm]

theorem readDigits_ne_empty (cs : List Char) (value : ℕ) :
    readDigits value cs ≠ .error .empty := by
  induction cs generalizing value with
  | nil =>
    intro h
    cases h
  | cons c cs ih =>
    intro h
    rw [readDigits] at h
    split at h
    · cases h
    · split at h
      · cases h
      · exact ih _ h

/-- **Digits are refused once they exceed 64 bits**, whatever comes behind them. -/
theorem readDigits_eq_tooLarge (hvalue : value ≤ Height.top) :
    readDigits value cs = .error .tooLarge ↔ Exceeds value cs := by
  induction cs generalizing value with
  | nil =>
    constructor
    · intro h
      cases h
    · intro h
      exact absurd h (not_exceeds_nil hvalue)
  | cons c cs ih =>
    rw [readDigits, exceeds_cons_iff hvalue]
    by_cases hc : c.isDigit
    · rw [digit?_of_isDigit hc, and_iff_right hc]
      by_cases hlarge : Height.top < value * 10 + (c.toNat - '0'.toNat)
      · simp only [if_pos hlarge, true_iff]
        exact exceeds_of_lt hlarge cs
      · simp only [if_neg hlarge]
        exact ih (Nat.le_of_not_lt hlarge)
    · rw [digit?_of_not_isDigit hc]
      constructor
      · intro h
        cases h
      · intro h
        exact absurd h.1 hc

/-- A text begins with a numeral for too large a number just if its digits exceed 64 bits. -/
theorem isRefused_tooLarge_iff : IsRefused cs .tooLarge ↔ Exceeds 0 (unsigned cs) := by
  constructor
  · rintro ⟨n, front, hfront, hnumeral, htop⟩
    obtain ⟨ds, hds, -, hdigits, rfl⟩ := exists_prefix_isNumeral_iff.mp ⟨front, hfront, hnumeral⟩
    exact ⟨ds, hds, hdigits, htop⟩
  · rintro ⟨ds, hds, hdigits, htop⟩
    have hne : ds ≠ [] := by
      rintro rfl
      exact absurd htop (Nat.not_lt_zero _)
    obtain ⟨front, hfront, hnumeral⟩ :=
      exists_prefix_isNumeral_iff.mpr ⟨ds, hds, hne, hdigits, rfl⟩
    exact ⟨_, front, hfront, hnumeral, htop⟩

theorem readNumeralList_eq_tooLarge :
    readNumeralList cs = .error .tooLarge ↔ IsRefused cs .tooLarge := by
  rw [isRefused_tooLarge_iff]
  by_cases hunsigned : unsigned cs = []
  · -- nothing, and a sign alone, have another fault
    refine ⟨fun h => ?_, fun h => ?_⟩
    · rcases eq_of_unsigned_eq_nil hunsigned with rfl | rfl
      · cases h
      · cases h
    · rw [hunsigned] at h
      exact absurd h (not_exceeds_nil (Nat.zero_le _))
  · rw [readNumeralList_of_unsigned hunsigned, readDigits_eq_tooLarge (Nat.zero_le _)]

theorem readNumeralList_eq_empty : readNumeralList cs = .error .empty ↔ cs = [] := by
  constructor
  · intro h
    by_contra hcs
    by_cases hunsigned : unsigned cs = []
    · rcases eq_of_unsigned_eq_nil hunsigned with rfl | rfl
      · exact hcs rfl
      · cases h
    · rw [readNumeralList_of_unsigned hunsigned] at h
      exact readDigits_ne_empty _ _ h
  · rintro rfl
    rfl

/-- **The texts that are refused**, and why. -/
theorem readNumeralList_eq_error {why : NumeralError} :
    readNumeralList cs = .error why ↔ IsRefused cs why := by
  cases why with
  | empty => exact readNumeralList_eq_empty
  | tooLarge => exact readNumeralList_eq_tooLarge
  | invalidDigit =>
    constructor
    · intro h
      have hsmall : ¬ IsRefused cs .tooLarge := by
        rw [← readNumeralList_eq_tooLarge, h]
        intro hother
        cases hother
      refine ⟨?_, fun n hn => ?_, fun n front hfront hn => ?_⟩
      · rintro rfl
        cases h
      · rcases Nat.lt_or_ge Height.top n with htop | htop
        · exact hsmall ⟨n, cs, List.prefix_rfl, hn, htop⟩
        · rw [readNumeralList_eq_ok.mpr ⟨hn, htop⟩] at h
          cases h
      · by_contra htop
        exact hsmall ⟨n, front, hfront, hn, Nat.lt_of_not_le htop⟩
    · rintro ⟨hne, hno, hsmall⟩
      -- nothing else can come of it
      rcases hread : readNumeralList cs with why | n
      · cases why with
        | empty => exact absurd (readNumeralList_eq_empty.mp hread) hne
        | tooLarge =>
          obtain ⟨n, front, hfront, hn, htop⟩ := readNumeralList_eq_tooLarge.mp hread
          exact absurd (hsmall n front hfront hn) (Nat.not_le_of_lt htop)
        | invalidDigit => rfl
      · exact absurd (readNumeralList_eq_ok.mp hread).1 (hno n)

end Text
end BlockIngest
