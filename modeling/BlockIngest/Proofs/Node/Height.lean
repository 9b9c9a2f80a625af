import BlockIngest.Node.Client
import BlockIngest.Proofs.Node.Answer
import BlockIngest.Proofs.Text.Refusal

/-!
# How a height is written

The node writes a height as a number or as a text, and is asked for one in a text.  A height
that was misread would be the height of another block, so it is said here of every value
whether it is read as a height, as which, and for which fault it is refused if it is not.

A number with a fraction or an exponent is a double and no height, whatever its value.

## Main definitions

* `Json.Denotes` — the values that denote a number, of whatever size.
* `Json.IsNoHeight` — the values that are refused, by their fault.

## Main results

* `Json.Denotes.unique` — a value denotes one number at most.
* `Json.asHeight_eq_error` — the values that are refused as heights, and why.
* `Json.heights_as_written` — **the values that are read as heights**, and that what a client
  writes is among them.
-/

namespace BlockIngest
namespace Json

variable {v : Json} {s : String} {m n : ℕ}

/-! ### Values that denote a number -/

/-- A value that denotes a number, of whatever size: the number itself, or a numeral for it
between blanks. -/
def Denotes (v : Json) (n : ℕ) : Prop :=
  v = .nat n ∨ ∃ s core, v = .str s ∧ Text.IsNumeral n core ∧ Text.Between core s.toList

/-- What stands for a height is what denotes a number of 64 bits. -/
theorem tellsHeight_iff : v.TellsHeight n ↔ n ≤ Height.top ∧ v.Denotes n := Iff.rfl

/-- A text denotes what is left of it without blanks. -/
theorem denotes_str_iff : (Json.str s).Denotes n ↔ Text.IsNumeral n (Text.trimList s.toList) := by
  constructor
  · rintro (h | ⟨t, core, h, hcore, hbetween⟩)
    · cases h
    · cases h
      rwa [Text.trimList_of_between hcore.bare hbetween]
  · intro h
    exact Or.inr ⟨s, _, rfl, h, Text.between_trimList s.toList⟩

/-- A value denotes one number at most. -/
theorem Denotes.unique (hm : v.Denotes m) (hn : v.Denotes n) : m = n := by
  cases v with
  | str s => exact (denotes_str_iff.mp hm).unique (denotes_str_iff.mp hn)
  | int i =>
    rcases hm with hm | ⟨_, _, hm, -⟩
    · rcases hn with hn | ⟨_, _, hn, -⟩
      · rw [hm] at hn
        exact Int.ofNat_inj.mp (Json.int.inj hn)
      · cases hn
    · cases hm
  | null | bool | float | arr | obj =>
    rcases hm with hm | ⟨_, _, hm, -⟩
    · cases hm
    · cases hm

/-! ### Values that are refused -/

/-- The values that are refused as heights, by their fault. -/
inductive IsNoHeight : Json → DecodeError → Prop
  /-- The value is neither a text nor a number of 64 bits. -/
  | other {v : Json} (htext : ∀ s, v ≠ .str s) (hnumber : ∀ h ≤ Height.top, v ≠ .nat h) :
      IsNoHeight v .noHeight
  /-- What stands between the blanks of a text is refused as a number. -/
  | text {s : String} {core : List Char} {why : Text.NumeralError} (hbare : Text.Bare core)
      (hbetween : Text.Between core s.toList) (hrefused : Text.IsRefused core why) :
      IsNoHeight (.str s) (.badHeight s why)

theorem asHeight_str (s : String) : asHeight (.str s)
    = (Text.readNumeralList (Text.trimList s.toList)).mapError (.badHeight s) := by
  rw [← Text.toList_trim]
  rfl

/-- A text that is refused as a number is refused as a height. -/
theorem asHeight_str_of_isRefused {why : Text.NumeralError}
    (h : Text.IsRefused (Text.trimList s.toList) why) :
    asHeight (.str s) = .error (.badHeight s why) := by
  rw [asHeight_str, Text.readNumeralList_eq_error.mpr h]
  rfl

theorem asHeight_of_isNoHeight {e : DecodeError} (h : v.IsNoHeight e) : asHeight v = .error e := by
  cases h with
  | other htext hnumber =>
    cases v with
    | str s => exact absurd rfl (htext s)
    | int i =>
      refine if_neg fun hfits => hnumber i.toNat hfits.2 ?_
      exact congrArg Json.int (Int.toNat_of_nonneg hfits.1).symm
    | null | bool | float | arr | obj => rfl
  | text hbare hbetween hrefused =>
    rw [← Text.trimList_of_between hbare hbetween] at hrefused
    exact asHeight_str_of_isRefused hrefused

theorem isNoHeight_of_asHeight {e : DecodeError} (h : asHeight v = .error e) : v.IsNoHeight e := by
  cases v with
  | str s =>
    rw [asHeight_str] at h
    rcases hread : Text.readNumeralList (Text.trimList s.toList) with why | n
    · rw [hread] at h
      cases h
      exact .text (Text.bare_trimList _) (Text.between_trimList _)
        (Text.readNumeralList_eq_error.mp hread)
    · rw [hread] at h
      cases h
  | int i =>
    by_cases hfits : 0 ≤ i ∧ i.toNat ≤ Height.top
    · rw [asHeight, if_pos hfits] at h
      cases h
    · rw [asHeight, if_neg hfits] at h
      cases h
      refine .other (fun s hs => ?_) fun n hn heq => hfits ?_
      · cases hs
      · obtain rfl : i = (n : ℤ) := Json.int.inj heq
        exact ⟨Int.natCast_nonneg n, hn⟩
  | null | bool | float | arr | obj =>
    cases h
    refine .other (fun s hs => ?_) fun n hn heq => ?_
    · cases hs
    · cases heq

/-- **The values that are refused as heights**, and why. -/
theorem asHeight_eq_error {e : DecodeError} : asHeight v = .error e ↔ v.IsNoHeight e :=
  ⟨isNoHeight_of_asHeight, asHeight_of_isNoHeight⟩

/-- A numeral for a number that exceeds 64 bits is refused as one. -/
theorem asHeight_of_large (h : (Json.str s).Denotes n) (htop : Height.top < n) :
    asHeight (.str s) = .error (.badHeight s .tooLarge) :=
  asHeight_str_of_isRefused ⟨n, _, List.prefix_rfl, denotes_str_iff.mp h, htop⟩

/-! ### Values that are read -/

/-- A number of 64 bits is read as the height that it is. -/
theorem asHeight_nat (h : n ≤ Height.top) : asHeight (.nat n) = .ok n :=
  asHeight_eq_ok.mpr ⟨h, Or.inl rfl⟩

/-- The decimal text of a number of 64 bits is read as the height that it is. -/
theorem asHeight_toString (h : n ≤ Height.top) : asHeight (.str (toString n)) = .ok n :=
  asHeight_eq_ok.mpr ⟨h, Or.inr ⟨_, _, rfl, Text.isNumeral_toString n, .refl _⟩⟩

/-- **Heights are read as they are written**: a value is read as a height just if it denotes
that one, and fits 64 bits.  Of all other values it is known why they are refused; no value denotes
two numbers, and a text that denotes a larger number is refused for its size.  A height is read
from the number that it is, and from the text in which a node is asked for it. -/
theorem heights_as_written :
    (∀ v h, asHeight v = .ok h ↔ h ≤ Height.top ∧ v.Denotes h) ∧
      (∀ v e, asHeight v = .error e ↔ v.IsNoHeight e) ∧
      (∀ v m n, Denotes v m → v.Denotes n → m = n) ∧
      (∀ s n, (Json.str s).Denotes n → Height.top < n →
        asHeight (.str s) = .error (.badHeight s .tooLarge)) ∧
      ∀ h ≤ Height.top, asHeight (.nat h) = .ok h ∧ ∀ method, ∃ text,
        Request.params? ⟨method, some h⟩ = some [text] ∧ asHeight (.str text) = .ok h := by
  refine ⟨?_, ?_, ?_, ?_, ?_⟩
  · intro v h
    exact asHeight_eq_ok.trans tellsHeight_iff
  · intro v e
    exact asHeight_eq_error
  · intro v m n hm hn
    exact hm.unique hn
  · intro s n hs htop
    exact asHeight_of_large hs htop
  · intro h hh
    refine ⟨asHeight_nat hh, fun method => ?_⟩
    exact ⟨toString h, rfl, asHeight_toString hh⟩

-- A sign and zeros in front make no difference; what stands behind too many digits is not seen.
example : asHeight (.str " +0017\n") = .ok 17 := by rfl

example : asHeight (.str "18446744073709551616x")
    = .error (.badHeight "18446744073709551616x" .tooLarge) := by rfl

end Json
end BlockIngest
