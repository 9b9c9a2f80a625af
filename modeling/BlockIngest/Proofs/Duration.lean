import BlockIngest.Duration
import Mathlib.Algebra.Group.Nat.Defs

/-!
# Spans in two parts

A span is a number of nanoseconds, and it is kept in two parts: whole seconds, for which there
is a word of 64 bits, and the nanoseconds that are left.  Two spans are compared by their
seconds first.  A span is doubled part by part: whole seconds that the nanoseconds come to are
carried over, and if the seconds outgrow their word, the longest span is taken instead.

All this comes to the same as comparing numbers, and doubling them up to the longest span.

## Main definitions

* `Duration.Parts`, `Duration.Parts.span` — the two parts, and the span that they make.
* `Duration.Parts.shorter`, `Duration.Parts.double` — what is done part by part.

## Main results

* `Duration.Parts.exists_span_eq` — the spans in two parts are those up to the longest.
* `Duration.Parts.span_shorter` — the shorter of two spans is the smaller number.
* `Duration.Parts.span_double` — **doubling part by part is doubling**, up to the longest span.
-/

namespace BlockIngest
namespace Duration

/-- A span in two parts. -/
@[ext] structure Parts where
  /-- The whole seconds. -/
  seconds : ℕ
  /-- The nanoseconds that are left. -/
  nanos : ℕ
  /-- The seconds fit a word. -/
  seconds_lt : seconds < 2 ^ 64
  /-- The nanoseconds do not make another second. -/
  nanos_lt : nanos < second
  deriving DecidableEq

namespace Parts

variable {d e : Parts} {n : ℕ}

/-- The number of nanoseconds in both parts. -/
def span (d : Parts) : ℕ := d.seconds * second + d.nanos

/-- No time at all. -/
def zero : Parts := ⟨0, 0, by decide, by decide⟩

/-- A millisecond. -/
def millisecond : Parts := ⟨0, Duration.millisecond, by decide, by decide⟩

/-- Neither part can be greater. -/
def longest : Parts := ⟨2 ^ 64 - 1, second - 1, by decide, by decide⟩

/-- Whether a span is less than another: by its seconds, or by its nanoseconds if the seconds are
the same. -/
def IsLess (d e : Parts) : Prop :=
  d.seconds < e.seconds ∨ d.seconds = e.seconds ∧ d.nanos < e.nanos

instance (d e : Parts) : Decidable (d.IsLess e) :=
  inferInstanceAs (Decidable (_ ∨ _ ∧ _))

/-- The shorter of two spans. -/
def shorter (d e : Parts) : Parts := if e.IsLess d then e else d

/-- Twice the seconds, and what twice the nanoseconds carry over. -/
def doubleSeconds (d : Parts) : ℕ := 2 * d.seconds + 2 * d.nanos / second

/-- Twice a span, or the longest one if there are too many seconds. -/
def double (d : Parts) : Parts :=
  if fits : d.doubleSeconds < 2 ^ 64 then
    ⟨d.doubleSeconds, 2 * d.nanos % second, fits, Nat.mod_lt _ (by decide)⟩
  else longest

/-! ### The span of both parts -/

@[simp] theorem span_zero : zero.span = 0 := rfl

@[simp] theorem span_millisecond : millisecond.span = Duration.millisecond := by decide

@[simp] theorem span_longest : longest.span = Duration.longest := by decide

theorem span_le (d : Parts) : d.span ≤ Duration.longest := by
  have hseconds : d.seconds ≤ 2 ^ 64 - 1 := Nat.le_sub_one_of_lt d.seconds_lt
  have hnanos := d.nanos_lt
  unfold span Duration.longest
  unfold second at *
  omega

/-- Every span up to the longest has its two parts. -/
theorem exists_span_eq (h : n ≤ Duration.longest) : ∃ d : Parts, d.span = n := by
  have hseconds : n / second < 2 ^ 64 := by
    rw [Nat.div_lt_iff_lt_mul (by decide)]
    unfold Duration.longest second at *
    omega
  exact ⟨⟨n / second, n % second, hseconds, Nat.mod_lt _ (by decide)⟩, Nat.div_add_mod' n second⟩

/-- To compare the parts is to compare the spans: the seconds decide, because the nanoseconds make
less than one of them. -/
theorem isLess_iff : d.IsLess e ↔ d.span < e.span := by
  have hd := d.nanos_lt
  have he := e.nanos_lt
  unfold IsLess span
  unfold second at *
  omega

theorem eq_zero_iff : d = zero ↔ d.span = 0 := by
  constructor
  · rintro rfl
    exact span_zero
  · intro h
    unfold span second at h
    refine Parts.ext ?_ ?_
    · show d.seconds = 0
      omega
    · show d.nanos = 0
      omega

/-- The shorter of two spans is the smaller number. -/
theorem span_shorter (d e : Parts) : (d.shorter e).span = min d.span e.span := by
  unfold shorter
  split
  · next h => exact (Nat.min_eq_right (Nat.le_of_lt (isLess_iff.mp h))).symm
  · next h => exact (Nat.min_eq_left (Nat.le_of_not_lt (mt isLess_iff.mpr h))).symm

/-- Nothing is lost when whole seconds are carried over. -/
theorem doubleSeconds_add (d : Parts) :
    d.doubleSeconds * second + 2 * d.nanos % second = 2 * d.span := by
  have hcarry := Nat.div_add_mod' (2 * d.nanos) second
  unfold doubleSeconds span
  rw [Nat.add_mul, Nat.mul_assoc]
  omega

/-- **Doubling part by part is doubling**, up to the longest span. -/
theorem span_double (d : Parts) : d.double.span = Duration.double d.span := by
  have htwice := d.doubleSeconds_add
  unfold double Duration.double
  split
  · next fits =>
    have hle := span_le ⟨_, 2 * d.nanos % second, fits, Nat.mod_lt _ (by decide)⟩
    rw [← htwice]
    exact (Nat.min_eq_left hle).symm
  · next large =>
    -- already the seconds make more than the longest span
    have hle : 2 ^ 64 ≤ d.doubleSeconds := Nat.le_of_not_lt large
    rw [span_longest]
    refine (Nat.min_eq_right ?_).symm
    unfold Duration.longest second at *
    omega

end Parts
end Duration
end BlockIngest
