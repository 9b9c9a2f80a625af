import BlockIngest.Proofs.Commit.Discipline
import BlockIngest.Proofs.Config
import BlockIngest.Proofs.Duration
import Mathlib.Order.Monotone.Basic

/-!
# How pauses grow

Each pause of a retry is made from the one before it, which was cut down to the longest pause
already, and the doubling in between stops at the longest span that there is.  Nothing of this
shows: every pause is what it would be if the first one were doubled as often as need be, as a
number of any size, and cut down once.

What stays out of sight is the carrying of nanoseconds into seconds, and seconds that outgrow
their word.  So the pauses are worked out in two parts as well, and come to the same.

## Main definitions

* `Retry.nextParts`, `Retry.pauseParts` — pauses in two parts.
* `Retry.Policy.Doubles` — the law.

## Main results

* `Retry.nextDelay_min` — to cut a pause down before it is doubled makes no difference.
* `Retry.Policy.delay_add` — **the closed form**, from any pause on.
* `Retry.Policy.doubles_of_le` — the law holds of every policy whose longest pause is a span.
* `Retry.doubles_in_parts` — **so it does of pauses in two parts**, and every configuration has
  pauses that double.
-/

namespace BlockIngest
namespace Retry

variable {p : Policy} {longest d x j : ℕ}

/-! ### A pause and the next one -/

theorem nextDelay_le (longest d : ℕ) : nextDelay longest d ≤ longest := by
  unfold nextDelay
  split
  · exact Nat.min_le_left _ _
  · exact Nat.min_le_right _ _

/-- Where doubling stops, the longest pause was passed before. -/
theorem nextDelay_of_ne_zero (hlongest : longest ≤ Duration.longest) (hd : d ≠ 0) :
    nextDelay longest d = min (2 * d) longest := by
  unfold nextDelay Duration.double
  rw [if_neg hd, Nat.min_assoc, Nat.min_eq_right hlongest]

/-- To cut a pause down before it is doubled makes no difference. -/
theorem nextDelay_min (hlongest : longest ≤ Duration.longest) (hx : x ≠ 0) :
    nextDelay longest (min x longest) = min (2 * x) longest := by
  rcases Nat.eq_zero_or_pos longest with rfl | hpos
  · -- then there is no pause at all, neither before nor after
    simp [nextDelay]
  · rw [nextDelay_of_ne_zero hlongest (by omega)]
    omega

theorem le_nextDelay (hlongest : longest ≤ Duration.longest) (hd : d ≤ longest) :
    d ≤ nextDelay longest d := by
  rcases Nat.eq_zero_or_pos d with rfl | hpos
  · exact Nat.zero_le _
  · rw [nextDelay_of_ne_zero hlongest hpos.ne']
    omega

/-! ### All pauses -/

namespace Policy

theorem delay_le (h : p.initial ≤ p.longest) (k : ℕ) : p.delay k ≤ p.longest := by
  cases k with
  | zero => exact h
  | succ k => exact nextDelay_le _ _

theorem monotone_delay (hlongest : p.longest ≤ Duration.longest) (h : p.initial ≤ p.longest) :
    Monotone p.delay :=
  monotone_nat_of_le_succ fun k => le_nextDelay hlongest (delay_le h k)

/-- **The closed form.**  From a pause on that is `x`, cut down or not, the pauses are what doubling
`x` gives, cut down once. -/
theorem delay_add (hlongest : p.longest ≤ Duration.longest) (hx : x ≠ 0)
    (hj : p.delay j = min x p.longest) (k : ℕ) :
    p.delay (j + k) = min (x * 2 ^ k) p.longest := by
  induction k with
  | zero => simpa using hj
  | succ k ih =>
    have hne : x * 2 ^ k ≠ 0 := Nat.mul_ne_zero hx (Nat.two_pow_pos k).ne'
    have hpow : x * 2 ^ (k + 1) = 2 * (x * 2 ^ k) := by
      rw [Nat.pow_succ, ← Nat.mul_assoc, Nat.mul_comm]
    calc p.delay (j + (k + 1)) = nextDelay p.longest (p.delay (j + k)) := rfl
      _ = min (2 * (x * 2 ^ k)) p.longest := by rw [ih, nextDelay_min hlongest hne]
      _ = min (x * 2 ^ (k + 1)) p.longest := by rw [hpow]

/-- **The law of pauses.**  The pause that follows attempt `k + 1` is the one with number `k`. -/
structure Doubles (p : Policy) : Prop where
  /-- If there is a first pause, pause `k` is that one doubled `k` times, cut down once. -/
  from_initial : 0 < p.initial → p.initial ≤ p.longest →
    ∀ k, (attemptAt p k).delay = min (p.initial * 2 ^ k) p.longest
  /-- If there is none, a millisecond comes next and is doubled from there on. -/
  from_nothing : p.initial = 0 → (attemptAt p 0).delay = 0 ∧
    ∀ k, (attemptAt p (k + 1)).delay = min (2 ^ k * Duration.millisecond) p.longest
  /-- No pause is shorter than one before it. -/
  monotone : p.initial ≤ p.longest → Monotone fun k => (attemptAt p k).delay
  /-- None is longer than the longest. -/
  le_longest : p.initial ≤ p.longest → ∀ k, (attemptAt p k).delay ≤ p.longest

/-- The law holds of every policy whose longest pause is a span. -/
theorem doubles_of_le (hlongest : p.longest ≤ Duration.longest) : p.Doubles where
  from_initial := by
    intro hpos hordered k
    have hfirst : p.delay 0 = min p.initial p.longest := (Nat.min_eq_left hordered).symm
    have hk := delay_add hlongest hpos.ne' hfirst k
    rwa [Nat.zero_add, ← delay_attemptAt] at hk
  from_nothing := by
    intro hzero
    have hsecond : p.delay 1 = min Duration.millisecond p.longest := by
      show nextDelay p.longest p.initial = _
      rw [hzero, Nat.min_comm]
      rfl
    refine ⟨hzero, fun k => ?_⟩
    rw [delay_attemptAt, Nat.add_comm k 1, Nat.mul_comm]
    exact delay_add hlongest (by decide) hsecond k
  monotone := by
    intro hordered
    simpa only [delay_attemptAt] using monotone_delay hlongest hordered
  le_longest := by
    intro hordered k
    rw [delay_attemptAt]
    exact delay_le hordered k

end Policy

/-! ### Pauses in two parts -/

/-- The pause after a pause, in two parts. -/
def nextParts (longest d : Duration.Parts) : Duration.Parts :=
  if d = .zero then longest.shorter .millisecond else d.double.shorter longest

/-- The pause after the failure of attempt `k + 1`, in two parts. -/
def pauseParts (initial longest : Duration.Parts) : ℕ → Duration.Parts
  | 0 => initial
  | k + 1 => nextParts longest (pauseParts initial longest k)

theorem span_nextParts (longest d : Duration.Parts) :
    (nextParts longest d).span = nextDelay longest.span d.span := by
  unfold nextParts nextDelay
  by_cases hd : d = .zero
  · rw [if_pos hd, if_pos (Duration.Parts.eq_zero_iff.mp hd), Duration.Parts.span_shorter,
      Duration.Parts.span_millisecond]
  · rw [if_neg hd, if_neg (mt Duration.Parts.eq_zero_iff.mpr hd), Duration.Parts.span_shorter,
      Duration.Parts.span_double]

/-- The span of a pause in two parts is that pause. -/
theorem span_pauseParts (initial longest : Duration.Parts) (attempts : Option ℕ) (k : ℕ) :
    (pauseParts initial longest k).span
      = (⟨initial.span, longest.span, attempts⟩ : Policy).delay k := by
  induction k with
  | zero => rfl
  | succ k ih =>
    rw [pauseParts, span_nextParts, ih]
    rfl

end Retry

/-! ### The pauses of a configuration -/

/-- Both kinds of operations are retried acceptably. -/
theorem Config.acceptable_retries (c : Config) :
    c.params.fetch.Acceptable ∧ c.params.storage.Acceptable := by
  have hvalid := c.valid
  unfold Params.fault? at hvalid
  simp only [passes_iff, Option.or_eq_none_iff, RetryParams.fault?_eq_none_iff] at hvalid
  obtain ⟨-, -, -, -, -, -, -, -, -, hretries⟩ := hvalid
  exact hretries

namespace Retry

/-- **Pauses double**, up to the longest one, and so they do in two parts.  A configuration always
has a first pause, which is not longer than the longest. -/
theorem doubles_in_parts :
    (∀ (initial longest : Duration.Parts) (attempts : Option ℕ),
      let p : Policy := ⟨initial.span, longest.span, attempts⟩
      p.Doubles ∧ ∀ k, (pauseParts initial longest k).span = (attemptAt p k).delay) ∧
    ∀ c : Config, ∀ p ∈ [c.fetchRetry, c.storageRetry], 0 < p.initial ∧ p.initial ≤ p.longest := by
  constructor
  · intro initial longest attempts p
    refine ⟨Policy.doubles_of_le longest.span_le, fun k => ?_⟩
    rw [delay_attemptAt]
    exact span_pauseParts initial longest attempts k
  · intro c
    obtain ⟨hfetch, hstorage⟩ := c.acceptable_retries
    simp only [List.forall_mem_cons, List.not_mem_nil, false_imp_iff, implies_true, and_true]
    exact ⟨⟨Nat.pos_of_ne_zero hfetch.initial_ne, hfetch.ordered⟩,
      Nat.pos_of_ne_zero hstorage.initial_ne, hstorage.ordered⟩

-- The fourth pause would be 800.
example : (List.range 5).map (⟨100, 500, none⟩ : Policy).delay = [100, 200, 400, 500, 500] := by
  decide

end Retry
end BlockIngest
