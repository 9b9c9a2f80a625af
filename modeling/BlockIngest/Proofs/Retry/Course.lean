import BlockIngest.Proofs.Commit.Discipline
import BlockIngest.Trial.Attempts

/-!
# The course of a retry

A retry makes its attempts one after the other, at distances that the policy sets, until
one of them decides it: it succeeds, it fails for good, or it is the last that the policy
permits.  A cancellation that is heeded ends it as well, before an attempt or in a pause,
which is then cut short; it is never noticed anywhere else.

What the attempts do may be any sequence.  A script says how it begins, and past its end
every attempt succeeds; so a retry that would never end is met in its beginnings.

The law is stated of what happens from any attempt on, so that it can be followed from the
last attempt to the first.

## Main definitions

* `Retry.Policy.elapsed` — when an attempt is made if no pause is cut short.
* `Trial.Cancellation.HasCome` — a retry has been cancelled by the time of an attempt.
* `Trial.Ends` — how a retry ends.
* `Trial.Orderly` — the law.

## Main results

* `Trial.Orderly.pause` — an attempt that is followed by others after a pause.
* `Trial.orderly_attemptsFrom` — the law holds from any attempt on.
* `Trial.orderly_attempts` — **every retry is orderly.**
-/

namespace BlockIngest

namespace Retry

/-- The pauses before attempt `k + 1` together. -/
def Policy.elapsed (p : Policy) : ℕ → ℕ
  | 0 => 0
  | k + 1 => p.elapsed k + p.delay k

variable {p : Policy} {k : ℕ}

@[simp] theorem judge_true (r : Retry) : r.judge true = .abort := rfl

/-- A failure that is worth another attempt is followed by one if one is permitted. -/
theorem judge_attemptAt : (attemptAt p k).judge false
    = if p.Permits (k + 2) then .pause (p.delay k) else .giveUp := by
  unfold judge
  rw [if_neg Bool.false_ne_true, delay_attemptAt]
  by_cases hmore : p.Permits (k + 2)
  · rw [if_pos hmore, if_neg (fun hlast => isLast_attemptAt.mp hlast hmore)]
  · rw [if_neg hmore, if_pos (isLast_attemptAt.mpr hmore)]

end Retry

namespace Trial

/-- What an attempt of a script does; past its end, it succeeds. -/
def outcomeAt (script : List Outcome) (k : ℕ) : Outcome := script.getD (k - 1) .succeeds

namespace Cancellation

variable (c : Cancellation)

/-- Whether a retry was cancelled before attempt `k`, other than by the clock. -/
def IsTold (k : ℕ) : Prop :=
  c.before ∨ ∃ j, 1 ≤ j ∧ j < k ∧ (c.inAttempt = some j ∨ c.inReport = some j)

/-- Whether a retry has been cancelled when attempt `k` would be made at time `now`.  The clock
moves in pauses only, so it does not cancel the first attempt. -/
def HasCome (k now : ℕ) : Prop := c.IsTold k ∨ 1 < k ∧ ∃ t, c.atTime = some t ∧ t ≤ now

end Cancellation

section Law

variable (c : Cancellation) (p : Retry.Policy) (o : ℕ → Outcome)

/-- Whether attempt `k` is to be followed by another one: it fails for a reason that is worth
one, and one more is permitted. -/
def GoesOn (k : ℕ) : Prop := (∃ f, o k = .fails f false) ∧ p.Permits (k + 1)

/-- What is reported about attempt `i + 1`: nothing, unless it fails for a reason that is worth
another attempt. -/
def reportOn (i : ℕ) : Option FailureReport :=
  match o (i + 1) with
  | .fails f false => some ⟨i + 1, p.delay i, f, decide (p.Permits (i + 2))⟩
  | _ => none

/-- How a retry ends after `n` attempts: what comes of it, and when. -/
inductive Ends : ℕ → Except Retry.Failed ℕ → ℕ → Prop
  /-- The last attempt succeeds. -/
  | succeeded {n : ℕ} (hlast : o (n + 1) = .succeeds) : Ends (n + 1) (.ok (n + 1)) (p.elapsed n)
  /-- The last attempt fails for a reason that is not worth another one. -/
  | aborted {n : ℕ} {f : Failure} (hlast : o (n + 1) = .fails f true) :
      Ends (n + 1) (.error (.aborted (n + 1) f)) (p.elapsed n)
  /-- The last attempt fails, and no other one is permitted. -/
  | exhausted {n m : ℕ} {f : Failure} (hlast : o (n + 1) = .fails f false)
      (hceiling : p.attempts = some m) (hspent : n + 1 = max 1 m) :
      Ends (n + 1) (.error (.exhausted (n + 1) f)) (p.elapsed n)
  /-- It is cancelled when another attempt, which may be the first one, is due. -/
  | refrained {n : ℕ} (hprevious : ∀ k, n = k + 1 → GoesOn p o n) (hheeded : c.heeded)
      (hcome : c.HasCome (n + 1) (p.elapsed n)) : Ends n (.error .cancelled) (p.elapsed n)
  /-- It is cancelled in the pause after the last attempt, which ends at that moment. -/
  | cut {n e : ℕ} (hlast : GoesOn p o (n + 1)) (hheeded : c.heeded) (hbegun : p.elapsed n ≤ e)
      (hshort : e < p.elapsed (n + 1)) (hcome : c.HasCome (n + 2) e)
      (hfirst : ∀ t, p.elapsed n ≤ t → t < e → ¬ c.HasCome (n + 2) t) :
      Ends (n + 1) (.error .cancelled) e

/-- **The law of a retry**, from attempt `k + 1` on. -/
structure Orderly (k : ℕ) (a : Attempts) : Prop where
  /-- The attempts are numbered without gaps, and each comes a whole pause after the one before. -/
  calls_eq : a.calls = (List.range' k a.calls.length).map fun i => (i + 1, p.elapsed i)
  /-- Each of them but the last one is to be followed by another one. -/
  goesOn : ∀ i ∈ List.range' k (a.calls.length - 1), GoesOn p o (i + 1)
  /-- None is made once a cancellation has come that is heeded. -/
  clear : ∀ i t, (i, t) ∈ a.calls → c.heeded → ¬ c.HasCome i t
  /-- Of those that fail for a reason that is worth another one, each is reported once. -/
  reports_eq : a.reports = (List.range' k a.calls.length).filterMap (reportOn p o)
  /-- The last one decides what comes of it, unless it is cancelled. -/
  ends : Ends c p o (k + a.calls.length) a.outcome a.ended

end Law

variable {c : Cancellation} {p : Retry.Policy} {o : ℕ → Outcome} {k : ℕ} {a : Attempts}

/-! ### When a cancellation is noticed -/

namespace Cancellation

variable {now later length e : ℕ} {cancelled : Bool}

theorem HasCome.mono (h : c.HasCome k now) (hle : now ≤ later) : c.HasCome k later := by
  rcases h with htold | ⟨hk, t, ht, htnow⟩
  · exact Or.inl htold
  · exact Or.inr ⟨hk, t, ht, htnow.trans hle⟩

/-- A pause is cut short at the first moment of it at which a cancellation has come. -/
theorem of_cutsShort (hcome : cancelled → c.HasCome (k + 2) now)
    (htold : c.IsTold (k + 2) → cancelled) (h : c.cutsShort cancelled now length = some e) :
    c.heeded ∧ now ≤ e ∧ e < now + length ∧ c.HasCome (k + 2) e ∧
      ∀ t, now ≤ t → t < e → ¬ c.HasCome (k + 2) t := by
  unfold cutsShort at h
  split at h
  · cases h
  · next hpause =>
    obtain ⟨hlength, hheeded⟩ := not_or.mp hpause
    have hheeded : c.heeded := by simpa using hheeded
    split at h
    · next hcancelled =>
      cases h
      refine ⟨hheeded, le_rfl, by omega, hcome hcancelled, fun t hle hlt => ?_⟩
      omega
    · next hcancelled =>
      split at h
      · next time htime =>
        split at h
        · next hbefore =>
          cases h
          refine ⟨hheeded, le_max_left _ _, by omega,
            Or.inr ⟨by omega, time, htime, le_max_right _ _⟩, ?_⟩
          -- nobody but the clock has cancelled it, and the clock not yet
          rintro t hle hlt (hearly | ⟨-, u, hu, hut⟩)
          · exact hcancelled (htold hearly)
          · rw [htime, Option.some.injEq] at hu
            omega
        · cases h
      · cases h

theorem cancelledAfter_iff (length : ℕ) (hcome : cancelled → c.HasCome (k + 2) now)
    (htold : c.IsTold (k + 2) → cancelled) :
    c.cancelledAfter cancelled now length ↔ c.HasCome (k + 2) (now + length) := by
  unfold cancelledAfter
  rw [Bool.or_eq_true, Option.any_eq_true]
  constructor
  · rintro (hcancelled | ⟨t, ht, hle⟩)
    · exact (hcome hcancelled).mono (Nat.le_add_right _ _)
    · exact Or.inr ⟨by omega, t, ht, of_decide_eq_true hle⟩
  · rintro (hearly | ⟨-, t, ht, hle⟩)
    · exact Or.inl (htold hearly)
    · exact Or.inr ⟨t, ht, decide_eq_true hle⟩

/-- What is known of a cancellation once attempt `k + 1` has been reported. -/
def known (c : Cancellation) (cancelled : Bool) (k : ℕ) : Bool :=
  cancelled || c.inAttempt = some (k + 1) || c.inReport = some (k + 1)

theorem hasCome_of_known (hcancelled : cancelled → c.HasCome (k + 1) now)
    (h : c.known cancelled k) : c.HasCome (k + 2) now := by
  simp only [known, Bool.or_eq_true, decide_eq_true_eq, or_assoc] at h
  rcases h with hearly | hnow
  · rcases hcancelled hearly with (hbefore | ⟨j, hlow, hhigh, hj⟩) | ⟨hk, t, ht, hle⟩
    · exact Or.inl (Or.inl hbefore)
    · exact Or.inl (Or.inr ⟨j, hlow, by omega, hj⟩)
    · exact Or.inr ⟨by omega, t, ht, hle⟩
  · exact Or.inl (Or.inr ⟨k + 1, by omega, by omega, hnow⟩)

theorem known_of_isTold (hcancelled : c.HasCome (k + 1) now → cancelled)
    (h : c.IsTold (k + 2)) : c.known cancelled k := by
  simp only [known, Bool.or_eq_true, decide_eq_true_eq, or_assoc]
  rcases h with hbefore | ⟨j, hlow, hhigh, hj⟩
  · exact Or.inl (hcancelled (Or.inl (Or.inl hbefore)))
  · rcases Nat.lt_succ_iff_lt_or_eq.mp hhigh with hlt | rfl
    · exact Or.inl (hcancelled (Or.inl (Or.inr ⟨j, hlow, hlt, hj⟩)))
    · exact Or.inr hj

end Cancellation

/-! ### Attempts one by one -/

/-- No attempt is made any more. -/
theorem orderly_stop (hprevious : ∀ j, k = j + 1 → GoesOn p o k) (hheeded : c.heeded)
    (hcome : c.HasCome (k + 1) (p.elapsed k)) :
    Orderly c p o k (.stop (.error .cancelled) (p.elapsed k)) where
  calls_eq := rfl
  goesOn := by simp [Attempts.stop]
  clear := by simp [Attempts.stop]
  reports_eq := rfl
  ends := .refrained hprevious hheeded hcome

/-- An attempt after which there is no other one. -/
theorem orderly_last (hclear : c.heeded → ¬ c.HasCome (k + 1) (p.elapsed k))
    (hcalls : a.calls = [(k + 1, p.elapsed k)]) (hreports : a.reports = (reportOn p o k).toList)
    (hends : Ends c p o (k + 1) a.outcome a.ended) : Orderly c p o k a where
  calls_eq := by simp [hcalls]
  goesOn := by simp [hcalls]
  clear := by
    intro i t hit hheeded
    rw [hcalls, List.mem_singleton] at hit
    obtain ⟨rfl, rfl⟩ := Prod.mk.inj hit
    exact hclear hheeded
  reports_eq := by
    rw [hreports, hcalls]
    cases hreport : reportOn p o k <;> simp [hreport]
  ends := by simpa [hcalls] using hends

/-- An attempt that is followed by others after a whole pause. -/
theorem Orderly.pause {r : FailureReport} (h : Orderly c p o (k + 1) a)
    (hclear : c.heeded → ¬ c.HasCome (k + 1) (p.elapsed k)) (hreport : reportOn p o k = some r)
    (hgoesOn : GoesOn p o (k + 1)) :
    Orderly c p o k ((a.withReport r).withCall (k + 1) (p.elapsed k)) where
  calls_eq := by
    show (k + 1, p.elapsed k) :: a.calls
      = (List.range' k (a.calls.length + 1)).map fun i => (i + 1, p.elapsed i)
    rw [List.range'_succ, List.map_cons, ← h.calls_eq]
  goesOn := by
    intro i hi
    have hi : i ∈ List.range' k a.calls.length := hi
    rcases hlength : a.calls.length with _ | n
    · rw [hlength] at hi
      cases hi
    · rw [hlength, List.range'_succ, List.mem_cons] at hi
      rcases hi with rfl | hi
      · exact hgoesOn
      · exact h.goesOn i (by rwa [hlength])
  clear := by
    intro i t hit hheeded
    rcases List.mem_cons.mp hit with heq | hit
    · obtain ⟨rfl, rfl⟩ := Prod.mk.inj heq
      exact hclear hheeded
    · exact h.clear i t hit hheeded
  reports_eq := by
    show r :: a.reports = _
    rw [h.reports_eq]
    exact (List.filterMap_cons_some hreport).symm
  ends := by
    have hends := h.ends
    rwa [Nat.add_right_comm] at hends

/-! ### A whole retry -/

theorem orderly_cancelled {script : List Outcome} {cancelled : Bool}
    (hstop : c.heeded && cancelled) (hcancelled : cancelled ↔ c.HasCome (k + 1) (p.elapsed k))
    (hprevious : ∀ j, k = j + 1 → GoesOn p o k) :
    Orderly c p o k (attemptsFrom c script (.attemptAt p k) (p.elapsed k) cancelled) := by
  obtain ⟨hheeded, hcancel⟩ := Bool.and_eq_true_iff.mp hstop
  have heq : attemptsFrom c script (.attemptAt p k) (p.elapsed k) cancelled
      = .stop (.error .cancelled) (p.elapsed k) := by
    unfold attemptsFrom
    exact if_pos hstop
  rw [heq]
  exact orderly_stop hprevious hheeded (hcancelled.mp hcancel)

/-- An attempt is made only if no cancellation is known that is heeded. -/
theorem clear_of_not {cancelled : Bool} (hgo : ¬ (c.heeded && cancelled))
    (hcancelled : cancelled ↔ c.HasCome (k + 1) (p.elapsed k)) :
    c.heeded → ¬ c.HasCome (k + 1) (p.elapsed k) := by
  intro hheeded hcome
  exact hgo (Bool.and_eq_true_iff.mpr ⟨hheeded, hcancelled.mpr hcome⟩)

theorem orderly_succeeds {script : List Outcome} {cancelled : Bool}
    (hgo : ¬ (c.heeded && cancelled)) (hclear : c.heeded → ¬ c.HasCome (k + 1) (p.elapsed k))
    (ho : o (k + 1) = .succeeds) (hscript : script.getD 0 .succeeds = .succeeds) :
    Orderly c p o k (attemptsFrom c script (.attemptAt p k) (p.elapsed k) cancelled) := by
  have heq : attemptsFrom c script (.attemptAt p k) (p.elapsed k) cancelled
      = (Attempts.stop (.ok (k + 1)) (p.elapsed k)).withCall (k + 1) (p.elapsed k) := by
    cases script with
    | nil =>
      rw [attemptsFrom, if_neg hgo, Retry.attempt_attemptAt]
    | cons outcome rest =>
      obtain rfl : outcome = .succeeds := hscript
      rw [attemptsFrom, if_neg hgo, Retry.attempt_attemptAt]
  rw [heq]
  refine orderly_last hclear rfl ?_ (.succeeded ho)
  simp [reportOn, ho, Attempts.stop, Attempts.withCall]

theorem reportOn_of_fails {f : Failure} (willRetry : Bool) (ho : o (k + 1) = .fails f false)
    (hwill : willRetry ↔ p.Permits (k + 2)) :
    reportOn p o k = some ⟨k + 1, p.delay k, f, willRetry⟩ := by
  have hdecide : decide (p.Permits (k + 2)) = willRetry := by
    rw [Bool.eq_iff_iff, decide_eq_true_iff, hwill]
  rw [reportOn, ho, hdecide]

/-- An attempt fails: it is the last one, or what follows its pause decides. -/
theorem orderly_fails {rest : List Outcome} {cancelled final : Bool} {f : Failure}
    (hgo : ¬ (c.heeded && cancelled)) (hcancelled : cancelled ↔ c.HasCome (k + 1) (p.elapsed k))
    (hpermits : p.Permits (k + 1)) (ho : o (k + 1) = .fails f final)
    (hlater : GoesOn p o (k + 1) → ∀ told : Bool,
      (told ↔ c.HasCome (k + 2) (p.elapsed (k + 1))) →
      Orderly c p o (k + 1)
        (attemptsFrom c rest (.attemptAt p (k + 1)) (p.elapsed (k + 1)) told)) :
    Orderly c p o k
      (attemptsFrom c (.fails f final :: rest) (.attemptAt p k) (p.elapsed k) cancelled) := by
  have hclear := clear_of_not hgo hcancelled
  rw [attemptsFrom, if_neg hgo]
  cases final with
  | true =>
    simp only [Retry.attempt_attemptAt, Retry.judge_true]
    refine orderly_last hclear rfl ?_ (.aborted ho)
    simp [reportOn, ho, Attempts.stop, Attempts.withCall]
  | false =>
    simp only [Retry.attempt_attemptAt, Retry.delay_attemptAt, Retry.judge_attemptAt]
    by_cases hmore : p.Permits (k + 2)
    · simp only [if_pos hmore]
      have hreport := reportOn_of_fails true ho (by simpa using hmore)
      have hgoesOn : GoesOn p o (k + 1) := ⟨⟨f, ho⟩, hmore⟩
      have hcome := Cancellation.hasCome_of_known hcancelled.mp
      have htold := Cancellation.known_of_isTold hcancelled.mpr
      split
      · next e hcut =>
        -- the pause is cut short, and no attempt follows
        obtain ⟨hheeded, hbegun, hshort, hat, hfirst⟩ := Cancellation.of_cutsShort hcome htold hcut
        refine orderly_last hclear rfl ?_ (.cut hgoesOn hheeded hbegun hshort hat hfirst)
        rw [hreport]
        rfl
      · have hknown := Cancellation.cancelledAfter_iff (p.delay k) hcome htold
        exact (hlater hgoesOn _ hknown).pause hclear hreport hgoesOn
    · simp only [if_neg hmore]
      have hreport := reportOn_of_fails false ho (by simpa using hmore)
      obtain ⟨m, hm, hspent⟩ := hpermits.exists_eq_max hmore
      refine orderly_last hclear rfl ?_ (.exhausted ho hm hspent)
      rw [hreport]
      rfl

/-- **The law holds from any attempt on**, if what is known of the cancellation is true. -/
theorem orderly_attemptsFrom {script : List Outcome} {cancelled : Bool}
    (ho : ∀ i, o (k + 1 + i) = script.getD i .succeeds)
    (hcancelled : cancelled ↔ c.HasCome (k + 1) (p.elapsed k)) (hpermits : p.Permits (k + 1))
    (hprevious : ∀ j, k = j + 1 → GoesOn p o k) :
    Orderly c p o k (attemptsFrom c script (.attemptAt p k) (p.elapsed k) cancelled) := by
  induction script generalizing k cancelled with
  | nil =>
    by_cases hgo : c.heeded && cancelled
    · exact orderly_cancelled hgo hcancelled hprevious
    · exact orderly_succeeds hgo (clear_of_not hgo hcancelled) (ho 0) rfl
  | cons outcome rest ih =>
    by_cases hgo : c.heeded && cancelled
    · exact orderly_cancelled hgo hcancelled hprevious
    · cases outcome with
      | succeeds => exact orderly_succeeds hgo (clear_of_not hgo hcancelled) (ho 0) rfl
      | fails f final =>
        refine orderly_fails hgo hcancelled hpermits (ho 0) fun hgoesOn told htold => ?_
        refine ih (fun i => ?_) htold hgoesOn.2 fun _ _ => hgoesOn
        have hnext := ho (i + 1)
        rwa [← Nat.add_assoc, Nat.add_right_comm] at hnext

/-- **Every retry is orderly.** -/
theorem orderly_attempts (c : Cancellation) (p : Retry.Policy) (script : List Outcome) :
    Orderly c p (outcomeAt script) 0 (attempts c p script) := by
  refine orderly_attemptsFrom (fun i => ?_) ?_ p.permits_one fun j hj => ?_
  · unfold outcomeAt
    congr 1
    omega
  · -- before the first attempt, only what came before the retry counts
    constructor
    · exact fun hbefore => Or.inl (Or.inl hbefore)
    · rintro ((hbefore | ⟨j, hlow, hhigh, -⟩) | ⟨hone, -⟩)
      · exact hbefore
      · omega
      · omega
  · cases hj

/-- A cancellation in the second pause: the third attempt is never made, though its outcome is
scripted. -/
theorem orderly_attempts_cut :
    let c : Cancellation := { heeded := true, atTime := some 250 }
    let p : Retry.Policy := ⟨100, 500, some 5⟩
    let script := List.replicate 10 (Outcome.fails (.ofText "busy") false)
    Orderly c p (outcomeAt script) 0 (attempts c p script) ∧
      attempts c p script = ⟨[(1, 0), (2, 100)],
        [⟨1, 100, .ofText "busy", true⟩, ⟨2, 200, .ofText "busy", true⟩],
        .error .cancelled, 250⟩ :=
  ⟨orderly_attempts _ _ _, by rfl⟩

end Trial
end BlockIngest
