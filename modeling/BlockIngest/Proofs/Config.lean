import BlockIngest.Node.Options
import BlockIngest.Pipeline.Fetcher
import BlockIngest.Proofs.Text.Blank

/-!
# What passes the checks is safe to use

The checks of a configuration stand in one place, and what they are for stands in many: the planner
and the buffer refuse a size of nothing, the connection refuses limits of nothing, the pool of
workers raises a number that is too small, and a retry with no attempt or no pause would not be one.
So each of these has to follow from the checks, whether all values are given or some are left to
their defaults.

The checks report the first fault only.  That they find none says the same as that every value is
acceptable, and in that form they are used.

## Main definitions

* `Config.Params.Acceptable`, `Config.Settings.Acceptable` — values that pass all checks, all of
  them given or only some.
* `Config.Built` — a configuration that was made in one of the two ways.
* `Retry.Policy.Proper` — a policy with attempts and pauses.
* `Config.Safe` — what those who use a configuration ask of it.

## Main results

* `Config.exists_make_iff`, `Config.exists_build_iff` — which values are accepted.
* `Config.safe_of_built` — whoever uses a configuration finds it safe.
* `Config.checked_and_safe` — **just the acceptable values make a configuration, and it is safe.**
-/

namespace BlockIngest
namespace Config

/-! ### Acceptable values -/

/-- An operation is tried, and the pauses between its attempts can grow to the longest one. -/
structure RetryParams.Acceptable (p : RetryParams) : Prop where
  /-- There is an attempt. -/
  attempts_ne : p.maxAttempts ≠ 0
  /-- The first pause is one. -/
  initial_ne : p.initialBackoff ≠ 0
  /-- So is the longest one. -/
  longest_ne : p.maxBackoff ≠ 0
  /-- The first pause is not longer than the longest one. -/
  ordered : p.initialBackoff ≤ p.maxBackoff

/-- What stands between the blanks begins as a web address does. -/
def NamesWeb (remote : String) : Prop :=
  ∃ core, Text.Bare core ∧ Text.Between core remote.toList ∧
    ("http://".toList <+: core ∨ "https://".toList <+: core)

/-- All values are acceptable. -/
structure Params.Acceptable (p : Params) : Prop where
  /-- The node has a web address. -/
  web : NamesWeb p.remote
  /-- The path is not empty, and blanks are not a path. -/
  path : ¬ Text.Blank p.dbPath.toList
  /-- There is a worker. -/
  maxSlots_ne : p.maxSlots ≠ 0
  /-- A chunk can hold a height. -/
  maxChunkSize_ne : p.maxChunkSize ≠ 0
  /-- A chunk can wait for the store. -/
  maxBufferedChunks_ne : p.maxBufferedChunks ≠ 0
  /-- The node has time to answer. -/
  rpcTimeout_ne : p.rpcTimeout ≠ 0
  /-- An idle worker does wait. -/
  idleBackoff_ne : p.idleBackoff ≠ 0
  /-- Time passes between two questions for the head. -/
  headRefreshInterval_ne : p.headRefreshInterval ≠ 0
  /-- Time passes between two reports. -/
  metricsInterval_ne : p.metricsInterval ≠ 0
  /-- Fetching is retried acceptably. -/
  fetch : p.fetch.Acceptable
  /-- Storing is retried acceptably. -/
  storage : p.storage.Acceptable

/-- What is set is acceptable; of what is not set, the address alone is missed. -/
structure Settings.Acceptable (s : Settings) : Prop where
  /-- The node has a web address. -/
  web : ∃ remote ∈ s.remote, NamesWeb remote
  /-- The path is not empty, and blanks are not a path. -/
  path : ∀ path ∈ s.dbPath, ¬ Text.Blank path.toList
  /-- There is a worker. -/
  maxSlots_ne : ∀ slots ∈ s.maxSlots, slots ≠ 0
  /-- A chunk can hold a height. -/
  maxChunkSize_ne : ∀ size ∈ s.maxChunkSize, size ≠ 0
  /-- A chunk can wait for the store. -/
  maxBufferedChunks_ne : ∀ chunks ∈ s.maxBufferedChunks, chunks ≠ 0
  /-- The node has time to answer. -/
  rpcTimeout_ne : ∀ timeout ∈ s.rpcTimeout, timeout ≠ 0
  /-- An idle worker does wait. -/
  idleBackoff_ne : ∀ backoff ∈ s.idleBackoff, backoff ≠ 0
  /-- Time passes between two questions for the head. -/
  headRefreshInterval_ne : ∀ interval ∈ s.headRefreshInterval, interval ≠ 0
  /-- Time passes between two reports. -/
  metricsInterval_ne : ∀ interval ∈ s.metricsInterval, interval ≠ 0
  /-- There is an attempt to fetch. -/
  fetchAttempts_ne : ∀ attempts ∈ s.fetchMaxAttempts, attempts ≠ 0
  /-- The first pause of fetching is one, and not longer than the longest. -/
  fetchBackoff : ∀ pauses ∈ s.fetchBackoff, pauses.1 ≠ 0 ∧ pauses.1 ≤ pauses.2
  /-- There is an attempt to store. -/
  storageAttempts_ne : ∀ attempts ∈ s.storageMaxAttempts, attempts ≠ 0
  /-- The first pause of storing is one, and not longer than the longest. -/
  storageBackoff : ∀ pauses ∈ s.storageBackoff, pauses.1 ≠ 0 ∧ pauses.1 ≤ pauses.2

/-! ### The checks -/

/-- A check is passed if it finds no fault and those behind it are passed. -/
theorem passes_iff {bad : Prop} [Decidable bad] {fault : Fault} {rest : Option Fault} :
    (if bad then some fault else rest) = none ↔ ¬ bad ∧ rest = none := by
  split
  · next h => simp [h]
  · next h => simp [h]

theorem RetryParams.fault?_eq_none_iff {operation : String} {p : RetryParams} :
    p.fault? operation = none ↔ p.Acceptable := by
  unfold RetryParams.fault?
  simp only [passes_iff, Nat.not_lt, and_true]
  exact ⟨fun ⟨h₁, h₂, h₃, h₄⟩ => ⟨h₁, h₂, h₃, h₄⟩, fun ⟨h₁, h₂, h₃, h₄⟩ => ⟨h₁, h₂, h₃, h₄⟩⟩

theorem isWebAddress_trim_iff {remote : String} :
    isWebAddress (Text.trim remote) = true ↔ NamesWeb remote := by
  unfold isWebAddress
  rw [Text.toList_trim, Bool.or_eq_true, List.isPrefixOf_iff_prefix, List.isPrefixOf_iff_prefix]
  constructor
  · intro h
    obtain ⟨hbare, hbetween⟩ := Text.trimList_eq_iff.mp rfl
    exact ⟨_, hbare, hbetween, h⟩
  · rintro ⟨core, hbare, hbetween, h⟩
    rwa [Text.trimList_of_between hbare hbetween]

theorem isEmpty_trim_iff {path : String} :
    (Text.trim path).isEmpty = true ↔ Text.Blank path.toList := by
  rw [String.isEmpty_iff, ← String.toList_eq_nil_iff, Text.toList_trim, Text.trimList_eq_nil_iff]

/-- The checks find nothing just if all values are acceptable. -/
theorem Params.fault?_trimmed_eq_none_iff {p : Params} :
    p.trimmed.fault? = none ↔ p.Acceptable := by
  unfold Params.fault? Params.trimmed
  simp only [passes_iff, Option.or_eq_none_iff, RetryParams.fault?_eq_none_iff]
  rw [Bool.not_eq_true', Bool.not_eq_false, isWebAddress_trim_iff, isEmpty_trim_iff]
  constructor
  · rintro ⟨h₁, h₂, h₃, h₄, h₅, h₆, h₇, h₈, h₉, h₁₀, h₁₁⟩
    exact ⟨h₁, h₂, h₃, h₄, h₅, h₆, h₇, h₈, h₉, h₁₀, h₁₁⟩
  · rintro ⟨h₁, h₂, h₃, h₄, h₅, h₆, h₇, h₈, h₉, h₁₀, h₁₁⟩
    exact ⟨h₁, h₂, h₃, h₄, h₅, h₆, h₇, h₈, h₉, h₁₀, h₁₁⟩

@[simp] theorem Params.trimmed_trimmed (p : Params) : p.trimmed.trimmed = p.trimmed := by
  simp [Params.trimmed]

/-! ### Which values are accepted -/

/-- A configuration has the values it was made of, trimmed, and they were acceptable. -/
theorem make_eq_ok_iff {p : Params} {c : Config} :
    make p = .ok c ↔ p.Acceptable ∧ c.params = p.trimmed := by
  rw [← Params.fault?_trimmed_eq_none_iff]
  unfold make
  split
  · next fault h => simp [h]
  · next h =>
    rw [Except.ok.injEq]
    constructor
    · rintro rfl
      exact ⟨h, rfl⟩
    · rintro ⟨-, hparams⟩
      cases c
      cases hparams
      rfl

/-- All values given: they are accepted just if all of them are acceptable. -/
theorem exists_make_iff {p : Params} : (∃ c, make p = .ok c) ↔ p.Acceptable := by
  constructor
  · rintro ⟨c, h⟩
    exact (make_eq_ok_iff.mp h).1
  · intro h
    have hnone := Params.fault?_trimmed_eq_none_iff.mpr h
    exact ⟨⟨p.trimmed, hnone⟩, make_eq_ok_iff.mpr ⟨h, rfl⟩⟩

section Defaults

variable {α : Type} {P : α → Prop} {o : Option α} {d : α}

/-- A value has a property that its default has, unless it is set to one that has not. -/
theorem getD_of_forall (hd : P d) (h : ∀ a ∈ o, P a) : P (o.getD d) := by
  cases o with
  | none => exact hd
  | some a => exact h a rfl

theorem forall_of_getD (h : P (o.getD d)) : ∀ a ∈ o, P a := by
  rintro a rfl
  exact h

/-- Attempts and pauses are acceptable if those that are set are, and their defaults. -/
theorem RetryParams.acceptable_getD {attempts : Option ℕ} {pauses : Option (ℕ × ℕ)} {n : ℕ}
    {b : ℕ × ℕ} (hn : n ≠ 0) (hb : b.1 ≠ 0 ∧ b.1 ≤ b.2) (hattempts : ∀ n ∈ attempts, n ≠ 0)
    (hpauses : ∀ b ∈ pauses, b.1 ≠ 0 ∧ b.1 ≤ b.2) :
    RetryParams.Acceptable ⟨attempts.getD n, (pauses.getD b).1, (pauses.getD b).2⟩ := by
  have hboth : (pauses.getD b).1 ≠ 0 ∧ (pauses.getD b).1 ≤ (pauses.getD b).2 :=
    getD_of_forall (P := fun b : ℕ × ℕ => b.1 ≠ 0 ∧ b.1 ≤ b.2) hb hpauses
  obtain ⟨hinitial, hordered⟩ := hboth
  have hlongest : (pauses.getD b).2 ≠ 0 := by omega
  exact ⟨getD_of_forall (P := (· ≠ 0)) hn hattempts, hinitial, hlongest, hordered⟩

end Defaults

/-- The defaults are acceptable, also the one that follows another value. -/
theorem Settings.acceptable_params_iff {s : Settings} {remote : String}
    (hremote : s.remote = some remote) : (s.params remote).Acceptable ↔ s.Acceptable := by
  constructor
  · intro h
    exact {
      web := ⟨remote, hremote, h.web⟩
      path := forall_of_getD h.path
      maxSlots_ne := forall_of_getD h.maxSlots_ne
      maxChunkSize_ne := forall_of_getD h.maxChunkSize_ne
      maxBufferedChunks_ne := forall_of_getD h.maxBufferedChunks_ne
      rpcTimeout_ne := forall_of_getD h.rpcTimeout_ne
      idleBackoff_ne := forall_of_getD h.idleBackoff_ne
      headRefreshInterval_ne := forall_of_getD h.headRefreshInterval_ne
      metricsInterval_ne := forall_of_getD h.metricsInterval_ne
      fetchAttempts_ne := forall_of_getD h.fetch.attempts_ne
      fetchBackoff := forall_of_getD ⟨h.fetch.initial_ne, h.fetch.ordered⟩
      storageAttempts_ne := forall_of_getD h.storage.attempts_ne
      storageBackoff := forall_of_getD ⟨h.storage.initial_ne, h.storage.ordered⟩ }
  · intro h
    have hweb : NamesWeb remote := by
      obtain ⟨given, hgiven, hweb⟩ := h.web
      rw [hremote] at hgiven
      cases hgiven
      exact hweb
    have hslots : s.maxSlots.getD defaultSlots ≠ 0 := getD_of_forall (by decide) h.maxSlots_ne
    have htop : Height.top ≠ 0 := by decide
    have hpath : ¬ Text.Blank "indexer-db".toList := fun h => absurd (h 'i' (.head _)) (by decide)
    exact {
      web := hweb
      path := getD_of_forall (P := fun path : String => ¬ Text.Blank path.toList) hpath h.path
      maxSlots_ne := hslots
      maxChunkSize_ne := getD_of_forall (by decide) h.maxChunkSize_ne
      maxBufferedChunks_ne := getD_of_forall (by omega) h.maxBufferedChunks_ne
      rpcTimeout_ne := getD_of_forall (by decide) h.rpcTimeout_ne
      idleBackoff_ne := getD_of_forall (by decide) h.idleBackoff_ne
      headRefreshInterval_ne := getD_of_forall (by decide) h.headRefreshInterval_ne
      metricsInterval_ne := getD_of_forall (by decide) h.metricsInterval_ne
      fetch := RetryParams.acceptable_getD (by decide) (by decide) h.fetchAttempts_ne
        h.fetchBackoff
      storage := RetryParams.acceptable_getD (by decide) (by decide) h.storageAttempts_ne
        h.storageBackoff }

/-- Some values given: they are accepted just if those that are set are acceptable and an address
is among them. -/
theorem exists_build_iff {s : Settings} : (∃ c, build s = .ok c) ↔ s.Acceptable := by
  unfold build
  cases hremote : s.remote with
  | none =>
    constructor
    · rintro ⟨c, h⟩
      cases h
    · intro h
      obtain ⟨remote, hgiven, -⟩ := h.web
      rw [hremote] at hgiven
      cases hgiven
  | some remote =>
    rw [← Settings.acceptable_params_iff hremote]
    exact exists_make_iff

-- An address is all that has to be set.
example : ∃ c, build { remote := some " http://localhost:26657 " } = .ok c := ⟨_, rfl⟩

/-! ### What a configuration is used for -/

end Config

/-- An operation is tried at least once, and after a failure there is a pause, which is never longer
than the longest one. -/
structure Retry.Policy.Proper (p : Retry.Policy) : Prop where
  /-- There is an attempt. -/
  attempts : ∃ n, p.attempts = some n ∧ 0 < n
  /-- The first pause is one. -/
  initial_pos : 0 < p.initial
  /-- The first pause is not longer than the longest one. -/
  ordered : p.initial ≤ p.longest
  /-- So it is with every pause. -/
  delay : ∀ k, 0 < p.delay k ∧ p.delay k ≤ p.longest

namespace Config

/-- The settings in which every value is set. -/
def Settings.all (p : Params) : Settings where
  remote := some p.remote
  dbPath := some p.dbPath
  maxSlots := some p.maxSlots
  maxChunkSize := some p.maxChunkSize
  maxBufferedChunks := some p.maxBufferedChunks
  rpcTimeout := some p.rpcTimeout
  idleBackoff := some p.idleBackoff
  headRefreshInterval := some p.headRefreshInterval
  metricsInterval := some p.metricsInterval
  fetchMaxAttempts := some p.fetch.maxAttempts
  fetchBackoff := some (p.fetch.initialBackoff, p.fetch.maxBackoff)
  storageMaxAttempts := some p.storage.maxAttempts
  storageBackoff := some (p.storage.initialBackoff, p.storage.maxBackoff)

/-- What those who use a configuration ask of it. -/
structure Safe (c : Config) : Prop where
  /-- All its values are acceptable. -/
  acceptable : c.params.Acceptable
  /-- It passes the checks again, which look at the address and the path without blanks. -/
  validates : c.params.trimmed.fault? = none
  /-- Made of its own values, it is what it was. -/
  remade : make c.params = .ok c
  /-- So it is if they are set one by one. -/
  rebuilt : build (.all c.params) = .ok c
  /-- A planner can be made, from wherever it starts. -/
  planner : ∀ low, ∃ p, Planner.make low c.params.maxChunkSize = .ok p
  /-- A buffer can be made, whatever is due first. -/
  buffer : ∀ due, ∃ b, Buffer.make due c.params.maxBufferedChunks = .ok b
  /-- The limits of the connection are accepted. -/
  client : (NodeOptions.forSlots c.params.maxSlots c.params.rpcTimeout).fault? = none
  /-- A run has just as many workers as there are slots. -/
  pool : ∀ settings shared due,
    (World.launch settings shared due c.params.maxSlots).workers
      = List.replicate c.params.maxSlots .ready
  /-- Fetching is retried properly. -/
  fetch : c.fetchRetry.Proper
  /-- Storing is retried properly. -/
  storage : c.storageRetry.Proper

/-- A configuration that was made: of all values, or of some. -/
inductive Built (c : Config) : Prop
  /-- All values were given. -/
  | made (p : Params) (h : make p = .ok c)
  /-- Some values were set. -/
  | built (s : Settings) (h : build s = .ok c)

theorem Built.exists_make {c : Config} (h : c.Built) : ∃ p, make p = .ok c := by
  cases h with
  | made p h => exact ⟨p, h⟩
  | built s h =>
    unfold build at h
    split at h
    · cases h
    · exact ⟨_, h⟩

/-- Every pause is one, and none is longer than the longest. -/
theorem delay_policy {p : RetryParams} (h : p.Acceptable) (k : ℕ) :
    0 < p.policy.delay k ∧ p.policy.delay k ≤ p.policy.longest := by
  have hinitial : 0 < p.initialBackoff := Nat.pos_of_ne_zero h.initial_ne
  have hlongest : 0 < p.maxBackoff := Nat.pos_of_ne_zero h.longest_ne
  induction k with
  | zero => exact ⟨hinitial, h.ordered⟩
  | succ k ih =>
    have hdouble : 0 < Duration.double (p.policy.delay k) := by
      have hbound : 0 < Duration.longest := by decide
      unfold Duration.double
      omega
    have hnext : p.policy.delay (k + 1)
        = min (Duration.double (p.policy.delay k)) p.maxBackoff :=
      if_neg ih.1.ne'
    rw [hnext]
    exact ⟨lt_min hdouble hlongest, min_le_right _ _⟩

theorem proper_policy {p : RetryParams} (h : p.Acceptable) : p.policy.Proper where
  attempts := ⟨_, rfl, Nat.pos_of_ne_zero h.attempts_ne⟩
  initial_pos := Nat.pos_of_ne_zero h.initial_ne
  ordered := h.ordered
  delay := delay_policy h

/-- The limits for any number of workers are accepted if the node has time to answer. -/
theorem fault?_forSlots {slots timeout : ℕ} (h : timeout ≠ 0) :
    (NodeOptions.forSlots slots timeout).fault? = none := by
  have htimeout : (NodeOptions.forSlots slots timeout).requestTimeout ≠ 0 := h
  have hcalls : (NodeOptions.forSlots slots timeout).maxConcurrentRequests ≠ 0 := by
    show max (min (2 * slots) Height.top) 32 ≠ 0
    omega
  unfold NodeOptions.fault?
  rw [if_neg htimeout, if_neg hcalls]
  rfl

/-- **Whoever uses a configuration finds it safe.** -/
theorem safe_of_built {c : Config} (h : c.Built) : c.Safe := by
  obtain ⟨p, hmake⟩ := h.exists_make
  obtain ⟨hp, hparams⟩ := make_eq_ok_iff.mp hmake
  have htrimmed : c.params.trimmed = c.params := by rw [hparams, Params.trimmed_trimmed]
  have hvalid : c.params.trimmed.fault? = none := by
    rw [htrimmed]
    exact c.valid
  have hacceptable := Params.fault?_trimmed_eq_none_iff.mp hvalid
  have hremade : make c.params = .ok c := make_eq_ok_iff.mpr ⟨hacceptable, htrimmed.symm⟩
  exact {
    acceptable := hacceptable
    validates := hvalid
    remade := hremade
    rebuilt := hremade
    planner := fun low => ⟨_, dif_pos c.maxChunkSize_pos⟩
    buffer := fun due => ⟨_, dif_pos c.maxBufferedChunks_pos⟩
    client := fault?_forSlots hacceptable.rpcTimeout_ne
    pool := fun _ _ _ => congrArg (List.replicate · _) (max_eq_left c.maxSlots_pos)
    fetch := proper_policy hacceptable.fetch
    storage := proper_policy hacceptable.storage }

/-- **Just the acceptable values make a configuration, and it is safe.** -/
theorem checked_and_safe :
    (∀ p : Params, (∃ c, make p = .ok c) ↔ p.Acceptable) ∧
      (∀ s : Settings, (∃ c, build s = .ok c) ↔ s.Acceptable) ∧
      ∀ c : Config, c.Built → c.Safe :=
  ⟨fun _ => exists_make_iff, fun _ => exists_build_iff, fun _ => safe_of_built⟩

end Config
end BlockIngest
