import BlockIngest.Proofs.Counter
import BlockIngest.Proofs.Node.Block
import Mathlib.Data.List.Infix
import Mathlib.Data.List.Perm.Basic

/-!
# Calls to the node, as the caller sees them and as they are counted

Each call is judged twice: the caller gets a value or a failure, and the counters of the
connection are told how the call has ended.  This module shows that both judge alike.  So
what the counters say after any calls can be read off what the callers got; and as a
counter is told about one call after the other, and forgets in which order, their order
does not matter.

An answer that has the wrong shape is a failure for the caller, but not one of the
connection, so that it is not counted as one.

## Main definitions

* `Call`, `Reply`, `NodeClient.perform` — a call, and what its caller gets.
* `NodeClient.performAll` — calls, one after the other.
* `Reply.outcome` — how a call has ended, by what its caller got.
* `Call.Classified`, `NodeMetrics.Accounts` — the law of a call, and that of the counters.

## Main results

* `isAboveHead_iff` — the words for a height above the head.
* `Call.outcome_perform` — **both judge alike.**
* `NodeMetrics.counter_tell` — what a counter says after calls.
* `NodeClient.accounts_of_calls` — **what callers get, and what is counted**, for any calls.
-/

namespace BlockIngest

/-! ### Words for a height above the head -/

theorem containsList_iff {needle cs : List Char} : containsList needle cs ↔ needle <:+: cs := by
  induction cs with
  | nil => simp [containsList]
  | cons c cs ih =>
    rw [containsList, Bool.or_eq_true, ih, List.isPrefixOf_iff_prefix, List.infix_cons_iff]

/-- **The words for a height above the head** have the node's phrase in them. -/
theorem isAboveHead_iff {text : String} :
    isAboveHead text ↔ aboveHeadText.toList <:+: text.toList := containsList_iff

example : isAboveHead "height 11 must be less than or equal to the current height 10" := by
  decide +kernel

/-! ### One call -/

/-- What a node can be asked. -/
inductive Query where
  /-- For the head of the chain. -/
  | head
  /-- For the block of a height. -/
  | block (height : ℕ)
  /-- For the outcomes of the transactions of a height. -/
  | results (height : ℕ)

/-- The height that a question is about. -/
def Query.height? : Query → Option ℕ
  | .head => none
  | .block height => some height
  | .results height => some height

/-- The method by which a question is asked. -/
def Query.method : Query → Method
  | .head => .status
  | .block _ => .block
  | .results _ => .blockResults

/-- A call. -/
structure Call where
  /-- What is asked. -/
  query : Query
  /-- How it ends on the wire. -/
  exchange : Exchange
  /-- How long that takes. -/
  latency : ℕ

/-- What the caller gets. -/
inductive Reply where
  /-- The head of the chain. -/
  | head (result : Except Failure ℕ)
  /-- A block. -/
  | block (result : Except Failure Block)
  /-- Outcomes of transactions. -/
  | results (result : Except Failure BlockResults)

/-- The failure of a computation that has failed. -/
def failureOf? {α : Type} : Except Failure α → Option Failure
  | .ok _ => none
  | .error f => some f

/-- A failure that is put in other words is still there. -/
theorem failureOf?_mapError {α ε : Type} {x : Except ε α} {words : ε → Failure} {f : Failure}
    (h : failureOf? (x.mapError words) = some f) : ∃ e, f = words e := by
  rcases x with e | a
  · cases h
    exact ⟨e, rfl⟩
  · cases h

/-- The failure that the caller gets instead of a value. -/
def Reply.failure? : Reply → Option Failure
  | .head result => failureOf? result
  | .block result => failureOf? result
  | .results result => failureOf? result

/-- What kind of failed call it is, if the caller can tell. -/
def Reply.rpcError? (r : Reply) : Option RpcError := r.failure?.bind Failure.rpcError?

/-- How a call has ended, by what its caller got. -/
def Reply.outcome (r : Reply) : CallOutcome :=
  match r.rpcError? with
  | some (.heightNotFound _) => .aboveHead
  | some (.timeout _) => .timedOut
  | some (.transport _ _) => .failed
  | some (.inconsistent _ _) => .answered
  | none => .answered

namespace NodeClient

/-- A call is made: what its caller gets, and the connection that has counted it. -/
def perform (c : NodeClient) (call : Call) : Reply × NodeClient :=
  match call.query with
  | .head => (c.latestHeight call.exchange call.latency).map Reply.head id
  | .block height => (c.block height call.exchange call.latency).map Reply.block id
  | .results height => (c.blockResults height call.exchange call.latency).map Reply.results id

/-- Calls are made, one after the other. -/
def performAll (c : NodeClient) : List Call → List Reply × NodeClient
  | [] => ([], c)
  | call :: calls =>
      let (reply, c) := c.perform call
      let (replies, c) := c.performAll calls
      (reply :: replies, c)

variable {c : NodeClient} {m : Method} {height? : Option ℕ} {x : Exchange} {latency : ℕ}

/-- Every call is counted, as the exchange has ended. -/
theorem snd_conclude {α : Type} (read : Json → Except Failure α) :
    (c.conclude m height? x latency read).2
      = { c with metrics := c.metrics.record (x.outcome m height?) latency } := by
  unfold conclude
  split <;> rfl

/-- A call that brings no value fails with what the exchange says. -/
theorem fst_conclude {α : Type} {read : Json → Except Failure α} {e : RpcError}
    (h : x.rpcError m height? = some e) :
    (c.conclude m height? x latency read).1 = .error (.ofRpc e) := by
  unfold conclude
  rw [h]
  cases x with
  | answered => cases h
  | refused | failed | lapsed | silent => rfl

end NodeClient

namespace Exchange

variable {m : Method} {height? : Option ℕ} {x : Exchange} {h : ℕ}

/-- An error in the answer either says that the height in question is missing, or it is a
matter of the connection. -/
theorem rpcError_refused (m : Method) (height? : Option ℕ) (code : ℤ) (text : String) :
    (∃ h, height? = some h ∧ aboveHeadText.toList <:+: text.toList ∧
      rpcError m height? (.refused code text) = some (.heightNotFound h)) ∨
    (¬ (height?.isSome ∧ aboveHeadText.toList <:+: text.toList) ∧
      rpcError m height? (.refused code text)
        = some (.transport m.message s!"code={code}, message={text}")) := by
  simp only [← isAboveHead_iff, rpcError]
  cases height? with
  | none => simp
  | some h => by_cases habove : isAboveHead text <;> simp [habove]

/-- Only a value is no failure. -/
theorem rpcError_eq_none : x.rpcError m height? = none ↔ ∃ v, x = .answered v := by
  cases x with
  | refused code text =>
    obtain ⟨h, -, -, hmissing⟩ | ⟨-, hother⟩ := rpcError_refused m height? code text
    · simp [hmissing]
    · simp [hother]
  | answered | failed | lapsed | silent => simp [rpcError]

/-- A height is missing if it was asked for and the node has used the words for it. -/
theorem rpcError_eq_missing :
    x.rpcError m height? = some (.heightNotFound h) ↔ height? = some h ∧
      ∃ code text, x = .refused code text ∧ aboveHeadText.toList <:+: text.toList := by
  cases x with
  | refused code text =>
    obtain ⟨k, rfl, habove, hmissing⟩ | ⟨hnot, hother⟩ := rpcError_refused m height? code text
    · simp [hmissing, habove]
    · have hnone : ¬ (height? = some h ∧ aboveHeadText.toList <:+: text.toList) := by
        rintro ⟨rfl, habove⟩
        exact hnot ⟨rfl, habove⟩
      simpa [hother] using hnone
  | answered | failed | lapsed | silent => simp [rpcError]

/-- It is a matter of time if either of the two has waited for too long. -/
theorem rpcError_eq_timeout {method : String} :
    x.rpcError m height? = some (.timeout method) ↔
      m.message = method ∧ (x = .silent ∨ x = .lapsed) := by
  cases x with
  | refused code text =>
    obtain ⟨h, -, -, hmissing⟩ | ⟨-, hother⟩ := rpcError_refused m height? code text
    · simp [hmissing]
    · simp [hother]
  | answered | failed | lapsed | silent => simp [rpcError]

/-- It is a matter of the connection if there is no answer for some other reason, or an error
that does not say that a height is missing. -/
theorem rpcError_eq_transport {method words : String} :
    x.rpcError m height? = some (.transport method words) ↔
      m.message = method ∧ (x = .failed words ∨ ∃ code text, x = .refused code text ∧
        s!"code={code}, message={text}" = words ∧
        ¬ (height?.isSome ∧ aboveHeadText.toList <:+: text.toList)) := by
  cases x with
  | refused code text =>
    obtain ⟨h, rfl, habove, hmissing⟩ | ⟨hnot, hother⟩ := rpcError_refused m height? code text
    · simp [hmissing, habove]
    · simpa [hother] using fun _ _ => not_and.mp hnot
  | answered | failed | lapsed | silent => simp [rpcError]

/-- What is wrong with an exchange is never the shape of an answer. -/
theorem rpcError_ne_inconsistent {reason : String} :
    x.rpcError m height? ≠ some (.inconsistent h reason) := by
  cases x with
  | refused code text =>
    obtain ⟨k, -, -, hmissing⟩ | ⟨-, hother⟩ := rpcError_refused m height? code text
    · simp [hmissing]
    · simp [hother]
  | answered | failed | lapsed | silent => simp [rpcError]

end Exchange

namespace Call

variable {call : Call} {c : NodeClient} {e : RpcError} {f : Failure} {v : Json}

/-- The failure of a call that brought no value. -/
def rpcError? (call : Call) : Option RpcError :=
  call.exchange.rpcError call.query.method call.query.height?

/-- How a call is counted. -/
def outcome (call : Call) : CallOutcome :=
  call.exchange.outcome call.query.method call.query.height?

theorem snd_perform (c : NodeClient) (call : Call) :
    (c.perform call).2 = { c with metrics := c.metrics.record call.outcome call.latency } := by
  obtain ⟨query, exchange, latency⟩ := call
  cases query with
  | head => exact NodeClient.snd_conclude _
  | block => exact NodeClient.snd_conclude _
  | results => exact NodeClient.snd_conclude _

theorem failure?_of_rpcError? (h : call.rpcError? = some e) :
    (c.perform call).1.failure? = some (.ofRpc e) := by
  obtain ⟨query, exchange, latency⟩ := call
  cases query with
  | head => exact congrArg failureOf? (NodeClient.fst_conclude h)
  | block => exact congrArg failureOf? (NodeClient.fst_conclude h)
  | results => exact congrArg failureOf? (NodeClient.fst_conclude h)

/-- A value that is of no use is refused: as contradicting the question if that was about a
height, and in words alone otherwise. -/
theorem failure?_of_answered (h : call.exchange = .answered v)
    (hf : (c.perform call).1.failure? = some f) :
    (call.query.height? = none ∧ ∃ why, f = .ofText why) ∨
      ∃ height reason, call.query.height? = some height ∧
        f = .ofRpc (.inconsistent height reason) := by
  obtain ⟨query, exchange, latency⟩ := call
  cases h
  cases query with
  | head =>
    left
    obtain ⟨e, he⟩ := failureOf?_mapError hf
    exact ⟨rfl, _, he⟩
  | block height =>
    right
    have hread : failureOf? (NodeClient.readBlock height v) = some f := hf
    rcases NodeClient.readBlock_cases height v with ⟨a, txs, -, -, hok⟩ | ⟨reason, herror⟩
    · rw [hok] at hread
      cases hread
    · rw [herror] at hread
      cases hread
      exact ⟨height, reason, rfl, rfl⟩
  | results height =>
    right
    obtain ⟨e, he⟩ := failureOf?_mapError hf
    exact ⟨height, _, rfl, he⟩

/-- **Both judge alike**: a call is counted as it has ended for the caller. -/
theorem outcome_perform (c : NodeClient) (call : Call) :
    (c.perform call).1.outcome = call.outcome := by
  unfold outcome Exchange.outcome Reply.outcome Reply.rpcError?
  rcases hrpc : call.rpcError? with _ | e
  · -- an answer that is of no use is not counted, and its failure does not say otherwise
    have hnone : call.exchange.rpcError call.query.method call.query.height? = none := hrpc
    obtain ⟨v, hv⟩ := Exchange.rpcError_eq_none.mp hnone
    rw [hnone]
    rcases hf : (c.perform call).1.failure? with _ | f
    · rfl
    · rcases failure?_of_answered hv hf with ⟨-, why, rfl⟩ | ⟨height, reason, -, rfl⟩
      · rfl
      · rfl
  · have hsome : call.exchange.rpcError call.query.method call.query.height? = some e := hrpc
    rw [failure?_of_rpcError? hrpc, hsome]
    cases e with
    | inconsistent => exact absurd hsome Exchange.rpcError_ne_inconsistent
    | timeout | heightNotFound | transport => rfl

/-- The caller is told of just the failures of the call, apart from answers that are of no
use. -/
theorem failure?_eq_ofRpc (he : ∀ h reason, e ≠ .inconsistent h reason) :
    (c.perform call).1.failure? = some (.ofRpc e) ↔ call.rpcError? = some e := by
  refine ⟨fun hf => ?_, failure?_of_rpcError?⟩
  rcases hrpc : call.rpcError? with _ | e'
  · obtain ⟨v, hv⟩ := Exchange.rpcError_eq_none.mp hrpc
    rcases failure?_of_answered hv hf with ⟨-, why, hwhy⟩ | ⟨height, reason, -, hreason⟩
    · cases hwhy
    · cases hreason
      exact absurd rfl (he height reason)
  · rw [failure?_of_rpcError? hrpc] at hf
    cases hf
    rfl

/-- **What the caller of a call gets.** -/
structure Classified (call : Call) (reply : Reply) : Prop where
  /-- If it is about a height, every failure is that of a call to the node. -/
  rpc : ∀ h, call.query.height? = some h → ∀ f, reply.failure? = some f → ∃ e, f = .ofRpc e
  /-- A height is said to be missing just if it was asked for, and the node has answered with
  an error in whose text its words for that stand. -/
  missing_iff : ∀ h, reply.failure? = some (.ofRpc (.heightNotFound h)) ↔
    call.query.height? = some h ∧ ∃ code text, call.exchange = .refused code text ∧
      aboveHeadText.toList <:+: text.toList
  /-- It is said to be a matter of time just if the call or the connection has waited for too
  long. -/
  timeout_iff : ∀ method, reply.failure? = some (.ofRpc (.timeout method)) ↔
    call.query.method.message = method ∧ (call.exchange = .silent ∨ call.exchange = .lapsed)
  /-- It is said to be a matter of the connection just if there is no answer for another
  reason, or an error that does not say that a height is missing. -/
  transport_iff : ∀ method words, reply.failure? = some (.ofRpc (.transport method words)) ↔
    call.query.method.message = method ∧ (call.exchange = .failed words ∨
      ∃ code text, call.exchange = .refused code text ∧ s!"code={code}, message={text}" = words ∧
        ¬ (call.query.height?.isSome ∧ aboveHeadText.toList <:+: text.toList))
  /-- A value that the node has given is never a failure of the connection. -/
  answered : ∀ v, call.exchange = .answered v → reply.outcome = .answered

/-- **The law of a call** holds for every call. -/
theorem classified_perform (c : NodeClient) (call : Call) : call.Classified (c.perform call).1 := by
  constructor
  · intro h hheight f hf
    rcases hrpc : call.rpcError? with _ | e
    · obtain ⟨v, hv⟩ := Exchange.rpcError_eq_none.mp hrpc
      rcases failure?_of_answered hv hf with ⟨hnone, -⟩ | ⟨height, reason, -, hreason⟩
      · rw [hheight] at hnone
        cases hnone
      · exact ⟨_, hreason⟩
    · rw [failure?_of_rpcError? hrpc] at hf
      cases hf
      exact ⟨e, rfl⟩
  · intro h
    exact Iff.trans (failure?_eq_ofRpc (by nofun)) Exchange.rpcError_eq_missing
  · intro method
    exact Iff.trans (failure?_eq_ofRpc (by nofun)) Exchange.rpcError_eq_timeout
  · intro method words
    exact Iff.trans (failure?_eq_ofRpc (by nofun)) Exchange.rpcError_eq_transport
  · intro v hv
    rw [outcome_perform]
    simp [outcome, hv, Exchange.outcome, Exchange.rpcError]

end Call

/-! ### The counters -/

namespace NodeMetrics

variable {m : NodeMetrics} {told told' : List (CallOutcome × ℕ)}

/-- Whichever of two calls is counted first, the counters are the same afterwards. -/
theorem record_comm (m : NodeMetrics) (o o' : CallOutcome) (l l' : ℕ) :
    (m.record o l).record o' l' = (m.record o' l').record o l := by
  have hlatency := Counter.bump_right_comm m.latency (min l Height.top) (min l' Height.top)
  have hslowest := max_right_comm m.slowest (min l Height.top) (min l' Height.top)
  cases o <;> cases o' <;> simp only [record, hlatency, hslowest]

/-- The counters after they have been told about calls: how each has ended, and how long it
took. -/
def tell (m : NodeMetrics) (told : List (CallOutcome × ℕ)) : NodeMetrics :=
  told.foldl (fun m call => m.record call.1 call.2) m

theorem tell_cons (m : NodeMetrics) (o : CallOutcome) (l : ℕ) :
    m.tell ((o, l) :: told) = (m.record o l).tell told := rfl

theorem tell_of_perm (h : told.Perm told') : m.tell told = m.tell told' :=
  h.foldl_eq' (fun a _ b _ m => record_comm m a.1 b.1 a.2 b.2) m

/-- **What a counter says after calls**: how many of them it counts, wrapped round. -/
theorem counter_tell (get : NodeMetrics → ℕ) (counts : CallOutcome → Bool)
    (hrecord : ∀ m o l, get (m.record o l) = if counts o then Counter.bump (get m) 1 else get m)
    (hm : get m < 2 ^ 64) :
    get (m.tell told) = (get m + (told.map Prod.fst).countP counts) % 2 ^ 64 := by
  induction told generalizing m with
  | nil => exact (Nat.mod_eq_of_lt hm).symm
  | cons call told ih =>
    obtain ⟨o, l⟩ := call
    have hlt : get (m.record o l) < 2 ^ 64 := by
      rw [hrecord]
      split
      · exact Nat.mod_lt _ (by decide)
      · exact hm
    -- the counter is a word again after each call, so that the wraps add up to one
    rw [tell_cons, ih hlt, hrecord, List.map_cons, List.countP_cons]
    split
    · rw [Counter.bump_eq, Nat.mod_add_mod, Nat.add_assoc, Nat.add_comm 1]
    · rfl

/-- **What the counters say after calls** that have ended like this for those who made
them. -/
structure Accounts (m : NodeMetrics) (outcomes : List CallOutcome) : Prop where
  /-- Every call is counted. -/
  calls : m.calls = outcomes.length % 2 ^ 64
  /-- So are the heights that were missing. -/
  aboveHead : m.aboveHead = outcomes.count .aboveHead % 2 ^ 64
  /-- So are the calls that have waited for too long. -/
  timeouts : m.timeouts = outcomes.count .timedOut % 2 ^ 64
  /-- These are errors, as are the calls that have failed in another way. -/
  errors : m.errors = outcomes.countP (fun o => o = .timedOut ∨ o = .failed) % 2 ^ 64

/-- The counters of a new connection count what they are told about. -/
theorem accounts_tell (told : List (CallOutcome × ℕ)) :
    (tell {} told).Accounts (told.map Prod.fst) := by
  have hcount (get : NodeMetrics → ℕ) (counts : CallOutcome → Bool) (hget : get {} = 0)
      (hrecord : ∀ m o l, get (m.record o l) = if counts o then Counter.bump (get m) 1 else get m) :
      get (tell {} told) = (told.map Prod.fst).countP counts % 2 ^ 64 := by
    rw [counter_tell get counts hrecord (by rw [hget]; decide), hget, Nat.zero_add]
  constructor
  · rw [← List.countP_true]
    apply hcount calls
    · rfl
    · intro m o l
      cases o <;> rfl
  · apply hcount aboveHead
    · rfl
    · intro m o l
      cases o <;> rfl
  · apply hcount timeouts
    · rfl
    · intro m o l
      cases o <;> rfl
  · apply hcount errors
    · rfl
    · intro m o l
      cases o <;> rfl

end NodeMetrics

/-! ### Calls, one after the other -/

namespace NodeClient

variable {c : NodeClient} {calls calls' : List Call}

/-- What the counters are told about calls. -/
def told (calls : List Call) : List (CallOutcome × ℕ) :=
  calls.map fun call => (call.outcome, call.latency)

theorem performAll_cons (c : NodeClient) (call : Call) (calls : List Call) :
    c.performAll (call :: calls)
      = ((c.perform call).1 :: ((c.perform call).2.performAll calls).1,
        ((c.perform call).2.performAll calls).2) := rfl

/-- The counters have been told about the calls. -/
theorem snd_performAll (c : NodeClient) (calls : List Call) :
    (c.performAll calls).2 = { c with metrics := c.metrics.tell (told calls) } := by
  induction calls generalizing c with
  | nil => rfl
  | cons call calls ih =>
    rw [performAll_cons, ih, Call.snd_perform]
    rfl

/-- Every caller gets what the law of a call says. -/
theorem classified_performAll (c : NodeClient) (calls : List Call) :
    List.Forall₂ Call.Classified calls (c.performAll calls).1 := by
  induction calls generalizing c with
  | nil => exact .nil
  | cons call calls ih => exact .cons (Call.classified_perform c call) (ih _)

/-- The callers together are told of the outcomes of which the counters are told. -/
theorem outcomes_performAll (c : NodeClient) (calls : List Call) :
    (c.performAll calls).1.map Reply.outcome = (told calls).map Prod.fst := by
  induction calls generalizing c with
  | nil => rfl
  | cons call calls ih =>
    rw [performAll_cons, List.map_cons, ih, Call.outcome_perform]
    rfl

/-- **What callers get, and what is counted**, when calls are made over a connection. -/
structure Accounts (c : NodeClient) (calls : List Call) : Prop where
  /-- Every caller gets what the law of a call says. -/
  classified : List.Forall₂ Call.Classified calls (c.performAll calls).1
  /-- The counters count what the callers have got. -/
  counted : (c.performAll calls).2.metrics.Accounts ((c.performAll calls).1.map Reply.outcome)
  /-- In which order the calls are made is without influence on the counters. -/
  unordered : ∀ calls', calls.Perm calls' →
    (c.performAll calls').2.metrics = (c.performAll calls).2.metrics

/-- **What callers get, and what is counted**, for any calls over a new connection. -/
theorem accounts_of_calls (endpoint : String) (options : NodeOptions) (calls : List Call) :
    (NodeClient.mk endpoint options {}).Accounts calls := by
  constructor
  · exact classified_performAll _ calls
  · rw [outcomes_performAll, snd_performAll]
    exact NodeMetrics.accounts_tell (told calls)
  · intro calls' hperm
    rw [snd_performAll, snd_performAll]
    exact (NodeMetrics.tell_of_perm (hperm.map _)).symm

end NodeClient
end BlockIngest
