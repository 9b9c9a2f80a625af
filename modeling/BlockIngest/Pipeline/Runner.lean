import BlockIngest.Pipeline.Fetcher

/-!
# Running a fetcher for a process

A runner owns a fetcher and the root token of its runs.  The token can be cancelled from outside,
and a run that fails cancels it too, so every stop is followed by a fresh one: a runner can always
be started again.

## Main definitions

* `Runner`, `Runner.make` — a fetcher with its token.
* `Runner.prepare`, `Runner.launch` — the two halves of a start.
* `Runner.requestStop`, `Runner.finishStop` — the two halves of a stop.
* `Runner.cancel` — the token is cancelled from outside.
-/

namespace BlockIngest

/-- A fetcher with the token of its runs. -/
structure Runner where
  /-- The fetcher. -/
  fetcher : Fetcher
  /-- The number of the current token. -/
  token : Nat
  /-- Whether it has been started and not stopped since. -/
  isStarted : Bool
  /-- The tokens that were current before. -/
  retired : List Token

namespace Runner

/-- A runner that has not been started. -/
def make (config : Config) (store : Store) (publisher : Publisher) : Runner :=
  ⟨.make config (.fresh 0) store publisher, 0, false, []⟩

/-- Whether the token with a number is cancelled. -/
def isCancelled (r : Runner) (id : Nat) : Bool :=
  if r.fetcher.token.id = id then r.fetcher.token.cancelled
  else (r.retired.find? fun t => t.id == id).any Token.cancelled

/-- The current token is cancelled. -/
def cancel (r : Runner) : Runner :=
  if r.fetcher.token.id = r.token then { r with fetcher := r.fetcher.cancelRoot } else r

/-- The first half of a start, unless the runner is started already. -/
def prepare (r : Runner) (latest : Except Failure (Option Nat)) :
    Except Failure (Option (Option Nat) × Runner) :=
  if r.isStarted then .ok (none, r)
  else
    match r.fetcher.prepare latest with
    | .error failure => .error failure
    | .ok (latest, fetcher) => .ok (some latest, { r with fetcher := fetcher })

/-- The second half of a start. -/
def launch (r : Runner) (latest : Option Nat) (head : Except Failure Nat) : Runner :=
  { r with fetcher := r.fetcher.launch latest head, isStarted := true }

/-- The first half of a stop: the token is cancelled, and the run with it. -/
def requestStop (r : Runner) : Runner :=
  if r.isStarted then
    let r := r.cancel
    { r with fetcher := r.fetcher.requestStop }
  else r

/-- The second half of a stop, once all tasks have ended: a fresh token takes the place of the old
one. -/
def finishStop (r : Runner) : Except Failure Unit × Runner :=
  if r.isStarted then
    let (outcome, fetcher) := r.fetcher.finishStop
    let next := r.token + 1
    (outcome,
      { fetcher := fetcher.replaceToken (.fresh next)
        token := next
        isStarted := false
        retired := fetcher.token :: r.retired })
  else (.ok (), r)

end Runner

end BlockIngest
