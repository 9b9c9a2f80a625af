import BlockIngest.Failure

/-!
# How a run ends

A run ends when its own token is cancelled, or the root token above it, or when a part of the
pipeline gives up.  The first failure of that kind is kept, with its origin on top, and cancels both
tokens; later ones change nothing.

## Main definitions

* `Shutdown` — the tokens and the first fatal failure.
* `Shutdown.cancelRun`, `Shutdown.cancelRoot` — the two tokens.
* `Shutdown.isTriggered`, `Shutdown.origin?`, `Shutdown.error?` — whether a part has given up, which
  one, and the failure for anyone who asks.
* `Shutdown.storageFailed`, `Shutdown.taskFailed` — a part that gives up, and the failure as the
  reporter gets it back.
-/

namespace BlockIngest

/-- A failure that ended a run. -/
structure Capture where
  /-- Which part gave up. -/
  origin : FatalOrigin
  /-- Why. -/
  failure : Failure
  deriving DecidableEq, Repr

/-- The captured failure with its origin on top. -/
def Capture.error (c : Capture) : Failure := c.failure.under (.fatal c.origin)

/-- The tokens of a run and its first fatal failure. -/
structure Shutdown where
  /-- Whether the root token is cancelled. -/
  root : Bool := false
  /-- Whether the token of the run is cancelled. -/
  run : Bool := false
  /-- The first fatal failure. -/
  fatal : Option Capture := none
  deriving DecidableEq, Repr

namespace Shutdown

/-- The start of a run below a root token. -/
def start (root : Bool) : Shutdown := ⟨root, root, none⟩

/-- Cancels the token of the run. -/
def cancelRun (s : Shutdown) : Shutdown := { s with run := true }

/-- Cancels the root token, and with it the token of the run. -/
def cancelRoot (s : Shutdown) : Shutdown := { s with root := true, run := true }

/-- Whether a part has given up. -/
def isTriggered (s : Shutdown) : Bool := s.fatal.isSome

/-- Which part was the first to give up. -/
def origin? (s : Shutdown) : Option FatalOrigin := s.fatal.map Capture.origin

/-- The first fatal failure, with its origin on top. -/
def error? (s : Shutdown) : Option Failure := s.fatal.map Capture.error

/-- Keeps a failure if it is the first one.  The first one is returned with its origin on top, any
other one as it is. -/
def capture (s : Shutdown) (origin : FatalOrigin) (failure : Failure) : Failure × Shutdown :=
  match s.fatal with
  | some _ => (failure, s)
  | none => ((Capture.mk origin failure).error,
      { root := true, run := true, fatal := some ⟨origin, failure⟩ })

/-- A height was given up, for the reason `source`. -/
def storageFailed (s : Shutdown) (e : StorageError) (source : Failure) : Failure × Shutdown :=
  s.capture (.storage e.height) (source.under (.storage e))

/-- A task ended that must not end.  When a part has given up before, it is most likely the echo of
that, and goes back as it is. -/
def taskFailed (s : Shutdown) (context : String) (failure : Failure) : Failure × Shutdown :=
  if s.isTriggered then (failure, s) else s.capture (.task context) failure

/-- If it was not turned away at once, a late failure would be so when it is to be kept. -/
theorem taskFailed_eq (s : Shutdown) (context : String) (failure : Failure) :
    s.taskFailed context failure = s.capture (.task context) failure := by
  unfold taskFailed isTriggered capture
  rcases s.fatal with _ | c <;> rfl

end Shutdown

end BlockIngest
