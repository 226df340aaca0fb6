import Headway.Transfer

/-!
The task of a reporter runs only while time passes or somebody waits for it.  `Session.act` gives
the session after an action, its answer, and the reports handed out on the way.
-/

namespace Headway

inductive Task where
  | absent
  | started
  | waiting (due : Instant)
  | finished
  | broken
  deriving DecidableEq

inductive ReporterState where
  | idle
  | running
  | stopped
  deriving DecidableEq

structure Reporter where
  interval : Duration
  enabled : Bool
  dryRun : Bool
  startRequested : Bool
  stopRequested : Bool
  /-- The task has been sent a wake-up that it has not taken yet. -/
  notified : Bool
  task : Task
  deriving DecidableEq

namespace Reporter

def ofConfig (c : Config) : Reporter :=
  ⟨(c.interval.longer (.ofMillis 1)).slept, c.enabled, c.dryRun, false, false, false,
    .absent⟩

/-- A broken task counts as running until somebody waits for it. -/
def state (r : Reporter) : ReporterState :=
  match r.task with
  | .absent => .idle
  | .started | .waiting _ | .broken => .running
  | .finished => .stopped

def requestStop (r : Reporter) : Reporter :=
  if r.stopRequested then r else { r with stopRequested := true, notified := true }

def start (r : Reporter) (hasEvidence : Bool) : Reporter × Except Refusal Bool :=
  if r.startRequested then (r, .error .reporterAlreadyStarted)
  else if r.dryRun || !r.enabled || !hasEvidence then ({ r with startRequested := true }, .ok false)
  else ({ r with startRequested := true, task := .started }, .ok true)

def dueCount (r : Reporter) (t : Instant) : Nat :=
  match r.task with
  | .waiting due =>
    if due.nanos ≤ t.nanos then (t.nanos - due.nanos).toNat / r.interval.nanos + 1 else 0
  | _ => 0

end Reporter

structure Emission where
  time : Instant
  report : Report
  deriving DecidableEq

structure Session where
  transfer : Transfer
  reporter : Reporter
  dropped : Bool
  deriving DecidableEq

inductive Action where
  | start
  | sleep (d : Duration)
  | wait
  | stop
  | signal
  | drop
  | hear (news : News)
  deriving DecidableEq

inductive Answer where
  | done
  | gone
  | started (result : Except Refusal Bool)
  | heard (result : Except Refusal Unit)

namespace Session

def starting (config : Config) (options : EstimatorOptions) : Session :=
  ⟨.starting options, .ofConfig config, false⟩

def setTask (s : Session) (task : Task) : Session :=
  { s with reporter := { s.reporter with task := task } }

def tick (s : Session) : Session × List Emission :=
  let (transfer, result) := s.transfer.tick s.transfer.live
  let next := { s with transfer := transfer }
  match result with
  | .ok report =>
    (next.setTask (.waiting (transfer.now.later s.reporter.interval)),
      report.toList.map (Emission.mk transfer.now))
  | .error _ => (next.setTask .broken, [])

def turn (s : Session) : Session × List Emission :=
  if s.reporter.stopRequested then
    (s.setTask .finished, [⟨s.transfer.now, s.transfer.finalReport⟩])
  else s.tick

def takeNotice (s : Session) : Session :=
  { s with reporter := { s.reporter with notified := false } }

def poll (s : Session) : Session × List Emission :=
  match s.reporter.task with
  | .started => s.turn
  | .waiting _ => if s.reporter.notified then s.takeNotice.turn else (s, [])
  | _ => (s, [])

def round (s : Session) : Session × List Emission :=
  match s.reporter.task with
  | .waiting due => turn { s with transfer := { s.transfer with now := due } }
  | _ => (s, [])

def rounds : Nat → Session → Session × List Emission
  | 0, s => (s, [])
  | n + 1, s =>
    let (s, first) := s.round
    let (s, rest) := rounds n s
    (s, first ++ rest)

def sleepUntil (s : Session) (t : Instant) : Session × List Emission :=
  let (s, first) := s.poll
  let (s, rest) := rounds (s.reporter.dueCount t) s
  ({ s with transfer := { s.transfer with now := t } }, first ++ rest)

def requestStop (s : Session) : Session := { s with reporter := s.reporter.requestStop }

def stop (s : Session) : Session × List Emission :=
  let (s, emissions) := s.requestStop.poll
  match s.reporter.task with
  | .broken => (s.setTask .finished, emissions)
  | _ => (s, emissions)

def act (s : Session) : Action → Session × Answer × List Emission
  | .start =>
    if s.dropped then (s, .gone, [])
    else
      let (reporter, result) := s.reporter.start s.transfer.estimator.evidence.isSome
      ({ s with reporter := reporter }, .started result, [])
  | .sleep d =>
    let (s, emissions) := s.sleepUntil (s.transfer.now.later d.slept)
    (s, .done, emissions)
  | .wait =>
    let (s, emissions) := s.sleepUntil s.transfer.now
    (s, .done, emissions)
  | .stop =>
    if s.dropped then (s, .gone, [])
    else
      let (s, emissions) := s.stop
      (s, .done, emissions)
  | .signal => (s.requestStop, .done, [])
  | .drop => ({ s.requestStop with dropped := true }, .done, [])
  | .hear news =>
    let (transfer, result) := s.transfer.hear news
    ({ s with transfer := transfer }, .heard result, [])

def state? (s : Session) : Option ReporterState :=
  if s.dropped then none else some s.reporter.state

end Session

end Headway
