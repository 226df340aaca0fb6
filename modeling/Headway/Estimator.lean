import Headway.Estimator.Options
import Headway.Estimator.Statistics
import Headway.Estimator.Timeline

namespace Headway

/-- Bytes reported for the current unit of work, and bytes counted over all units. -/
structure ByteCount where
  current : UInt64
  total : UInt64
  deriving DecidableEq

namespace ByteCount

def zero : ByteCount := ⟨0, 0⟩

def record (b : ByteCount) (n : UInt64) : ByteCount :=
  ⟨n, Count.addSat b.total (Count.subSat n b.current)⟩

end ByteCount

structure Estimator where
  options : EstimatorOptions
  evidence : Option Evidence
  bytes : ByteCount
  time : Timeline
  statistics : TransferStatistics
  deriving DecidableEq

structure Snapshot where
  hasEvidence : Bool
  samples : Nat
  changeMean : Float
  changeSigma : Float
  compressMean : Float
  compressSigma : Float
  progress : Float
  eta : UInt64
  total : UInt64
  throughput : Float
  rates : Nat
  accumulated : Duration
  deriving DecidableEq

namespace Estimator

def new (options : EstimatorOptions) (now : Instant) : Estimator :=
  ⟨options, none, .zero, .starting now, .empty options.rateWindow⟩

def total (e : Estimator) : UInt64 := e.bytes.total

def speed (e : Estimator) : Float := e.statistics.throughput

def elapsedSeconds (e : Estimator) (now : Instant) : UInt64 := e.time.running now

def record (e : Estimator) (now : Instant) (n : UInt64) : Estimator :=
  { e with
    bytes := e.bytes.record n
    time := if e.bytes.current < n then e.time.activate now else e.time }

def setEvidence (e : Estimator) (evidence : Evidence) : Except Refusal Estimator :=
  match e.evidence with
  | none => .ok { e with evidence := some evidence }
  | some _ => .error .evidenceAlreadySet

def report (e : Estimator) (now : Instant) (stalled : Bool) : Report :=
  ⟨100.0 * e.statistics.progress, e.statistics.eta, e.total, e.elapsedSeconds now, e.speed, stalled⟩

def finalReport (e : Estimator) (now : Instant) : Report :=
  .completed e.total (e.elapsedSeconds now) e.speed

def snapshot (e : Estimator) : Snapshot where
  hasEvidence := e.evidence.isSome
  samples := e.statistics.samples
  changeMean := e.statistics.change.mean
  changeSigma := e.statistics.change.sigma
  compressMean := e.statistics.compress.mean
  compressSigma := e.statistics.compress.sigma
  progress := e.statistics.progress
  eta := e.statistics.eta
  total := e.total
  throughput := e.speed
  rates := e.statistics.rates.length
  accumulated := e.statistics.accumulated

def visit (e : Estimator) (now : Instant) : Estimator := { e with time := e.time.visit now }

def complete (e : Estimator) (now : Instant) (x : Sample) :
    Estimator × Except Fault (Option Report) :=
  if x.live.changed = 0 ∨ x.evidence = 0 then (e, .ok none)
  else
    let (statistics, outcome) := e.statistics.add x
    let next := { e with statistics := statistics }
    (next, outcome.map fun _ => some (next.report now false))

def tick (e : Estimator) (now : Instant) (live : LiveTotals) :
    Estimator × Except Fault (Option Report) :=
  match e.options.enabled, e.evidence with
  | true, some evidence =>
    let x : Sample := ⟨live, evidence.total, e.total, e.time.elapsed now⟩
    let seen := e.visit now
    match e.options.stallThreshold with
    | .error fault => (seen, .error fault)
    | .ok threshold =>
      if threshold.nanos < seen.time.idle now then (seen, .ok (some (seen.report now true)))
      else seen.complete now x
  | _, _ => (e, .ok none)

def text (e : Estimator) : List Char :=
  "Estimator \x7b options: ".toList ++ e.options.text ++ ", evidence: ".toList ++
    (match e.evidence with
    | none => "None".toList
    | some v =>
      "Some(Evidence \x7b new_bytes: ".toList ++ Decimal.digits v.newBytes.toNat ++
        ", changed_bytes: ".toList ++ Decimal.digits v.changedBytes.toNat ++ " \x7d)".toList) ++
    ", cumulative_bytes: ".toList ++ Decimal.digits e.total.toNat ++ ", .. \x7d".toList

end Estimator

end Headway
