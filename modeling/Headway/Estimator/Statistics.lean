import Headway.Duration
import Headway.Evidence
import Headway.Refusal
import Headway.Statistics.RateWindow
import Headway.Statistics.RunningRatio

/-!
Two ratios are followed: delta bytes per changed byte, and bytes sent per delta byte.  Their
product, padded by both deviations and scaled by the share of the changed data that has been
processed, approximates the fraction done, which never moves back.
-/

namespace Headway

open Statistics

structure TransferStatistics where
  samples : Nat
  change : RunningRatio Float
  compress : RunningRatio Float
  progress : Float
  eta : UInt64
  totalAtSample : UInt64
  accumulated : Duration
  throughput : Float
  rates : RateWindow Float
  deriving DecidableEq

structure Sample where
  live : LiveTotals
  evidence : UInt64
  total : UInt64
  elapsed : Duration
  deriving DecidableEq

namespace Sample

def changeRatio (x : Sample) : Float := x.live.raw.toFloat / x.live.changed.toFloat

def compressRatio (x : Sample) : Float := x.total.toFloat / x.live.raw.toFloat

def estimate (x : Sample) (change compress : RunningRatio Float) : Float :=
  (change.mean * compress.mean + change.sigma + compress.sigma) * x.live.changed.toFloat
    / x.evidence.toFloat

end Sample

def unitInterval (x : Float) : Float :=
  if x.isNaN then 0.0 else if x < 0.0 then 0.0 else if 1.0 < x then 1.0 else x

namespace TransferStatistics

def empty (rateWindow : Nat) : TransferStatistics :=
  ⟨0, .empty, .empty, 0.0, 0, 0, .zero, 0.0, .empty rateWindow⟩

def observe (s : TransferStatistics) (x : Sample) : TransferStatistics :=
  let change := s.change.push x.changeRatio
  let compress := if 0 < x.live.raw then s.compress.push x.compressRatio else s.compress
  let estimate := unitInterval (x.estimate change compress)
  { s with
    samples := s.samples + 1
    change := change
    compress := compress
    progress := if s.progress < estimate then estimate else s.progress }

def projection (progress : Float) : Float :=
  if 0.0 < progress then (1.0 - progress) / progress else 1.0

def rate (s : TransferStatistics) (x : Sample) : Float :=
  (Count.subSat x.total s.totalAtSample).toFloat / x.elapsed.toFloat

def project (s : TransferStatistics) (x : Sample) (accumulated : Duration) : TransferStatistics :=
  let rates := if x.elapsed.nanos = 0 then s.rates else s.rates.push (s.rate x)
  { s with
    accumulated := accumulated
    eta := (projection s.progress * accumulated.toFloat).toUInt64
    rates := rates
    totalAtSample := x.total
    throughput := rates.average }

/-- A fault leaves what was done before it. -/
def add (s : TransferStatistics) (x : Sample) : TransferStatistics × Except Fault Unit :=
  if s.samples < Count.largest then
    let observed := s.observe x
    match observed.accumulated.add? x.elapsed with
    | some accumulated => (observed.project x accumulated, .ok ())
    | none => (observed, .error .durationSum)
  else (s, .error .countSum)

end TransferStatistics

end Headway
