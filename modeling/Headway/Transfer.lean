import Headway.Estimator

namespace Headway

structure Transfer where
  now : Instant
  estimator : Estimator
  live : LiveTotals
  deriving DecidableEq

inductive LiveUpdate where
  | setRaw (n : UInt64)
  | addRaw (n : UInt64)
  | setChanged (n : UInt64)
  | addChanged (n : UInt64)
  deriving DecidableEq

def LiveTotals.apply (t : LiveTotals) : LiveUpdate → LiveTotals
  | .setRaw n => t.setRaw n
  | .addRaw n => t.addRaw n
  | .setChanged n => t.setChanged n
  | .addChanged n => t.addChanged n

inductive News where
  | bytes (n : UInt64)
  | evidence (e : Evidence)
  | live (u : LiveUpdate)
  deriving DecidableEq

namespace Transfer

inductive Operation where
  | advance (d : Duration)
  | rewind (d : Duration)
  | hear (news : News)
  | tick (live : LiveTotals)
  | tickLive
  deriving DecidableEq

inductive Outcome where
  | done
  | heard (result : Except Refusal Unit)
  | ticked (result : Except Fault (Option Report))

def starting (options : EstimatorOptions) : Transfer := ⟨⟨0⟩, .new options ⟨0⟩, .zero⟩

def hear (t : Transfer) : News → Transfer × Except Refusal Unit
  | .bytes n => ({ t with estimator := t.estimator.record t.now n }, .ok ())
  | .evidence v =>
    match t.estimator.setEvidence v with
    | .ok e => ({ t with estimator := e }, .ok ())
    | .error r => (t, .error r)
  | .live u => ({ t with live := t.live.apply u }, .ok ())

def callback (t : Transfer) (n _size : UInt64) : Transfer := (t.hear (.bytes n)).1

def tick (t : Transfer) (live : LiveTotals) : Transfer × Except Fault (Option Report) :=
  let (e, result) := t.estimator.tick t.now live
  ({ t with estimator := e }, result)

def finalReport (t : Transfer) : Report := t.estimator.finalReport t.now

def step (t : Transfer) : Operation → Transfer × Outcome
  | .advance d => ({ t with now := t.now.later d }, .done)
  | .rewind d => ({ t with now := t.now.earlier d }, .done)
  | .hear news =>
    let (t, result) := t.hear news
    (t, .heard result)
  | .tick live =>
    let (t, result) := t.tick live
    (t, .ticked result)
  | .tickLive =>
    let (t, result) := t.tick t.live
    (t, .ticked result)

end Transfer

end Headway
