import Headway.Proofs.Transfer.Run

/-!
A run without its clock is the list of what was done, with
a note at each tick whether it was a stall.  From that list alone an estimator that knows no time
comes to the same ratios, the same fraction done and the same percentages.
-/

namespace Headway.Transfer

open Statistics

def isClock : Operation → Bool
  | .advance _ | .rewind _ => true
  | _ => false

structure Doing where
  operation : Operation
  stalled : Bool
  deriving DecidableEq

def doing (t : Transfer) (op : Operation) : Doing :=
  ⟨op, (t.emitted op).any fun e => e.report.stalled⟩

def percents (t : Transfer) (op : Operation) : List Float :=
  (t.emitted op).map fun e => e.report.percent

structure Account where
  samples : ℕ
  change : RunningRatio Float
  compress : RunningRatio Float
  progress : Float
  total : UInt64
  percents : List Float
  deriving DecidableEq

def account (t : Transfer) (percents : List Float) : Account where
  samples := t.estimator.statistics.samples
  change := t.estimator.statistics.change
  compress := t.estimator.statistics.compress
  progress := t.estimator.statistics.progress
  total := t.estimator.total
  percents := percents

def doings : Transfer → List Operation → List Doing :=
  trace next fun t op => if isClock op then [] else [t.doing op]

def accounts : Transfer → List Operation → List Account :=
  trace next fun t op => if isClock op then [] else [(t.next op).account (t.percents op)]

def timelessStatistics (s : TransferStatistics) : TransferStatistics :=
  { TransferStatistics.empty 0 with
    samples := s.samples
    change := s.change
    compress := s.compress
    progress := s.progress }

def timeless (t : Transfer) : Transfer where
  now := ⟨0⟩
  estimator := { t.estimator with
    time := .starting ⟨0⟩
    statistics := timelessStatistics t.estimator.statistics }
  live := t.live

def setStatistics (t : Transfer) (s : TransferStatistics) : Transfer :=
  { t with estimator := { t.estimator with statistics := s } }

def tickTimeless (t : Transfer) (live : LiveTotals) (stalled : Bool) : Transfer × List Float :=
  match t.estimator.options.enabled, t.estimator.evidence with
  | true, some evidence =>
    if stalled then (t, [100.0 * t.estimator.statistics.progress])
    else if live.changed = 0 ∨ evidence.total = 0 then (t, [])
    else
      let s := t.estimator.statistics.observe ⟨live, evidence.total, t.estimator.total, .zero⟩
      (t.setStatistics s, [100.0 * s.progress])
  | _, _ => (t, [])

def stepTimeless (t : Transfer) (d : Doing) : Transfer × List Float :=
  match t.asked d.operation with
  | some live => t.tickTimeless live d.stalled
  | none => ((t.next d.operation).timeless, [])

def accountsTimeless : Transfer → List Doing → List Account :=
  trace (fun t d => (t.stepTimeless d).1) fun t d =>
    [(t.stepTimeless d).1.account (t.stepTimeless d).2]

variable {t : Transfer} {op : Operation} {ops : List Operation}

theorem timeless_next_of_isClock (h : isClock op) : (t.next op).timeless = t.timeless := by
  cases op with
  | advance => rfl
  | rewind => rfl
  | hear => cases h
  | tick => cases h
  | tickLive => cases h

theorem asked_timeless (t : Transfer) (op : Operation) : t.timeless.asked op = t.asked op := by
  cases op <;> rfl

theorem timeless_hear (t : Transfer) (news : News) :
    (t.timeless.hear news).1.timeless = (t.hear news).1.timeless := by
  cases news with
  | bytes n => rfl
  | live u => rfl
  | evidence v =>
    rcases t with ⟨now, ⟨options, evidence, bytes, time, statistics⟩, live⟩
    cases evidence with
    | none => rfl
    | some w => rfl

theorem timeless_observe (s : TransferStatistics) (x : Sample) (elapsed : Duration) :
    (timelessStatistics s).observe { x with elapsed := elapsed } =
      timelessStatistics (s.observe x) := rfl

theorem timeless_project (s : TransferStatistics) (x : Sample) (accumulated : Duration) :
    timelessStatistics (s.project x accumulated) = timelessStatistics s := rfl

theorem tickTimeless_of_visit? {live : LiveTotals} {v : Visit}
    (h : t.estimator.visit? t.now live = some v) (stalled : Bool) :
    t.timeless.tickTimeless live stalled =
      let s := t.timeless.estimator.statistics.observe ⟨live, v.evidence, t.estimator.total, .zero⟩
      if stalled then (t.timeless, [100.0 * t.estimator.statistics.progress])
      else if live.changed = 0 ∨ v.evidence = 0 then (t.timeless, [])
      else (t.timeless.setStatistics s, [100.0 * s.progress]) := by
  rw [Estimator.visit?] at h
  split at h
  next evidence he hv =>
    cases h
    have he' : t.timeless.estimator.options.enabled = true := he
    have hv' : t.timeless.estimator.evidence = some evidence := hv
    rw [tickTimeless, he', hv']
    rfl
  next => cases h

theorem tickTimeless_of_no_visit {live : LiveTotals} (h : t.estimator.visit? t.now live = none)
    (stalled : Bool) : t.timeless.tickTimeless live stalled = (t.timeless, []) := by
  rw [Estimator.visit?] at h
  split at h
  next => cases h
  next hn =>
    rw [tickTimeless]
    split
    next evidence he hv => exact absurd hv (hn evidence he)
    next => rfl

theorem tickTimeless_eq {e : Estimator} {live : LiveTotals} {r : Option Report}
    (ht : t.estimator.Ticks t.now live e r) :
    t.timeless.tickTimeless live (r.toList.any Report.stalled) =
      (timeless { t with estimator := e }, r.toList.map Report.percent) := by
  cases ht with
  | unanswered hv => rw [tickTimeless_of_no_visit hv]; rfl
  | stalled v hv hs => rw [tickTimeless_of_visit? hv]; rfl
  | skipped v hv hs hc =>
    obtain rfl := (Estimator.visit?_eq_some hv).2.2.2.1
    have h := (Visit.not_completes_iff hs).mp hc
    rw [tickTimeless_of_visit? hv, Option.toList_none, List.any_nil, if_neg Bool.false_ne_true,
      if_pos h]
    rfl
  | completed v hv hc accumulated =>
    obtain ⟨-, -, -, rfl, htotal, -⟩ := Estimator.visit?_eq_some hv
    have h := mt (Visit.not_completes_iff hc.1).mpr (not_not_intro hc)
    let x := v.sample t.estimator.time.last
    have hr : ((t.estimator.completed t.now x accumulated).report t.now false).stalled = false := rfl
    have hsample : timelessStatistics (t.estimator.completed t.now x accumulated).statistics =
        (timelessStatistics t.estimator.statistics).observe { x with elapsed := .zero } := by
      rw [timeless_observe]
      exact timeless_project _ _ _
    rw [tickTimeless_of_visit? hv, Option.toList_some, List.any_cons, List.any_nil, hr, Bool.or_false,
      if_neg Bool.false_ne_true, if_neg h, ← htotal]
    exact Prod.ext (congrArg t.timeless.setStatistics hsample.symm) rfl

theorem stepTimeless_eq (hc : ¬ isClock op) (hf : t.faults [op] = []) :
    t.timeless.stepTimeless (t.doing op) = ((t.next op).timeless, t.percents op) := by
  cases ha : t.asked op with
  | none =>
    obtain ⟨-, -, -, -, he⟩ := step_of_not_asked ha
    have hasked : t.timeless.asked op = none := (asked_timeless t op).trans ha
    rw [stepTimeless, doing, percents, he, hasked, List.map_nil]
    cases op with
    | hear news => exact congrArg (·, _) (timeless_hear t news)
    | advance => exact absurd rfl hc
    | rewind => exact absurd rfl hc
    | tick => cases ha
    | tickLive => cases ha
  | some live =>
    obtain ⟨e, r, ht, hs, -, he⟩ := ticks_of_asked ha hf
    have hasked : t.timeless.asked op = some live := (asked_timeless t op).trans ha
    have hnext : t.next op = { t with estimator := e } := hs
    rw [stepTimeless, doing, percents, he, hasked, hnext, List.any_map, List.map_map]
    exact tickTimeless_eq ht

theorem account_timeless (t : Transfer) (ps : List Float) :
    t.timeless.account ps = t.account ps := rfl

theorem accounts_eq (hf : t.faults ops = []) :
    t.accounts ops = t.timeless.accountsTimeless (t.doings ops) := by
  induction ops generalizing t with
  | nil => rfl
  | cons op ops ih =>
    obtain ⟨hop, hops⟩ : t.faults [op] = [] ∧ (t.next op).faults ops = [] :=
      faults_append_eq_nil.mp hf
    rw [accounts, doings, trace, trace, ← accounts, ← doings, ih hops]
    by_cases hc : isClock op
    -- Nothing is noted of a clock that moves, and nothing of it is left without times.
    · rw [if_pos hc, if_pos hc, List.nil_append, List.nil_append]
      exact congrArg (accountsTimeless · _) (timeless_next_of_isClock hc)
    · rw [if_neg hc, if_neg hc, List.singleton_append, List.singleton_append, accountsTimeless, trace,
        stepTimeless_eq hc hop, account_timeless]
      rfl

theorem accounts_of_doings (options : EstimatorOptions) (now now' : Instant) (live : LiveTotals)
    (ops ops' : List Operation)
    (h : (beginning options now live).doings ops = (beginning options now' live).doings ops')
    (hf : (beginning options now live).faults ops = [])
    (hf' : (beginning options now' live).faults ops' = []) :
    (beginning options now live).accounts ops = (beginning options now' live).accounts ops' := by
  have hu : (beginning options now live).timeless = (beginning options now' live).timeless := rfl
  rw [accounts_eq hf, accounts_eq hf', h, hu]

def brief : List Operation :=
  [.hear (.evidence ⟨0, 1000⟩), .hear (.bytes 100), .tick ⟨200, 400⟩, .advance (.ofSeconds 1),
    .hear (.bytes 300), .tick ⟨300, 500⟩, .advance (.ofSeconds 7), .tick ⟨400, 600⟩,
    .hear (.bytes 350), .tick ⟨450, 700⟩]

def lengthy : List Operation :=
  [.rewind (.ofSeconds 9), .hear (.evidence ⟨0, 1000⟩), .hear (.bytes 100), .tick ⟨200, 400⟩,
    .advance (.ofSeconds 3600), .hear (.bytes 300), .rewind (.ofSeconds 60), .tick ⟨300, 500⟩,
    .advance (.ofSeconds 86400), .tick ⟨400, 600⟩, .hear (.bytes 350), .advance (.ofSeconds 2),
    .tick ⟨450, 700⟩]

theorem accounts_of_doings_lengthy :
    (beginning .standard ⟨0⟩ .zero).doings brief = (beginning .standard ⟨5⟩ .zero).doings lengthy ∧
      (beginning .standard ⟨0⟩ .zero).faults brief = [] ∧
      (beginning .standard ⟨5⟩ .zero).faults lengthy = [] ∧
      (beginning .standard ⟨0⟩ .zero).accounts brief =
        (beginning .standard ⟨5⟩ .zero).accounts lengthy ∧
      ((beginning .standard ⟨0⟩ .zero).emissions brief).map (fun e => e.report.eta) ≠
        ((beginning .standard ⟨5⟩ .zero).emissions lengthy).map (fun e => e.report.eta) := by
  have h : (beginning .standard ⟨0⟩ .zero).doings brief =
      (beginning .standard ⟨5⟩ .zero).doings lengthy := by decide +kernel
  have hf : (beginning .standard ⟨0⟩ .zero).faults brief = [] := by decide +kernel
  have hf' : (beginning .standard ⟨5⟩ .zero).faults lengthy = [] := by decide +kernel
  refine ⟨h, hf, hf', accounts_of_doings .standard ⟨0⟩ ⟨5⟩ .zero brief lengthy h hf hf', ?_⟩
  decide +kernel

end Headway.Transfer
