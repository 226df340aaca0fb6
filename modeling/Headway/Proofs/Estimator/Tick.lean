import Headway.Estimator

namespace Headway

structure Visit where
  time : Instant
  live : LiveTotals
  evidence : UInt64
  total : UInt64
  stalled : Bool
  deriving DecidableEq

namespace Visit

def Completes (v : Visit) : Prop := v.stalled = false ∧ v.live.changed ≠ 0 ∧ v.evidence ≠ 0

instance (v : Visit) : Decidable v.Completes :=
  inferInstanceAs (Decidable (v.stalled = false ∧ v.live.changed ≠ 0 ∧ v.evidence ≠ 0))

theorem not_completes_iff {v : Visit} (h : v.stalled = false) :
    ¬ v.Completes ↔ v.live.changed = 0 ∨ v.evidence = 0 := by
  simp only [Completes, h, true_and, ne_eq, ← not_or, Decidable.not_not]

def elapsed (v : Visit) (before : Option Instant) : Duration :=
  before.elim .zero v.time.since

def sample (v : Visit) (before : Option Instant) : Sample :=
  ⟨v.live, v.evidence, v.total, v.elapsed before⟩

end Visit

namespace Estimator

variable {e e' : Estimator} {now : Instant} {live : LiveTotals} {r : Option Report}

def stalls (e : Estimator) (now : Instant) : Bool :=
  match e.options.stallThreshold with
  | .ok threshold => decide (threshold.nanos < (e.visit now).time.idle now)
  | .error _ => false

def visit? (e : Estimator) (now : Instant) (live : LiveTotals) : Option Visit :=
  match e.options.enabled, e.evidence with
  | true, some evidence => some ⟨now, live, evidence.total, e.total, e.stalls now⟩
  | _, _ => none

def completed (e : Estimator) (now : Instant) (x : Sample) (accumulated : Duration) : Estimator :=
  { e.visit now with statistics := (e.statistics.observe x).project x accumulated }

inductive Ticks (e : Estimator) (now : Instant) (live : LiveTotals) :
    Estimator → Option Report → Prop where
  | unanswered (h : e.visit? now live = none) : Ticks e now live e none
  | stalled (v : Visit) (h : e.visit? now live = some v) (hs : v.stalled = true) :
      Ticks e now live (e.visit now) (some ((e.visit now).report now true))
  | skipped (v : Visit) (h : e.visit? now live = some v) (hs : v.stalled = false)
      (hc : ¬ v.Completes) : Ticks e now live (e.visit now) none
  | completed (v : Visit) (h : e.visit? now live = some v) (hc : v.Completes)
      (accumulated : Duration) (hn : e.statistics.samples < Count.largest)
      (ha : e.statistics.accumulated.add? (v.elapsed e.time.last) = some accumulated) :
      Ticks e now live (e.completed now (v.sample e.time.last) accumulated)
        (some ((e.completed now (v.sample e.time.last) accumulated).report now false))

theorem add_cases (s : TransferStatistics) (x : Sample) :
    (∃ accumulated, s.samples < Count.largest ∧ s.accumulated.add? x.elapsed = some accumulated ∧
        s.add x = ((s.observe x).project x accumulated, .ok ())) ∨
      (s.samples < Count.largest ∧ s.accumulated.add? x.elapsed = none ∧
        s.add x = (s.observe x, .error .durationSum)) ∨
      (¬ s.samples < Count.largest ∧ s.add x = (s, .error .countSum)) := by
  have ho : (s.observe x).accumulated = s.accumulated := rfl
  by_cases hn : s.samples < Count.largest
  · cases ha : s.accumulated.add? x.elapsed with
    | none => exact .inr (.inl ⟨hn, rfl, by simp [TransferStatistics.add, hn, ho, ha]⟩)
    | some accumulated =>
      exact .inl ⟨accumulated, hn, rfl, by simp [TransferStatistics.add, hn, ho, ha]⟩
  · exact .inr (.inr ⟨hn, by simp [TransferStatistics.add, hn]⟩)

theorem elapsed_eq (v : Visit) : v.elapsed e.time.last = e.time.elapsed v.time := by
  rw [Visit.elapsed, Timeline.elapsed]
  cases e.time.last <;> rfl

theorem visit?_eq_some {v : Visit} (h : e.visit? now live = some v) :
    e.options.enabled = true ∧ e.evidence.map Evidence.total = some v.evidence ∧
      v.time = now ∧ v.live = live ∧ v.total = e.total ∧ v.stalled = e.stalls now := by
  rw [visit?] at h
  split at h
  next evidence he hv =>
    cases h
    exact ⟨he, congrArg (Option.map Evidence.total) hv, rfl, rfl, rfl, rfl⟩
  next => cases h

theorem visit?_eq_none_iff :
    e.visit? now live = none ↔ e.options.enabled = false ∨ e.evidence = none := by
  rw [visit?]
  cases e.options.enabled <;> cases e.evidence <;> simp

theorem tick_of_visit?_none (h : e.visit? now live = none) : e.tick now live = (e, .ok none) := by
  cases he : e.options.enabled with
  | false => simp only [tick, he]
  | true =>
    cases hv : e.evidence with
    | none => simp only [tick, he, hv]
    | some v =>
      simp only [visit?, he, hv] at h
      cases h

theorem tick_of_visit? {v : Visit} (h : e.visit? now live = some v) {threshold : Duration}
    (ht : e.options.stallThreshold = .ok threshold) :
    e.tick now live =
      if v.stalled then (e.visit now, .ok (some ((e.visit now).report now true)))
      else (e.visit now).complete now (v.sample e.time.last) := by
  rw [visit?] at h
  split at h
  next evidence he hv =>
    cases h
    rw [tick]
    split
    next evidence' _ hv' =>
      rw [hv] at hv'
      cases hv'
      simp only [ht, stalls, decide_eq_true_eq, Visit.sample, elapsed_eq]
    next hn => exact absurd hv (hn _ he)
  next => cases h

theorem tick_of_no_threshold {v : Visit} (h : e.visit? now live = some v) {f : Fault}
    (ht : e.options.stallThreshold = .error f) : e.tick now live = (e.visit now, .error f) := by
  rw [visit?] at h
  split at h
  next evidence he hv =>
    rw [tick]
    split
    next => simp only [ht]
    next hn => exact absurd hv (hn _ he)
  next => cases h

theorem time_tick (e : Estimator) (now : Instant) (live : LiveTotals) :
    (e.tick now live).1.time =
      if (e.visit? now live).isSome then e.time.visit now else e.time := by
  cases hv : e.visit? now live with
  | none => simp [tick_of_visit?_none hv]
  | some v =>
    rw [Option.isSome_some, if_pos rfl]
    cases ht : e.options.stallThreshold with
    | error f => rw [tick_of_no_threshold hv ht, visit]
    | ok threshold =>
      rw [tick_of_visit? hv ht, complete]
      split
      · rfl
      · split
        · rfl
        · rfl

theorem tick_frame (e : Estimator) (now : Instant) (live : LiveTotals) :
    (e.tick now live).1.options = e.options ∧ (e.tick now live).1.evidence = e.evidence ∧
      (e.tick now live).1.bytes = e.bytes := by
  cases hv : e.visit? now live with
  | none =>
    rw [tick_of_visit?_none hv]
    exact ⟨rfl, rfl, rfl⟩
  | some v =>
    cases ht : e.options.stallThreshold with
    | error f =>
      rw [tick_of_no_threshold hv ht]
      exact ⟨rfl, rfl, rfl⟩
    | ok threshold =>
      rw [tick_of_visit? hv ht, complete]
      split
      · exact ⟨rfl, rfl, rfl⟩
      · split
        · exact ⟨rfl, rfl, rfl⟩
        · exact ⟨rfl, rfl, rfl⟩

theorem fault_of_stallThreshold {o : EstimatorOptions} {f : Fault}
    (h : o.stallThreshold = .error f) : f = .durationProduct := by
  rw [EstimatorOptions.stallThreshold] at h
  split at h
  next => cases h
  next =>
    cases h
    rfl

theorem fault_cases {f : Fault} (h : e.tick now live = (e', .error f)) :
    (f ≠ .durationSum ∧ e' = e.visit now) ∨
      ∃ v, e.visit? now live = some v ∧ v.Completes ∧ f = .durationSum ∧
        e.statistics.accumulated.add? (v.elapsed e.time.last) = none ∧
        e' = { e.visit now with statistics := e.statistics.observe (v.sample e.time.last) } := by
  -- The sum of the time used is formed after the sample has been observed; all other faults come
  -- before that, and after the visit.
  cases hv : e.visit? now live with
  | none =>
    rw [tick_of_visit?_none hv] at h
    cases h
  | some v =>
    cases ht : e.options.stallThreshold with
    | error f =>
      rw [tick_of_no_threshold hv ht] at h
      cases h
      rw [fault_of_stallThreshold ht]
      exact .inl ⟨by decide, rfl⟩
    | ok threshold =>
      rw [tick_of_visit? hv ht] at h
      split at h
      next => cases h
      next hs =>
        rw [complete] at h
        split at h
        next => cases h
        next hc =>
          have hc : v.Completes := ⟨Bool.eq_false_iff.mpr hs, not_or.mp hc⟩
          obtain ⟨accumulated, -, -, hadd⟩ | ⟨-, ha, hadd⟩ | ⟨-, hadd⟩ :=
            add_cases (e.visit now).statistics (v.sample e.time.last)
          all_goals
            rw [hadd] at h
            cases h
          · exact .inr ⟨v, rfl, hc, rfl, ha, rfl⟩
          · exact .inl ⟨by decide, rfl⟩

theorem tick_of_error {f : Fault} (h : e.tick now live = (e', .error f)) :
    e' = e.visit now ∨
      ∃ x, e' = { e.visit now with statistics := e.statistics.observe x } := by
  obtain ⟨-, he⟩ | ⟨v, -, -, -, -, he⟩ := fault_cases h
  · exact .inl he
  · exact .inr ⟨_, he⟩

theorem ticks_of_tick (h : e.tick now live = (e', .ok r)) : Ticks e now live e' r := by
  cases hv : e.visit? now live with
  | none =>
    rw [tick_of_visit?_none hv] at h
    cases h
    exact .unanswered hv
  | some v =>
    cases ht : e.options.stallThreshold with
    | error f =>
      rw [tick_of_no_threshold hv ht] at h
      cases h
    | ok threshold =>
      rw [tick_of_visit? hv ht] at h
      cases hs : v.stalled with
      | true =>
        rw [hs, if_pos rfl] at h
        cases h
        exact .stalled v hv hs
      | false =>
        rw [hs, if_neg Bool.false_ne_true, complete] at h
        split at h
        next hc =>
          cases h
          apply Ticks.skipped v hv hs
          rintro ⟨-, hchanged, hevidence⟩
          exact hc.elim hchanged hevidence
        next hc =>
          have hc : v.Completes := ⟨hs, not_or.mp hc⟩
          obtain ⟨accumulated, hn, ha, hadd⟩ | ⟨-, -, hadd⟩ | ⟨-, hadd⟩ :=
            add_cases (e.visit now).statistics (v.sample e.time.last)
          all_goals
            rw [hadd] at h
            cases h
          exact .completed v hv hc accumulated hn ha

theorem exists_tick {threshold : Duration} (ht : e.options.stallThreshold = .ok threshold)
    (hn : e.statistics.samples < Count.largest)
    (ha : e.statistics.accumulated.add? (e.time.elapsed now) ≠ none) (live : LiveTotals) :
    ∃ e' r, e.tick now live = (e', .ok r) := by
  cases hv : e.visit? now live with
  | none => exact ⟨e, none, tick_of_visit?_none hv⟩
  | some v =>
    rw [tick_of_visit? hv ht]
    split
    · exact ⟨_, _, rfl⟩
    · rw [complete]
      split
      · exact ⟨_, _, rfl⟩
      · obtain ⟨accumulated, -, -, hadd⟩ | ⟨-, hx, -⟩ | ⟨hx, -⟩ :=
          add_cases (e.visit now).statistics (v.sample e.time.last)
        · rw [hadd]
          exact ⟨_, _, rfl⟩
        · rw [Visit.sample, elapsed_eq, (visit?_eq_some hv).2.2.1] at hx
          exact absurd hx ha
        · exact absurd hn hx

namespace Ticks

variable (h : Ticks e now live e' r)
include h

theorem options_eq : e'.options = e.options := by cases h <;> rfl

theorem stalled_iff {v : Visit} (hv : e.visit? now live = some v) :
    (∃ report, r = some report ∧ report.stalled = true) ↔ v.stalled = true := by
  cases h with
  | unanswered hn =>
    rw [hn] at hv
    cases hv
  | stalled w hw hs =>
    cases hv.symm.trans hw
    exact ⟨fun _ => hs, fun _ => ⟨_, rfl, rfl⟩⟩
  | skipped w hw hs hc =>
    cases hv.symm.trans hw
    rw [hs]
    simp
  | completed w hw hc =>
    cases hv.symm.trans hw
    rw [hc.1]
    simp [report]

theorem eq_completed {v : Visit} (hv : e.visit? now live = some v) (hc : v.Completes) :
    ∃ accumulated, e' = e.completed now (v.sample e.time.last) accumulated := by
  cases h with
  | unanswered hn =>
    rw [hn] at hv
    cases hv
  | stalled w hw hs =>
    cases hv.symm.trans hw
    exact absurd (hs.symm.trans hc.1) Bool.true_eq_false.mp
  | skipped w hw hs hn =>
    cases hv.symm.trans hw
    exact absurd hc hn
  | completed w hw hc accumulated =>
    cases hv.symm.trans hw
    exact ⟨accumulated, rfl⟩

end Ticks

end Estimator

end Headway
