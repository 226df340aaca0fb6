import Headway.Proofs.Session.Simulation

namespace Headway

def ReporterState.rank : ReporterState → ℕ
  | .idle => 0
  | .running => 1
  | .stopped => 2

namespace Session

def stateOf (past : List Moment) : ReporterState :=
  if (closing? past).isSome then .stopped else if started past then .running else .idle

structure Lifecycle (config : Config) (options : EstimatorOptions) (s : Session)
    (as : List Action) : Prop where
  silent : started (s.history as) = false → s.emissions as = []
  stream : ∃ ops completion,
    s.emissions as = (Transfer.starting options).emissions ops ++ completion ∧
    completion.map Emission.time = (closing? (s.history as)).toList ∧
    ∀ e ∈ completion, (∃ total elapsed speed, e.report = .completed total elapsed speed) ∧
      e.report.percent = 100.0 ∧ e.report.eta = 0 ∧ e.report.stalled = false
  ended : ∀ before later, as = before ++ later → (closing? (s.history before)).isSome = true →
    s.emissions as = s.emissions before
  state : (s.after as).state? = if .drop ∈ as then none else some (stateOf (s.history as))
  forward : ∀ before later, as = before ++ later →
    (stateOf (s.history before)).rank ≤ (stateOf (s.history as)).rank
  starts : ∀ before later, as = before ++ .start :: later →
    ((s.after before).act .start).2.1 =
      if .drop ∈ before then .gone
      else if .start ∈ before then .started (.error .reporterAlreadyStarted)
      else .started (.ok (config.enabled && !config.dryRun &&
        (s.after before).transfer.estimator.evidence.isSome))
  refused : ∀ before later, as = before ++ .start :: later → .drop ∉ before → .start ∉ before →
    (config.enabled && !config.dryRun &&
      (s.after before).transfer.estimator.evidence.isSome) = false →
    stateOf (s.history as) = .idle ∧ s.emissions as = []

variable {options : EstimatorOptions} {interval : Duration} {past : List Moment} {s : Session}
  {stream : List Emission}

theorem rank_stateOf (past : List Moment) :
    (stateOf past).rank =
      (if started past then 1 else 0) + if (closing? past).isSome then 1 else 0 := by
  rw [stateOf]
  cases hc : closing? past with
  | some t => rw [(of_closing? hc).1]; rfl
  | none => cases started past <;> rfl

theorem rank_stateOf_append (new past : List Moment) :
    (stateOf past).rank ≤ (stateOf (new ++ past)).rank := by
  rw [rank_stateOf, rank_stateOf, started_append]
  refine Nat.add_le_add ?_ ?_
  · cases started past with
    | false => exact Nat.zero_le _
    | true => exact Nat.le_of_eq (by rw [Bool.or_true])
  · cases hc : closing? past with
    | none => exact Nat.zero_le _
    | some t => exact Nat.le_of_eq (by rw [closing?_append hc])

theorem Phase.state_eq (h : Phase interval past s) : s.reporter.state = stateOf past := by
  cases h with
  | absent hs hf hc ht => rw [Reporter.state, ht, stateOf, hc, hs]; rfl
  | started hs hf hc ht => rw [Reporter.state, ht, stateOf, hc, hs]; rfl
  | waiting first hs hf hc hle h0 ht => rw [Reporter.state, ht, stateOf, hc, hs]; rfl
  | finished t hs ha hc ht => rw [Reporter.state, ht, stateOf, hc]; rfl

theorem Follows.silent (h : Follows options interval past s stream) (hs : started past = false) :
    stream = [] := by
  cases h.phase with
  | absent _ hf hc =>
    have ht := h.times.trans (timetable_of_none hf _)
    rw [h.stream, Transfer.emissions_eq_nil ht, completion_of_closing?_none hc]
    rfl
  | started h' => rw [hs] at h'; cases h'
  | waiting first h' => rw [hs] at h'; cases h'
  | finished t h' => rw [hs] at h'; cases h'

theorem completed_of_mem_completion {e : Emission} (h : e ∈ completion options interval past) :
    (∃ total elapsed speed, e.report = .completed total elapsed speed) ∧
      e.report.percent = 100.0 ∧ e.report.eta = 0 ∧ e.report.stalled = false := by
  induction past with
  | nil => cases h
  | cons m past ih =>
    rw [completion, List.mem_append] at h
    rcases h with h | h
    · exact ih h
    · split at h
      next =>
        rw [List.mem_singleton.mp h]
        exact ⟨⟨_, _, _, rfl⟩, rfl, rfl, rfl⟩
      next => cases h

section Starting

variable (config config' : Config)

theorem emissions_after_closing {before later : List Action} {t : Instant}
    (hb : InTime ((starting config (.ofConfig config')).after (before ++ later)).transfer.now)
    (hc : closing? ((starting config (.ofConfig config')).history before) = some t) :
    (starting config (.ofConfig config')).emissions (before ++ later) =
      (starting config (.ofConfig config')).emissions before := by
  have h := follows_history config config' _ hb
  rw [after_append] at hb
  have hbefore := follows_history config config' before
    (Int.lt_of_le_of_lt (now_le_after _ later) hb)
  have htimes := h.times
  rw [timetable_append_of_stopAsked _ _ before later (of_closing? hc).2, ← hbefore.times] at htimes
  rw [h.stream, hbefore.stream]
  rw [history_append] at htimes ⊢
  obtain ⟨ops, hops⟩ := calls_append (Reporter.ofConfig config).interval
    (((starting config (.ofConfig config')).after before).history later)
    ((starting config (.ofConfig config')).history before)
  rw [hops, Transfer.tickTimes_append, List.append_right_eq_self] at htimes
  rw [hops, Transfer.emissions_append, Transfer.emissions_eq_nil htimes, completion_append hc,
    List.append_nil]

theorem answer_start (options : EstimatorOptions) (before : List Action) :
    (((starting config options).after before).act .start).2.1 =
      if .drop ∈ before then .gone
      else if .start ∈ before then .started (.error .reporterAlreadyStarted)
      else .started (.ok (config.enabled && !config.dryRun &&
        ((starting config options).after before).transfer.estimator.evidence.isSome)) := by
  obtain ⟨-, he, hr⟩ := settings_after (starting config options) before
  have hd := dropped_after (starting config options) before
  by_cases hdrop : .drop ∈ before
  · rw [if_pos hdrop, act, hd, decide_eq_true hdrop, Bool.or_true]
    rfl
  · rw [decide_eq_false hdrop, Bool.or_false] at hd
    have hreq := startRequested_after (starting config options) before hd
    rw [if_neg hdrop, act, hd]
    change Answer.started (Reporter.start _ _).2 = _
    by_cases hstart : .start ∈ before
    · rw [decide_eq_true hstart, Bool.or_true] at hreq
      obtain ⟨-, h⟩ | ⟨hn, -⟩ | ⟨hn, -⟩ := start_cases
        ((starting config options).after before).reporter
        ((starting config options).after before).transfer.estimator.evidence.isSome
      · rw [if_pos hstart, h]
      · rw [hreq] at hn
        cases hn
      · rw [hreq] at hn
        cases hn
    · rw [decide_eq_false hstart, Bool.or_false] at hreq
      obtain ⟨hn, -⟩ | ⟨-, hs, h⟩ | ⟨-, hs, h⟩ := start_cases
        ((starting config options).after before).reporter
        ((starting config options).after before).transfer.estimator.evidence.isSome
      · rw [hreq] at hn
        cases hn
      · rw [he, hr] at hs
        change (config.enabled && !config.dryRun && _) = false at hs
        rw [if_neg hstart, h, hs]
      · rw [he, hr] at hs
        change (config.enabled && !config.dryRun && _) = true at hs
        rw [if_neg hstart, h, hs]

theorem started_of_refused (options : EstimatorOptions) {before : List Action}
    (later : List Action) (hdrop : .drop ∉ before) (hstart : .start ∉ before)
    (hr : (config.enabled && !config.dryRun &&
      ((starting config options).after before).transfer.estimator.evidence.isSome) = false) :
    started ((starting config options).history (before ++ .start :: later)) = false := by
  have hd := dropped_after (starting config options) before
  rw [decide_eq_false hdrop, Bool.or_false] at hd
  have hreq := startRequested_after (starting config options) before hd
  rw [decide_eq_false hstart, Bool.or_false] at hreq
  have hbefore : started ((starting config options).history before) = false := by
    rw [← Bool.not_eq_true]
    intro hs
    rw [startRequested_of_started _ _ hs] at hreq
    cases hreq
  have ha := answer_start config options before
  rw [if_neg hdrop, if_neg hstart, hr] at ha
  have hnext : ((starting config options).after (before ++ [.start])).reporter.startRequested =
      true := by
    obtain ⟨t, notified, task, hn⟩ := next_eq ((starting config options).after before) .start
    rw [after_append, after_singleton, hn, hd]
    exact Bool.or_true _
  rw [List.append_cons, started_of_startRequested _ _ later hnext, history_append_singleton,
    started_cons, hbefore]
  rw [Moment.starts, moment, ha]

end Starting

theorem session_lifecycle (config config' : Config) (as : List Action)
    (hb : InTime ((starting config (.ofConfig config')).after as).transfer.now) :
    Lifecycle config (.ofConfig config') (starting config (.ofConfig config')) as := by
  have h := follows_history config config' as hb
  have hdropped := dropped_after (starting config (.ofConfig config')) as
  refine ⟨h.silent, ?_, ?_, ?_, ?_, ?_, ?_⟩
  · exact ⟨_, _, h.stream, time_completion _ _ _, fun e he => completed_of_mem_completion he⟩
  · rintro before later rfl hc
    obtain ⟨t, hc⟩ := Option.isSome_iff_exists.mp hc
    exact emissions_after_closing config config' hb hc
  · rw [state?, h.phase.state_eq, hdropped]
    by_cases hd : .drop ∈ as
    · rw [if_pos hd, decide_eq_true hd, Bool.or_true]
      rfl
    · rw [if_neg hd, decide_eq_false hd, Bool.or_false]
      rfl
  · rintro before later rfl
    rw [history_append]
    exact rank_stateOf_append _ _
  · rintro before later rfl
    exact answer_start config _ before
  · rintro before later rfl hdrop hstart hr
    have hs := started_of_refused config _ later hdrop hstart hr
    refine ⟨?_, h.silent hs⟩
    rw [stateOf, hs]
    cases hc : closing?
      ((starting config (.ofConfig config')).history (before ++ .start :: later)) with
    | none => rfl
    | some t =>
      rw [(of_closing? hc).1] at hs
      cases hs

def stoppedLate : List Action :=
  [.hear (.evidence ⟨0, 1000⟩), .hear (.live (.setChanged 40)), .start, .wait,
    .sleep (.ofMillis 3000), .signal, .stop, .sleep (.ofMillis 3000)]

theorem session_lifecycle_stoppedLate :
    InTime ((starting .standard (.ofConfig .standard)).after stoppedLate).transfer.now ∧
      Lifecycle .standard (.ofConfig .standard) (starting .standard (.ofConfig .standard))
        stoppedLate ∧
      ((starting .standard (.ofConfig .standard)).emissions stoppedLate).map Emission.time =
        [⟨0⟩, ⟨3000000000⟩, ⟨3000000000⟩] ∧
      ((starting .standard (.ofConfig .standard)).emissions stoppedLate).getLast?.map
          (fun e => (e.report.percent, e.report.eta, e.report.stalled)) =
        some (100.0, 0, false) := by
  have hb : InTime ((starting .standard (.ofConfig .standard)).after stoppedLate).transfer.now := by
    unfold InTime
    decide +kernel
  refine ⟨hb, session_lifecycle .standard .standard stoppedLate hb, ?_, ?_⟩
  · decide +kernel
  · decide +kernel

-- Told to stop before it has run, the task has nothing to tell but the completion.
example : ((starting .standard (.ofConfig .standard)).emissions
    [.signal, .hear (.evidence ⟨0, 1000⟩), .start, .sleep (.ofMillis 10), .start, .stop]).map
      (fun e => (e.time, e.report.percent)) = [(⟨0⟩, 100.0)] := by
  decide +kernel

end Session

end Headway
