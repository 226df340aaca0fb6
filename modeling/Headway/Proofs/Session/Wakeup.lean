import Headway.Proofs.Session.Flags

namespace Headway.Session

variable {s : Session}

/-- The stop flag and the wake-up go together until the task has closed: there is one to take if it
has been told to stop, and none if it has not. -/
structure Notifies (s : Session) : Prop where
  notified : s.reporter.task ≠ .finished → s.reporter.notified = s.reporter.stopRequested
  requested : s.reporter.task ≠ .absent → s.reporter.startRequested = true

theorem notifies_starting (config : Config) (options : EstimatorOptions) :
    Notifies (starting config options) := ⟨fun _ => rfl, fun h => absurd rfl h⟩

theorem notifies_turn (hn : s.reporter.notified = s.reporter.stopRequested)
    (hr : s.reporter.startRequested = true) : Notifies s.turn.1 := by
  rw [turn]
  split
  · exact ⟨fun h => absurd rfl h, fun _ => hr⟩
  · obtain ⟨t, task, hk⟩ := tick_moves s
    rw [hk]
    exact ⟨fun _ => hn, fun _ => hr⟩

def Awake (s : Session) : Prop :=
  s.reporter.task = .started ∨ ∃ due, s.reporter.task = .waiting due

theorem not_awake_of_finished (h : s.reporter.task = .finished) : ¬ Awake s := by
  rintro (ht | ⟨due, ht⟩)
  · cases h.symm.trans ht
  · cases h.symm.trans ht

theorem poll_of_not_awake (h : ¬ Awake s) : s.poll = (s, []) := by
  rw [poll]
  split
  next ht => exact absurd (.inl ht) h
  next due ht => exact absurd (.inr ⟨due, ht⟩) h
  next => rfl

structure Closed (s u : Session) : Prop where
  task : u.reporter.task = .finished
  transfer : u.transfer = s.transfer
  requested : u.reporter.startRequested = s.reporter.startRequested

namespace Notifies

variable (h : Notifies s)
include h

theorem notified_eq (hw : Awake s) : s.reporter.notified = s.reporter.stopRequested :=
  h.notified fun hf => not_awake_of_finished hf hw

theorem startRequested_eq (hw : Awake s) : s.reporter.startRequested = true := by
  apply h.requested
  rcases hw with ht | ⟨due, ht⟩
  · rw [ht]
    exact Task.noConfusion
  · rw [ht]
    exact Task.noConfusion

theorem turn (hw : Awake s) : Notifies s.turn.1 :=
  notifies_turn (h.notified_eq hw) (h.startRequested_eq hw)

theorem poll_of_stopRequested (hw : Awake s) (hs : s.reporter.stopRequested = true) :
    ∃ u, s.poll = (u, [⟨s.transfer.now, s.transfer.finalReport⟩]) ∧ Closed s u := by
  have hn := (h.notified_eq hw).trans hs
  rcases hw with ht | ⟨due, ht⟩
  · rw [Session.poll, ht]
    exact ⟨_, turn_of_stopRequested hs, rfl, rfl, rfl⟩
  · rw [Session.poll, ht, hn]
    exact ⟨_, @turn_of_stopRequested s.takeNotice hs, rfl, rfl, rfl⟩

theorem poll_of_running {due : Instant} (ht : s.reporter.task = .waiting due)
    (hs : s.reporter.stopRequested = false) : s.poll = (s, []) := by
  have hn := (h.notified_eq (.inr ⟨due, ht⟩)).trans hs
  rw [Session.poll, ht, hn]
  rfl

theorem poll : Notifies s.poll.1 := by
  rw [Session.poll]
  split
  next ht => exact h.turn (.inl ht)
  next due ht =>
    have hw : Awake s := .inr ⟨due, ht⟩
    split
    next hn =>
      -- The wake-up is taken while the flag stays set, but that turn is the last one.
      have hs := (h.notified_eq hw).symm.trans hn
      rw [@turn_of_stopRequested s.takeNotice hs]
      exact ⟨fun hf => absurd rfl hf, fun _ => h.startRequested_eq hw⟩
    next => exact h
  next => exact h

theorem round : Notifies s.round.1 := by
  rw [Session.round]
  split
  next due ht =>
    have hw : Awake s := .inr ⟨due, ht⟩
    exact notifies_turn (h.notified_eq hw) (h.startRequested_eq hw)
  next => exact h

theorem rounds (n : ℕ) : Notifies (rounds n s).1 := by
  induction n generalizing s with
  | zero => exact h
  | succ n ih => exact ih h.round

theorem sleepUntil (b : Instant) : Notifies (s.sleepUntil b).1 := by
  have hn := h.poll.rounds (s.poll.1.reporter.dueCount b)
  exact ⟨hn.notified, hn.requested⟩

theorem requestStop : Notifies s.requestStop := by
  rw [Session.requestStop, Reporter.requestStop]
  split
  next => exact h
  next => exact ⟨fun _ => rfl, h.requested⟩

theorem stop : Notifies s.stop.1 := by
  have hp := h.requestStop.poll
  rw [Session.stop]
  simp only
  split
  next ht =>
    refine ⟨fun hf => absurd rfl hf, fun _ => hp.requested ?_⟩
    rw [ht]
    exact Task.noConfusion
  next => exact hp

theorem start (hasEvidence : Bool) :
    Notifies { s with reporter := (s.reporter.start hasEvidence).1 } := by
  obtain ⟨-, hr⟩ | ⟨-, -, hr⟩ | ⟨hn, -, hr⟩ := start_cases s.reporter hasEvidence
  · rw [hr]
    exact h
  · rw [hr]
    exact ⟨h.notified, fun _ => rfl⟩
  · rw [hr]
    refine ⟨fun _ => h.notified fun hf => ?_, fun _ => rfl⟩
    rw [h.requested (by rw [hf]; exact Task.noConfusion)] at hn
    cases hn

theorem next (a : Action) : Notifies (s.next a) := by
  cases a with
  | start =>
    rw [Session.next, act]
    split
    · exact h
    · exact h.start _
  | sleep d => exact h.sleepUntil _
  | wait => exact h.sleepUntil _
  | stop =>
    rw [Session.next, act]
    split
    · exact h
    · exact h.stop
  | signal => exact h.requestStop
  | drop =>
    have hs := h.requestStop
    exact ⟨hs.notified, hs.requested⟩
  | hear news => exact ⟨h.notified, h.requested⟩

end Notifies

theorem notifies_after (config : Config) (options : EstimatorOptions) (as : List Action) :
    Notifies ((starting config options).after as) := by
  induction as using List.reverseRecOn with
  | nil => exact notifies_starting config options
  | append_singleton as a ih =>
    rw [after_append, after_singleton]
    exact ih.next a

/-- Nobody who has told a task to stop waits out its interval. -/
theorem wakes_after (config : Config) (options : EstimatorOptions) (as : List Action)
    (hs : stopAsked ((starting config options).history as) = true) :
    let s := (starting config options).after as
    (∀ due, s.reporter.task = .waiting due → s.reporter.notified = true) ∧
      (Awake s → ∃ u, s.poll = (u, [⟨s.transfer.now, s.transfer.finalReport⟩]) ∧ Closed s u) := by
  intro s
  have hn : Notifies s := notifies_after config options as
  have hf : s.reporter.stopRequested = true := by
    rw [stopRequested_after, hs]
    rfl
  refine ⟨fun due ht => ?_, fun hw => hn.poll_of_stopRequested hw hf⟩
  exact (hn.notified_eq (.inr ⟨due, ht⟩)).trans hf

end Headway.Session
