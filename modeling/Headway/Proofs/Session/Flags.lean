import Headway.Proofs.Session.History
import Headway.Proofs.Transfer.Run

namespace Headway.Session

variable {s s' s'' : Session}

def Keeps (s s' : Session) : Prop :=
  ∃ transfer notified task, s' = { s with
    transfer := transfer
    reporter := { s.reporter with notified := notified, task := task } }

theorem keeps_refl (s : Session) : Keeps s s :=
  ⟨s.transfer, s.reporter.notified, s.reporter.task, rfl⟩

theorem Keeps.trans (h : Keeps s s') (h' : Keeps s' s'') : Keeps s s'' := by
  obtain ⟨t, notified, task, rfl⟩ := h
  obtain ⟨t', notified', task', rfl⟩ := h'
  exact ⟨t', notified', task', rfl⟩

theorem tick_moves (s : Session) :
    ∃ transfer task, s.tick.1 = ({ s with transfer := transfer } : Session).setTask task := by
  unfold tick
  rcases s.transfer.tick s.transfer.live with ⟨t, _ | _⟩
  · exact ⟨t, _, rfl⟩
  · exact ⟨t, _, rfl⟩

theorem tick_keeps (s : Session) : Keeps s s.tick.1 := by
  obtain ⟨t, task, h⟩ := tick_moves s
  exact ⟨t, s.reporter.notified, task, h⟩

theorem turn_of_running (h : s.reporter.stopRequested = false) : s.turn = s.tick := by
  rw [turn, h]
  rfl

theorem turn_of_stopRequested (h : s.reporter.stopRequested = true) :
    s.turn = (s.setTask .finished, [⟨s.transfer.now, s.transfer.finalReport⟩]) := by
  rw [turn, h]
  rfl

theorem turn_keeps (s : Session) : Keeps s s.turn.1 := by
  rw [turn]
  split
  · exact ⟨s.transfer, s.reporter.notified, _, rfl⟩
  · exact tick_keeps s

theorem poll_keeps (s : Session) : Keeps s s.poll.1 := by
  rw [poll]
  split
  · exact turn_keeps s
  · split
    next =>
      have ht : Keeps s s.takeNotice := ⟨s.transfer, false, s.reporter.task, rfl⟩
      exact ht.trans (turn_keeps _)
    next => exact keeps_refl s
  · exact keeps_refl s

theorem round_keeps (s : Session) : Keeps s s.round.1 := by
  rw [round]
  split
  next d _ =>
    have hd : Keeps s { s with transfer := { s.transfer with now := d } } := ⟨_, _, _, rfl⟩
    exact hd.trans (turn_keeps _)
  next => exact keeps_refl s

theorem rounds_keeps (n : ℕ) (s : Session) : Keeps s (rounds n s).1 := by
  induction n generalizing s with
  | zero => exact keeps_refl s
  | succ n ih => exact (round_keeps s).trans (ih _)

theorem sleepUntil_keeps (s : Session) (t : Instant) : Keeps s (s.sleepUntil t).1 := by
  have h := (poll_keeps s).trans (rounds_keeps (s.poll.1.reporter.dueCount t) _)
  exact h.trans ⟨_, _, _, rfl⟩

section Holds

variable {P : Transfer → Prop} (moved : ∀ t now, P t → P { t with now := now })
  (ticked : ∀ t, P t → P (t.tick t.live).1)

include ticked in
theorem tick_holds {s : Session} (h : P s.transfer) : P s.tick.1.transfer := by
  have ht := ticked _ h
  revert ht
  unfold tick
  rcases s.transfer.tick s.transfer.live with ⟨t, _ | _⟩
  · exact id
  · exact id

include ticked in
theorem turn_holds {s : Session} (h : P s.transfer) : P s.turn.1.transfer := by
  rw [turn]
  split
  · exact h
  · exact tick_holds ticked h

include ticked in
theorem poll_holds {s : Session} (h : P s.transfer) : P s.poll.1.transfer := by
  rw [poll]
  split
  · exact turn_holds ticked h
  · split
    next => exact @turn_holds _ ticked s.takeNotice h
    next => exact h
  · exact h

include moved ticked

theorem round_holds {s : Session} (h : P s.transfer) : P s.round.1.transfer := by
  rw [round]
  split
  next d _ =>
    apply turn_holds ticked
    exact moved _ d h
  next => exact h

theorem rounds_holds (n : ℕ) {s : Session} (h : P s.transfer) : P (rounds n s).1.transfer := by
  induction n generalizing s with
  | zero => exact h
  | succ n ih => exact ih (round_holds moved ticked h)

theorem sleepUntil_holds {s : Session} (h : P s.transfer) (b : Instant) :
    P (s.sleepUntil b).1.transfer :=
  moved _ b (rounds_holds moved ticked _ (poll_holds ticked h))

end Holds

theorem stop_keeps (s : Session) : Keeps s.requestStop s.stop.1 := by
  rw [stop]
  have h := poll_keeps s.requestStop
  simp only
  split
  · exact h.trans ⟨_, _, _, rfl⟩
  · exact h

theorem requestStop_eq (r : Reporter) :
    ∃ notified, r.requestStop = { r with stopRequested := true, notified := notified } := by
  rw [Reporter.requestStop]
  split
  next h => exact ⟨r.notified, by rw [← h]⟩
  next => exact ⟨true, rfl⟩

theorem start_cases (r : Reporter) (hasEvidence : Bool) :
    (r.startRequested = true ∧ r.start hasEvidence = (r, .error .reporterAlreadyStarted)) ∨
      (r.startRequested = false ∧ (r.enabled && !r.dryRun && hasEvidence) = false ∧
        r.start hasEvidence = ({ r with startRequested := true }, .ok false)) ∨
      (r.startRequested = false ∧ (r.enabled && !r.dryRun && hasEvidence) = true ∧
        r.start hasEvidence =
          ({ r with startRequested := true, task := .started }, .ok true)) := by
  unfold Reporter.start
  cases hr : r.startRequested with
  | true => exact .inl ⟨rfl, rfl⟩
  | false =>
    cases r.enabled with
    | false => exact .inr (.inl ⟨rfl, rfl, by simp⟩)
    | true =>
      cases r.dryRun with
      | true => exact .inr (.inl ⟨rfl, rfl, by simp⟩)
      | false =>
        cases hasEvidence with
        | false => exact .inr (.inl ⟨rfl, rfl, by simp⟩)
        | true => exact .inr (.inr ⟨rfl, rfl, by simp⟩)

theorem start_eq (r : Reporter) (hasEvidence : Bool) :
    ∃ task, (r.start hasEvidence).1 = { r with startRequested := true, task := task } := by
  obtain ⟨h, hr⟩ | ⟨-, -, hr⟩ | ⟨-, -, hr⟩ := start_cases r hasEvidence
  · rw [hr, ← h]
    exact ⟨r.task, rfl⟩
  · rw [hr]
    exact ⟨r.task, rfl⟩
  · rw [hr]
    exact ⟨.started, rfl⟩

theorem next_eq (s : Session) (a : Action) :
    ∃ transfer notified task, s.next a = ⟨transfer, { s.reporter with
      startRequested := s.reporter.startRequested || (decide (a = .start) && !s.dropped)
      stopRequested := (s.moment a).asksStop || s.reporter.stopRequested
      notified := notified
      task := task }, s.dropped || decide (a = .drop)⟩ := by
  obtain ⟨asked, hasked⟩ := requestStop_eq s.reporter
  cases a with
  | start =>
    cases hd : s.dropped with
    | true =>
      refine ⟨s.transfer, s.reporter.notified, s.reporter.task, ?_⟩
      simp [next, act, moment, Moment.asksStop, hd]
      rw [← hd]
    | false =>
      obtain ⟨task, h⟩ := start_eq s.reporter s.transfer.estimator.evidence.isSome
      refine ⟨s.transfer, s.reporter.notified, task, ?_⟩
      simp [next, act, moment, Moment.asksStop, hd, h]
  | sleep d =>
    obtain ⟨t, notified, task, h⟩ := sleepUntil_keeps s (s.transfer.now.later d.slept)
    refine ⟨t, notified, task, ?_⟩
    simp [next, act, moment, Moment.asksStop, h]
  | wait =>
    obtain ⟨t, notified, task, h⟩ := sleepUntil_keeps s s.transfer.now
    refine ⟨t, notified, task, ?_⟩
    simp [next, act, moment, Moment.asksStop, h]
  | stop =>
    cases hd : s.dropped with
    | true =>
      refine ⟨s.transfer, s.reporter.notified, s.reporter.task, ?_⟩
      simp [next, act, moment, Moment.asksStop, hd]
      rw [← hd]
    | false =>
      obtain ⟨t, notified, task, h⟩ := stop_keeps s
      refine ⟨t, notified, task, ?_⟩
      simp [next, act, moment, Moment.asksStop, hd, h, requestStop, hasked]
  | signal =>
    refine ⟨s.transfer, asked, s.reporter.task, ?_⟩
    simp [next, act, moment, Moment.asksStop, requestStop, hasked]
  | drop =>
    refine ⟨s.transfer, asked, s.reporter.task, ?_⟩
    simp [next, act, moment, Moment.asksStop, requestStop, hasked]
  | hear news =>
    refine ⟨(s.transfer.hear news).1, s.reporter.notified, s.reporter.task, ?_⟩
    simp [next, act, moment, Moment.asksStop]

theorem settings_after (s : Session) (as : List Action) :
    (s.after as).reporter.interval = s.reporter.interval ∧
      (s.after as).reporter.enabled = s.reporter.enabled ∧
      (s.after as).reporter.dryRun = s.reporter.dryRun := by
  induction as using List.reverseRecOn with
  | nil => exact ⟨rfl, rfl, rfl⟩
  | append_singleton as a ih =>
    obtain ⟨t, notified, task, h⟩ := next_eq (s.after as) a
    rw [after_append, after_singleton, h]
    exact ih

theorem dropped_after (s : Session) (as : List Action) :
    (s.after as).dropped = (s.dropped || decide (.drop ∈ as)) := by
  induction as using List.reverseRecOn with
  | nil => simp [after]
  | append_singleton as a ih =>
    obtain ⟨t, notified, task, h⟩ := next_eq (s.after as) a
    rw [after_append, after_singleton, h]
    simp only [ih, Bool.or_assoc, List.mem_append, List.mem_singleton, Bool.decide_or]
    simp [eq_comm]

theorem stopRequested_after (s : Session) (as : List Action) :
    (s.after as).reporter.stopRequested =
      (stopAsked (s.history as) || s.reporter.stopRequested) := by
  induction as using List.reverseRecOn with
  | nil => rfl
  | append_singleton as a ih =>
    obtain ⟨t, notified, task, h⟩ := next_eq (s.after as) a
    rw [after_append, after_singleton, h, history_append_singleton]
    simp only [ih, stopAsked, List.any_cons, Bool.or_assoc]

theorem startRequested_after (s : Session) (as : List Action) (hd : (s.after as).dropped = false) :
    (s.after as).reporter.startRequested =
      (s.reporter.startRequested || decide (.start ∈ as)) := by
  induction as using List.reverseRecOn with
  | nil => simp [after]
  | append_singleton as a ih =>
    obtain ⟨t, notified, task, h⟩ := next_eq (s.after as) a
    rw [after_append, after_singleton, h] at hd ⊢
    have hd : (s.after as).dropped = false := (Bool.or_eq_false_iff.mp hd).1
    simp only [ih hd, hd, Bool.not_false, Bool.and_true, Bool.or_assoc, List.mem_append,
      List.mem_singleton, Bool.decide_or]
    simp [eq_comm]

theorem starts_moment {s : Session} {a : Action} (h : (s.moment a).starts = true) :
    a = .start ∧ s.dropped = false := by
  cases a with
  | start =>
    cases hd : s.dropped with
    | true =>
      simp [moment, act, Moment.starts, hd] at h
    | false => exact ⟨rfl, rfl⟩
  | sleep => cases h
  | wait => cases h
  | stop =>
    cases hd : s.dropped with
    | true => simp [moment, act, Moment.starts, hd] at h
    | false => simp [moment, act, Moment.starts, hd] at h
  | signal => cases h
  | drop => cases h
  | hear => cases h

theorem startRequested_of_started (s : Session) (as : List Action)
    (h : started (s.history as) = true) : (s.after as).reporter.startRequested = true := by
  induction as using List.reverseRecOn with
  | nil => cases h
  | append_singleton as a ih =>
    obtain ⟨t, notified, task, hn⟩ := next_eq (s.after as) a
    rw [after_append, after_singleton, hn]
    rw [history_append_singleton, started, List.any_cons, Bool.or_eq_true] at h
    rcases h with h | h
    · obtain ⟨rfl, hd⟩ := starts_moment h
      simp [hd]
    · simp [ih h]

theorem not_starts_of_startRequested {s : Session} (h : s.reporter.startRequested = true)
    (a : Action) : (s.moment a).starts = false := by
  cases hs : (s.moment a).starts with
  | false => rfl
  | true =>
    obtain ⟨rfl, hd⟩ := starts_moment hs
    obtain ⟨-, hr⟩ | ⟨hn, -, -⟩ | ⟨hn, -, -⟩ :=
      start_cases s.reporter s.transfer.estimator.evidence.isSome
    · simp [moment, act, Moment.starts, hd, hr] at hs
    · rw [h] at hn
      cases hn
    · rw [h] at hn
      cases hn

theorem startRequested_of_before {s : Session} (h : s.reporter.startRequested = true)
    (as : List Action) : (s.after as).reporter.startRequested = true := by
  induction as using List.reverseRecOn with
  | nil => exact h
  | append_singleton as a ih =>
    obtain ⟨t, notified, task, hn⟩ := next_eq (s.after as) a
    rw [after_append, after_singleton, hn]
    simp [ih]

theorem started_of_startRequested (s : Session) (before later : List Action)
    (h : (s.after before).reporter.startRequested = true) :
    started (s.history (before ++ later)) = started (s.history before) := by
  induction later using List.reverseRecOn with
  | nil => rw [List.append_nil]
  | append_singleton later a ih =>
    have hreq := startRequested_of_before h later
    rw [← after_append] at hreq
    rw [← List.append_assoc, history_append_singleton,
      started_cons (not_starts_of_startRequested hreq a), ih]

section Clock

theorem tick_now (s : Session) : s.tick.1.transfer.now = s.transfer.now := by
  have h : (s.transfer.tick s.transfer.live).1.now = s.transfer.now := rfl
  unfold tick
  revert h
  rcases s.transfer.tick s.transfer.live with ⟨t, _ | _⟩
  · exact id
  · exact id

theorem turn_now (s : Session) : s.turn.1.transfer.now = s.transfer.now := by
  rw [turn]
  split
  · rfl
  · exact tick_now s

theorem poll_now (s : Session) : s.poll.1.transfer.now = s.transfer.now := by
  rw [poll]
  split
  · exact turn_now s
  · split
    next => exact turn_now s.takeNotice
    next => rfl
  · rfl

theorem next_now (s : Session) (a : Action) : (s.next a).transfer.now = (s.moment a).ends := by
  cases a with
  | start =>
    rw [next, act]
    split
    · rfl
    · rfl
  | sleep d => rfl
  | wait => rfl
  | stop =>
    rw [next, act]
    split
    · rfl
    · have h := poll_now s.requestStop
      change s.stop.1.transfer.now = s.transfer.now
      rw [stop]
      simp only
      split
      · exact h
      · exact h
  | signal => rfl
  | drop => rfl
  | hear news => exact (Transfer.hear_frame s.transfer news).1

theorem le_ends (m : Moment) : m.time.nanos ≤ m.ends.nanos := by
  rw [Moment.ends]
  split
  next d _ =>
    change m.time.nanos ≤ m.time.nanos + (d.slept.nanos : Int)
    omega
  next => exact Int.le_refl _

theorem now_le_after (s : Session) (as : List Action) :
    s.transfer.now.nanos ≤ (s.after as).transfer.now.nanos := by
  induction as using List.reverseRecOn with
  | nil => exact Int.le_refl _
  | append_singleton as a ih =>
    rw [after_append, after_singleton, next_now]
    exact Int.le_trans ih (le_ends _)

/-- Nothing takes the clock off whole milliseconds, so that a timer rounds the end of a sleep just
as it rounds the length. -/
theorem perMilli_dvd_after (s : Session) (as : List Action)
    (h : (Duration.perMilli : Int) ∣ s.transfer.now.nanos) :
    (Duration.perMilli : Int) ∣ (s.after as).transfer.now.nanos := by
  induction as using List.reverseRecOn with
  | nil => exact h
  | append_singleton as a ih =>
    rw [after_append, after_singleton, next_now, Moment.ends]
    split
    next d _ =>
      apply Int.dvd_add ih
      exact Int.natCast_dvd_natCast.mpr d.perMilli_dvd_nanos_slept
    next => exact ih

end Clock

end Headway.Session
