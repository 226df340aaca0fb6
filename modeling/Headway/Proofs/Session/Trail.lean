import Headway.Proofs.Session.Simulation
import Headway.Proofs.Transfer.Trail

/-!
The stream of a session only goes up, to the completion at its end.  `Tells` follows the task: as
long as it has not closed, the reports are a trail of its transfer, and after that they are such a
trail with the completion behind it.
-/

namespace Headway.Session

open Transfer (Trail)

structure Telling (s : Session) (es : List Emission) : Prop where
  trail : Trail s.transfer es
  due : ∀ d, s.reporter.task = .waiting d → s.transfer.now.nanos ≤ d.nanos
  notifies : Notifies s

inductive Tells (s : Session) (es : List Emission) : Prop
  | going (h : Telling s es)
  | closed (ht : s.reporter.task = .finished) (hr : s.reporter.startRequested = true)
      (t : Transfer) (ticks : List Emission) (h : Trail t ticks)
      (he : es = ticks ++ [Emission.mk t.now t.finalReport])

variable {s : Session} {es : List Emission} {b d : Instant} {n k : ℕ}

section Task

theorem transfer_tick (s : Session) :
    s.tick.1.transfer = s.transfer.next .tickLive ∧ s.tick.2 = s.transfer.emitted .tickLive := by
  have hnow : (s.transfer.tick s.transfer.live).1.now = s.transfer.now := rfl
  have hstep : s.transfer.step .tickLive = ((s.transfer.tick s.transfer.live).1,
      .ticked (s.transfer.tick s.transfer.live).2) := rfl
  rw [Transfer.next, Transfer.emitted, hstep, ← hnow]
  unfold tick
  rcases s.transfer.tick s.transfer.live with ⟨t, f | r⟩
  · exact ⟨rfl, rfl⟩
  · exact ⟨rfl, rfl⟩

theorem task_tick (s : Session) :
    s.tick.1.reporter.task = .waiting (s.transfer.now.later s.reporter.interval) ∨
      s.tick.1.reporter.task = .broken := by
  have hnow : (s.transfer.tick s.transfer.live).1.now = s.transfer.now := rfl
  rw [← hnow]
  unfold tick
  rcases s.transfer.tick s.transfer.live with ⟨t, f | r⟩
  · exact .inr rfl
  · exact .inl rfl

theorem interval_tick (s : Session) : s.tick.1.reporter.interval = s.reporter.interval := by
  obtain ⟨t, task, h⟩ := tick_moves s
  rw [h]
  rfl

theorem stopRequested_tick (s : Session) :
    s.tick.1.reporter.stopRequested = s.reporter.stopRequested := by
  obtain ⟨t, task, h⟩ := tick_moves s
  rw [h]
  rfl

theorem round_of_waiting (h : s.reporter.task = .waiting d)
    (hs : s.reporter.stopRequested = false) :
    s.round = tick { s with transfer := { s.transfer with now := d } } := by
  rw [round, h]
  exact @turn_of_running { s with transfer := { s.transfer with now := d } } hs

theorem rounds_of_broken (h : s.reporter.task = .broken) (n : ℕ) : rounds n s = (s, []) := by
  induction n with
  | zero => rfl
  | succ n ih =>
    have hr : s.round = (s, []) := by
      rw [round, h]
    rw [rounds, hr]
    simp only [ih, List.append_nil]

theorem rounds_of_waiting (hw : s.reporter.task = .waiting d)
    (hs : s.reporter.stopRequested = false) (hnow : s.transfer.now.nanos ≤ b.nanos)
    (hb : ∀ k < n, (due d s.reporter.interval k).nanos ≤ b.nanos) :
    (rounds n s).1.transfer.now.nanos ≤ b.nanos ∧
      ((rounds n s).1.reporter.task = .waiting (due d s.reporter.interval n) ∨
        (rounds n s).1.reporter.task = .broken) := by
  -- Every round ends at the due time it began with, and sets the next one an interval later.
  induction n generalizing s d with
  | zero =>
    refine ⟨hnow, .inl ?_⟩
    rw [due_zero]
    exact hw
  | succ n ih =>
    let u : Session := { s with transfer := { s.transfer with now := d } }
    have hround : s.round = u.tick := round_of_waiting hw hs
    have hflag : u.tick.1.reporter.stopRequested = false := (stopRequested_tick u).trans hs
    have hu : u.tick.1.transfer.now.nanos ≤ b.nanos := by
      rw [tick_now]
      have hfirst := hb 0 (Nat.succ_pos n)
      rw [due_zero] at hfirst
      exact hfirst
    change (rounds n s.round.1).1.transfer.now.nanos ≤ _ ∧
      ((rounds n s.round.1).1.reporter.task = _ ∨ (rounds n s.round.1).1.reporter.task = _)
    rw [hround]
    rcases task_tick u with ht | ht
    · have hnext := ih ht hflag hu fun k hk => by
        rw [interval_tick, due_later]
        exact hb (k + 1) (Nat.succ_lt_succ hk)
      rw [interval_tick, due_later] at hnext
      exact hnext
    · rw [rounds_of_broken ht]
      exact ⟨hu, .inr ht⟩

theorem lt_dueCount_iff (hi : 0 < s.reporter.interval.nanos) (hw : s.reporter.task = .waiting d) :
    k < s.reporter.dueCount b ↔ (due d s.reporter.interval k).nanos ≤ b.nanos := by
  rw [Reporter.dueCount, hw]
  simp only
  split
  next hle => exact lt_dueBy_iff hi hle
  next hlt =>
    rw [nanos_due]
    omega

theorem dueCount_of_not_waiting (h : ∀ d, s.reporter.task ≠ .waiting d) :
    s.reporter.dueCount b = 0 := by
  rw [Reporter.dueCount]
  split
  next d hd => exact absurd hd (h d)
  next => rfl

end Task

namespace Telling

variable (h : Telling s es)
include h

theorem tick (hw : Awake s) (hs : s.reporter.stopRequested = false) :
    Telling s.tick.1 (es ++ s.tick.2) := by
  obtain ⟨ht, he⟩ := transfer_tick s
  refine ⟨?_, ?_, ?_⟩
  · rw [ht, he]
    exact h.trail.asked rfl
  · intro d hd
    rw [tick_now]
    rcases task_tick s with hw | hw
    · rw [hw] at hd
      cases hd
      simp only [Instant.later]
      omega
    · rw [hw] at hd
      cases hd
  · rw [← turn_of_running hs]
    exact h.notifies.turn hw

theorem moved (hn : s.transfer.now.nanos ≤ b.nanos)
    (hd : ∀ d, s.reporter.task = .waiting d → b.nanos ≤ d.nanos) :
    Telling { s with transfer := { s.transfer with now := b } } es :=
  ⟨h.trail.moved hn, hd, h.notifies.notified, h.notifies.requested⟩

theorem round (hs : s.reporter.stopRequested = false) :
    Telling s.round.1 (es ++ s.round.2) ∧ s.round.1.reporter.stopRequested = false := by
  by_cases hw : ∃ d, s.reporter.task = .waiting d
  · obtain ⟨d, hw⟩ := hw
    have hmoved := h.moved (h.due d hw) fun d' hd' => by
      rw [hw] at hd'
      cases hd'
      exact Int.le_refl _
    rw [round_of_waiting hw hs]
    exact ⟨hmoved.tick (.inr ⟨d, hw⟩) hs, (stopRequested_tick _).trans hs⟩
  · have hr : s.round = (s, []) := by
      rw [Session.round]
      split
      next d hd => exact absurd ⟨d, hd⟩ hw
      next => rfl
    rw [hr, List.append_nil]
    exact ⟨h, hs⟩

theorem rounds (hs : s.reporter.stopRequested = false) (n : ℕ) :
    Telling (rounds n s).1 (es ++ (rounds n s).2) := by
  induction n generalizing s es with
  | zero =>
    rw [Session.rounds, List.append_nil]
    exact h
  | succ n ih =>
    obtain ⟨hround, hflag⟩ := h.round hs
    have hn := ih hround hflag
    rw [List.append_assoc] at hn
    exact hn

theorem pass (hs : s.reporter.stopRequested = false) (hi : 0 < s.reporter.interval.nanos)
    (hb : s.transfer.now.nanos ≤ b.nanos) :
    Telling { (Session.rounds (s.reporter.dueCount b) s).1 with
        transfer := { (Session.rounds (s.reporter.dueCount b) s).1.transfer with now := b } }
      (es ++ (Session.rounds (s.reporter.dueCount b) s).2) := by
  by_cases hw : ∃ d, s.reporter.task = .waiting d
  · obtain ⟨d, hw⟩ := hw
    obtain ⟨hnow, htask⟩ := rounds_of_waiting hw hs hb fun k hk => (lt_dueCount_iff hi hw).mp hk
    apply (h.rounds hs _).moved hnow
    intro d' hd'
    rcases htask with ht | ht
    · rw [ht] at hd'
      cases hd'
      have hlt := mt (lt_dueCount_iff hi hw).mpr (Nat.lt_irrefl (s.reporter.dueCount b))
      omega
    · rw [ht] at hd'
      cases hd'
  · rw [dueCount_of_not_waiting (not_exists.mp hw), Session.rounds, List.append_nil]
    exact h.moved hb fun d hd => absurd ⟨d, hd⟩ hw

theorem poll (hs : s.reporter.stopRequested = false) : Telling s.poll.1 (es ++ s.poll.2) := by
  by_cases ht : s.reporter.task = .started
  · have hp : s.poll = s.tick := by
      rw [Session.poll, ht]
      exact turn_of_running hs
    rw [hp]
    exact h.tick (.inl ht) hs
  · have hp : s.poll = (s, []) := by
      by_cases hw : Awake s
      · obtain ⟨d, hd⟩ := hw.resolve_left ht
        exact h.notifies.poll_of_running hd hs
      · exact poll_of_not_awake hw
    rw [hp, List.append_nil]
    exact h

theorem close {u : Session} (hw : Awake s) (ht : u.reporter.task = .finished)
    (hr : u.reporter.startRequested = s.reporter.startRequested) :
    Tells u (es ++ [⟨s.transfer.now, s.transfer.finalReport⟩]) :=
  .closed ht (hr.trans (h.notifies.startRequested_eq hw)) s.transfer es h.trail rfl

end Telling

namespace Tells

theorem sleepUntil (h : Tells s es) (hi : 0 < s.reporter.interval.nanos)
    (hb : s.transfer.now.nanos ≤ b.nanos) :
    Tells (s.sleepUntil b).1 (es ++ (s.sleepUntil b).2) := by
  cases h with
  | closed ht hr t ticks h he =>
    have hd : s.reporter.dueCount b = 0 :=
      dueCount_of_not_waiting fun d hd => Task.noConfusion (ht.symm.trans hd)
    rw [sleepUntil_of_dueCount (poll_of_not_awake (not_awake_of_finished ht)) hd, List.append_nil]
    exact .closed ht hr t ticks h he
  | going h =>
    cases hs : s.reporter.stopRequested with
    | true =>
      by_cases hw : Awake s
      · obtain ⟨u, hp, hu⟩ := h.notifies.poll_of_stopRequested hw hs
        have hd : u.reporter.dueCount b = 0 :=
          dueCount_of_not_waiting fun d hd => Task.noConfusion (hu.task.symm.trans hd)
        rw [sleepUntil_of_dueCount hp hd]
        exact h.close hw hu.task hu.requested
      · have hwait : ∀ d, s.reporter.task ≠ .waiting d := fun d hd => hw (.inr ⟨d, hd⟩)
        rw [sleepUntil_of_dueCount (poll_of_not_awake hw) (dueCount_of_not_waiting hwait),
          List.append_nil]
        exact .going (h.moved hb fun d hd => absurd hd (hwait d))
    | false =>
      obtain ⟨t, notified, task, hk⟩ := poll_keeps s
      have hinterval : 0 < s.poll.1.reporter.interval.nanos := by
        rw [hk]
        exact hi
      have hflag : s.poll.1.reporter.stopRequested = false := by
        rw [hk]
        exact hs
      have hnow : s.poll.1.transfer.now.nanos ≤ b.nanos := by
        rw [poll_now]
        exact hb
      have hpass := (h.poll hs).pass hflag hinterval hnow
      rw [List.append_assoc] at hpass
      exact .going hpass

theorem stop (h : Tells s es) : Tells s.stop.1 (es ++ s.stop.2) := by
  cases h with
  | closed ht hr t ticks h he =>
    rw [stop_of_finished ht, List.append_nil]
    refine .closed ((task_requestStop s).trans ht) ?_ t ticks h he
    rw [startRequested_requestStop]
    exact hr
  | going h =>
    by_cases hw : Awake s
    · obtain ⟨u, hstop, hu⟩ := stop_of_awake h.notifies hw
      rw [hstop]
      exact h.close hw hu.task hu.requested
    · obtain ⟨u, hstop, ht, htask⟩ := stop_of_not_awake hw
      have hn := h.notifies.stop
      rw [hstop] at hn ⊢
      rw [List.append_nil]
      exact .going ⟨ht ▸ h.trail, fun d hd => absurd hd (htask d), hn⟩

theorem requestStop (h : Tells s es) : Tells s.requestStop es := by
  cases h with
  | closed ht hr t ticks h he =>
    refine .closed ((task_requestStop s).trans ht) ?_ t ticks h he
    rw [startRequested_requestStop]
    exact hr
  | going h =>
    refine .going ⟨h.trail, ?_, h.notifies.requestStop⟩
    rw [task_requestStop]
    exact h.due

theorem start (h : Tells s es) : Tells (s.next .start) es := by
  rw [next, act]
  split
  next => exact h
  next =>
    have hs (hn : Notifies s) := hn.start s.transfer.estimator.evidence.isSome
    obtain ⟨-, hr⟩ | ⟨hn, -, hr⟩ | ⟨hn, -, hr⟩ :=
      start_cases s.reporter s.transfer.estimator.evidence.isSome
    · rw [hr]
      exact h
    · cases h with
      | closed ht hreq =>
        rw [hn] at hreq
        cases hreq
      | going h =>
        rw [hr] at hs ⊢
        exact .going ⟨h.trail, h.due, hs h.notifies⟩
    · cases h with
      | closed ht hreq =>
        rw [hn] at hreq
        cases hreq
      | going h =>
        rw [hr] at hs ⊢
        exact .going ⟨h.trail, fun d hd => Task.noConfusion hd, hs h.notifies⟩

theorem hear (h : Tells s es) (news : News) : Tells (s.next (.hear news)) es := by
  cases h with
  | closed ht hr t ticks h he => exact .closed ht hr t ticks h he
  | going h =>
    refine .going ⟨h.trail.hear news, ?_, h.notifies.next (.hear news)⟩
    intro d hd
    rw [show (s.next (.hear news)).transfer.now = s.transfer.now from
      (Transfer.hear_frame s.transfer news).1]
    exact h.due d hd

theorem next (h : Tells s es) (hi : 0 < s.reporter.interval.nanos) (a : Action) :
    Tells (s.next a) (es ++ (s.act a).2.2) := by
  cases a with
  | start =>
    have he : (s.act .start).2.2 = [] := by
      rw [act]
      split
      · rfl
      · rfl
    rw [he, List.append_nil]
    exact h.start
  | sleep d =>
    apply h.sleepUntil hi
    change _ ≤ s.transfer.now.nanos + (d.slept.nanos : ℤ)
    omega
  | wait => exact h.sleepUntil hi (Int.le_refl _)
  | stop =>
    rw [Session.next, act]
    split
    · rw [List.append_nil]
      exact h
    · exact h.stop
  | signal =>
    rw [show (s.act .signal).2.2 = [] from rfl, List.append_nil]
    exact h.requestStop
  | drop =>
    rw [show (s.act .drop).2.2 = [] from rfl, List.append_nil]
    cases h.requestStop with
    | closed ht hr t ticks h he => exact .closed ht hr t ticks h he
    | going h => exact .going ⟨h.trail, h.due, h.notifies.notified, h.notifies.requested⟩
  | hear news =>
    rw [show (s.act (.hear news)).2.2 = [] from rfl, List.append_nil]
    exact h.hear news

end Tells

section Closing

theorem poll_of_stopRequested (hn : Notifies s) (hs : s.reporter.stopRequested = true) :
    (∀ e ∈ s.poll.2, e = ⟨s.transfer.now, s.transfer.finalReport⟩ ∧
        s.reporter.task ≠ .finished) ∧ ∀ d, s.poll.1.reporter.task ≠ .waiting d := by
  by_cases hw : Awake s
  · obtain ⟨u, hp, hu⟩ := hn.poll_of_stopRequested hw hs
    rw [hp]
    refine ⟨fun e he => ⟨List.mem_singleton.mp he, fun hf => ?_⟩, fun d hd => ?_⟩
    · exact not_awake_of_finished hf hw
    · exact Task.noConfusion (hu.task.symm.trans hd)
  · rw [poll_of_not_awake hw]
    exact ⟨fun e he => absurd he List.not_mem_nil, fun d hd => hw (.inr ⟨d, hd⟩)⟩

theorem completed_of_mem_sleepUntil {e : Emission} (hn : Notifies s)
    (hs : s.reporter.stopRequested = true) (he : e ∈ (s.sleepUntil b).2) :
    e = ⟨s.transfer.now, s.transfer.finalReport⟩ ∧ s.reporter.task ≠ .finished := by
  obtain ⟨htold, htask⟩ := poll_of_stopRequested hn hs
  rw [sleepUntil_of_dueCount rfl (dueCount_of_not_waiting htask)] at he
  exact htold e he

theorem completed_of_mem_act {a : Action} {e : Emission} (hn : Notifies s)
    (hs : ((s.moment a).asksStop || s.reporter.stopRequested) = true) (he : e ∈ (s.act a).2.2) :
    e = ⟨s.transfer.now, s.transfer.finalReport⟩ ∧ s.reporter.task ≠ .finished := by
  cases a with
  | sleep d => exact completed_of_mem_sleepUntil hn hs he
  | wait => exact completed_of_mem_sleepUntil hn hs he
  | stop =>
    rw [act] at he
    split at he
    · cases he
    · change e ∈ s.stop.2 at he
      by_cases hw : Awake s
      · obtain ⟨u, hstop, -⟩ := stop_of_awake hn hw
        rw [hstop] at he
        exact ⟨List.mem_singleton.mp he, fun hf => not_awake_of_finished hf hw⟩
      · obtain ⟨u, hstop, -⟩ := stop_of_not_awake hw
        rw [hstop] at he
        cases he
  | start =>
    rw [act] at he
    split at he
    · cases he
    · cases he
  | signal => cases he
  | drop => cases he
  | hear news => cases he

end Closing

section Starting

variable (config : Config) (options : EstimatorOptions)

theorem tells_after (as : List Action) :
    Tells ((starting config options).after as) ((starting config options).emissions as) := by
  induction as using List.reverseRecOn with
  | nil =>
    refine .going ⟨Transfer.trail_beginning options ⟨0⟩ .zero, ?_, notifies_starting config options⟩
    intro d hd
    cases hd
  | append_singleton as a ih =>
    obtain ⟨hinterval, -⟩ := settings_after (starting config options) as
    have hi : 0 < ((starting config options).after as).reporter.interval.nanos := by
      rw [hinterval]
      exact Nat.lt_of_lt_of_le (by decide) (perMilli_le_interval config)
    rw [after_append, after_singleton, emissions_append, emissions, trace_singleton]
    exact ih.next hi a

theorem stream_ascends (as : List Action) :
    let s := starting config options
    (s.emissions as).Pairwise (fun a b => a.report.UpTo b.report) ∧
      (∀ e ∈ s.emissions as, 0.0 ≤ e.report.percent ∧ e.report.percent ≤ 100.0) ∧
      ∀ before a later, as = before ++ a :: later → stopAsked (s.history (before ++ [a])) = true →
        ∀ e ∈ ((s.after before).act a).2.2,
          e.time = (s.after before).transfer.now ∧
            e.report = .completed (s.after before).transfer.estimator.total
              ((s.after before).transfer.estimator.elapsedSeconds e.time)
              (lastSpeed (s.emissions before)) := by
  intro s
  refine ⟨?_, ?_, ?_⟩
  · cases tells_after config options as with
    | going h => exact h.trail.ordered
    | closed ht hr t ticks h he => exact he ▸ h.finished.1
  · cases tells_after config options as with
    | going h => exact h.trail.bounded
    | closed ht hr t ticks h he => exact he ▸ h.finished.2
  · rintro before a later rfl hstop e he
    rw [history_append_singleton, stopAsked, List.any_cons, ← stopAsked] at hstop
    have hflag := stopRequested_after s before
    rw [show s.reporter.stopRequested = false from rfl, Bool.or_false] at hflag
    rw [← hflag] at hstop
    obtain ⟨he, hopen⟩ := completed_of_mem_act (notifies_after config options before) hstop he
    cases tells_after config options before with
    | closed ht => exact absurd ht hopen
    | going h =>
      rw [he, ← h.trail.speed]
      exact ⟨rfl, rfl⟩

def restarted : List Action :=
  [.hear (.evidence ⟨0, 1000⟩), .hear (.bytes 10), .hear (.live (.setRaw 20)),
    .hear (.live (.setChanged 40)), .start, .wait, .hear (.bytes 70), .hear (.live (.setRaw 90)),
    .hear (.live (.setChanged 300)), .sleep (.ofMillis 3000), .hear (.bytes 5),
    .hear (.live (.setChanged 30)), .sleep (.ofMillis 9000), .hear (.bytes 15)]

theorem stream_ascends_restarted :
    stopAsked ((starting .standard (.ofConfig .standard)).history (restarted ++ [.stop])) = true ∧
      ((starting .standard (.ofConfig .standard)).emissions (restarted ++ [.stop])).map
          (fun e => (e.report.total, e.report.elapsed, e.report.stalled)) =
        [(10, 0, false), (70, 3, false), (70, 6, false), (70, 9, true), (70, 12, true),
          (80, 12, false)] ∧
      ∀ e ∈ (((starting .standard (.ofConfig .standard)).after restarted).act .stop).2.2,
        e.report.speed =
          lastSpeed ((starting .standard (.ofConfig .standard)).emissions restarted) := by
  have hstop : stopAsked ((starting .standard (.ofConfig .standard)).history
      (restarted ++ [.stop])) = true := by decide +kernel
  obtain ⟨-, -, h⟩ := stream_ascends .standard (.ofConfig .standard) (restarted ++ [.stop])
  refine ⟨hstop, by decide +kernel, ?_⟩
  intro e he
  rw [(h restarted .stop [] rfl hstop e he).2]
  rfl

end Starting

end Headway.Session
