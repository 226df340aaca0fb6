import Headway.Proofs.Session.Calls
import Headway.Proofs.Session.Wakeup

namespace Headway.Session

open Transfer (Operation)

variable {s : Session} {n : ℕ}

/-- The time fits the 64-bit milliseconds in which the runtime counts. -/
def InTime (t : Instant) : Prop := t.nanos < Count.largest * Duration.perMilli

theorem InTime.lt_limit {t : Instant} (h : InTime t) : t.nanos < Duration.limit := by
  simp only [InTime, Count.largest, Duration.perMilli] at h
  simp only [Duration.limit]
  omega

theorem InTime.lt_add_limit {a b : Instant} (hb : InTime b) (ha : 0 ≤ a.nanos) :
    b.nanos < a.nanos + Duration.limit := by
  have hl := hb.lt_limit
  omega

theorem tick_eq (h : s.transfer.Steady n) (hn : n < Count.largest) (hc : InTime s.transfer.now) :
    s.tick = (({ s with transfer := s.transfer.next .tickLive } : Session).setTask
        (.waiting (s.transfer.now.later s.reporter.interval)), s.transfer.emitted .tickLive) ∧
      (s.transfer.next .tickLive).Steady (n + 1) ∧
      (s.transfer.next .tickLive).now = s.transfer.now := by
  obtain ⟨e, r, ht, hs⟩ := h.tick hn hc.lt_limit s.transfer.live
  have htick : s.transfer.tick s.transfer.live = ({ s.transfer with estimator := e }, .ok r) := by
    rw [Transfer.tick, ht]
  have hstep : s.transfer.step .tickLive =
      ({ s.transfer with estimator := e }, .ticked (.ok r)) := by
    rw [Transfer.step, htick]
  rw [tick, htick, Transfer.next, Transfer.emitted, hstep]
  exact ⟨rfl, hs, rfl⟩

theorem lt_largest_of_due {first b : Instant} {interval : Duration}
    (hi : Duration.perMilli ≤ interval.nanos) (hf : 0 ≤ first.nanos)
    (hd : (due first interval n).nanos ≤ b.nanos) (hb : InTime b) : n < Count.largest := by
  rw [nanos_due] at hd
  rw [InTime] at hb
  have hm := Nat.mul_le_mul_left n hi
  by_contra hn
  have hl := Nat.mul_le_mul_right Duration.perMilli (Nat.le_of_not_lt hn)
  omega

theorem dueBy_le {first b : Instant} {interval : Duration}
    (hi : Duration.perMilli ≤ interval.nanos) (hf : 0 ≤ first.nanos)
    (hle : first.nanos ≤ b.nanos) (hb : InTime b) : dueBy first interval b ≤ Count.largest := by
  have hpos : 0 < interval.nanos := Nat.lt_of_lt_of_le (by decide) hi
  have hd := (lt_dueBy_iff hpos hle).mp (Nat.lt_succ_self _)
  exact lt_largest_of_due hi hf hd hb

theorem rounds_eq {first b : Instant} {k : ℕ} (h : s.transfer.Steady n)
    (hi : Duration.perMilli ≤ s.reporter.interval.nanos) (hf : 0 ≤ first.nanos)
    (hnow : 0 ≤ s.transfer.now.nanos) (hb : InTime b)
    (hw : s.reporter.task = .waiting (due first s.reporter.interval n))
    (hs : s.reporter.stopRequested = false)
    (ha : Ascending s.transfer.now ((List.range' n k).map (due first s.reporter.interval)) b) :
    let ops := walk s.transfer.now ((List.range' n k).map (due first s.reporter.interval)) b
    ∃ t : Transfer, { t with now := b } = s.transfer.after ops ∧
      (s.transfer.after ops).Steady (n + k) ∧
      rounds k s = (({ s with transfer := t } : Session).setTask
        (.waiting (due first s.reporter.interval (n + k))), s.transfer.emissions ops) := by
  have hbound := hb.lt_add_limit hnow
  induction k generalizing s n with
  | zero =>
    refine ⟨s.transfer, ?_, ?_, ?_⟩
    · exact (after_walk_nil ha hbound).symm
    · change (s.transfer.after (walk s.transfer.now [] b)).Steady n
      rw [after_walk_nil ha hbound]
      exact h.moved ha
    · rw [rounds]
      change (s, []) = (s.setTask (.waiting (due first s.reporter.interval n)), [])
      rw [setTask, ← hw]
  | succ k ih =>
    rw [List.range'_succ, List.map_cons] at ha ⊢
    obtain ⟨hd, ha⟩ := ha
    have hdb := ha.le
    have hdue : InTime (due first s.reporter.interval n) := Int.lt_of_le_of_lt hdb hb
    have hn := lt_largest_of_due hi hf hdb hb
    have hu : (due first s.reporter.interval n).nanos < s.transfer.now.nanos + Duration.limit :=
      Int.lt_of_le_of_lt hdb hbound
    let u : Transfer := { s.transfer with now := due first s.reporter.interval n }
    let v : Session := ({ s with transfer := u.next .tickLive } : Session).setTask
      (.waiting (due first s.reporter.interval (n + 1)))
    obtain ⟨htick, hsteady, hlater⟩ := tick_eq (s := { s with transfer := u }) (h.moved hd) hn hdue
    have hround : s.round = (v, u.emitted .tickLive) := by
      rw [round, hw]
      change turn { s with transfer := u } = _
      rw [@turn_of_running { s with transfer := u } hs, htick]
      change (_, _) = (Session.setTask _ _, _)
      rw [← later_due]
    have hv : v.transfer.now = due first s.reporter.interval n := hlater
    obtain ⟨t, ht, hst, hr⟩ := ih (s := v) hsteady hi (by rw [hv]; exact Int.le_trans hnow hd) rfl
      hs (by rw [hv]; exact ha) (by rw [hv]; omega)
    refine ⟨t, ?_, ?_, ?_⟩
    · rw [after_walk_cons hd hu, ht, hv]
      rfl
    · rw [after_walk_cons hd hu]
      rw [hv, Nat.add_right_comm] at hst
      exact hst
    · rw [rounds, hround, emissions_walk_cons hd hu]
      simp only
      rw [hr, hv, Nat.add_right_comm]
      rfl

theorem sleepUntil_of_dueCount {b : Instant} {es : List Emission} {u : Session}
    (hp : s.poll = (u, es)) (hd : u.reporter.dueCount b = 0) :
    s.sleepUntil b = ({ u with transfer := { u.transfer with now := b } }, es) := by
  rw [sleepUntil, hp]
  simp only [hd, rounds, List.append_nil]

structure Awaits (s : Session) (first : Instant) (n : ℕ) : Prop where
  interval : Duration.perMilli ≤ s.reporter.interval.nanos
  nonneg : 0 ≤ first.nanos
  first_le : first.nanos ≤ s.transfer.now.nanos
  le_due : s.transfer.now.nanos ≤ (due first s.reporter.interval n).nanos
  task : s.reporter.task = .waiting (due first s.reporter.interval n)
  running : s.reporter.stopRequested = false
  quiet : s.reporter.notified = false
  steady : s.transfer.Steady n

theorem Awaits.sleepUntil {first b : Instant} (h : Awaits s first n)
    (hnow : s.transfer.now.nanos ≤ b.nanos) (hb : InTime b)
    (hn : n ≤ dueBy first s.reporter.interval b) :
    let ts := (List.range' n (dueBy first s.reporter.interval b - n)).map
      (due first s.reporter.interval)
    Ascending s.transfer.now ts b ∧
      (s.transfer.after (walk s.transfer.now ts b)).Steady (dueBy first s.reporter.interval b) ∧
      s.sleepUntil b = (({ s with transfer := s.transfer.after (walk s.transfer.now ts b) } :
          Session).setTask (.waiting (due first s.reporter.interval
            (dueBy first s.reporter.interval b))),
        s.transfer.emissions (walk s.transfer.now ts b)) := by
  intro ts
  have hpos : 0 < s.reporter.interval.nanos := Nat.lt_of_lt_of_le (by decide) h.interval
  have hfirst := Int.le_trans h.first_le hnow
  have ha : Ascending s.transfer.now ts b := by
    apply ascending_due hnow h.le_due
    intro i hi
    rw [Nat.add_sub_cancel' hn] at hi
    exact (lt_dueBy_iff hpos hfirst).mp hi
  obtain ⟨t, ht, hst, hr⟩ :=
    rounds_eq h.steady h.interval h.nonneg (Int.le_trans h.nonneg h.first_le) hb h.task
      h.running ha
  rw [Nat.add_sub_cancel' hn] at hst hr
  refine ⟨ha, hst, ?_⟩
  have hp : s.poll = (s, []) := by
    rw [poll, h.task, h.quiet]
    rfl
  rw [Session.sleepUntil, hp]
  simp only
  rw [dueCount_eq hpos hfirst h.task, hr, ← ht]
  rfl

theorem sleepUntil_started {b : Instant} (h : s.transfer.Steady 0)
    (hi : Duration.perMilli ≤ s.reporter.interval.nanos)
    (hnow : s.transfer.now.nanos ≤ b.nanos) (hb : InTime b)
    (hstop : s.reporter.stopRequested = false) (hquiet : s.reporter.notified = false)
    (hw : s.reporter.task = .started) :
    s.sleepUntil b = (s.setTask (.waiting s.transfer.now)).sleepUntil b := by
  have hpos : 0 < s.reporter.interval.nanos := Nat.lt_of_lt_of_le (by decide) hi
  have hc := Int.lt_of_le_of_lt hnow hb
  let u := s.setTask (.waiting s.transfer.now)
  obtain ⟨htick, -, -⟩ := tick_eq h (by decide) hc
  obtain ⟨hround, -, -⟩ := tick_eq (s := u) h (by decide) hc
  have hs : s.poll = s.tick := by
    rw [poll, hw]
    exact turn_of_running hstop
  have hu : u.poll = (u, []) := by
    rw [poll, show u.reporter.notified = false from hquiet]
    rfl
  have hturn : u.round = u.tick := @turn_of_running u hstop
  have hcount : u.reporter.dueCount b = s.tick.1.reporter.dueCount b + 1 := by
    have hfirst : u.reporter.task = .waiting (due s.transfer.now s.reporter.interval 0) := by
      rw [due_zero]
      rfl
    have hsecond :
        s.tick.1.reporter.task = .waiting (due s.transfer.now s.reporter.interval 1) := by
      rw [htick, ← later_due, due_zero]
      rfl
    have hinterval : s.tick.1.reporter.interval = s.reporter.interval := by
      rw [htick]
      rfl
    rw [dueCount_eq (r := u.reporter) hpos hnow hfirst,
      dueCount_eq (by rw [hinterval]; exact hpos) hnow (by rw [hinterval]; exact hsecond),
      hinterval]
    have hone : 1 ≤ dueBy s.transfer.now s.reporter.interval b := Nat.le_add_left 1 _
    change dueBy s.transfer.now s.reporter.interval b - 0 =
      dueBy s.transfer.now s.reporter.interval b - 1 + 1
    omega
  rw [sleepUntil, hs, sleepUntil, hu]
  simp only
  rw [hcount, rounds, show u.round = s.tick from hturn.trans (hround.trans htick.symm)]
  rfl

section Stop

theorem task_requestStop (s : Session) : s.requestStop.reporter.task = s.reporter.task := by
  obtain ⟨notified, h⟩ := requestStop_eq s.reporter
  rw [requestStop, h]

theorem startRequested_requestStop (s : Session) :
    s.requestStop.reporter.startRequested = s.reporter.startRequested := by
  obtain ⟨notified, h⟩ := requestStop_eq s.reporter
  rw [requestStop, h]

theorem poll_requestStop (h : ¬ Awake s) : s.requestStop.poll = (s.requestStop, []) := by
  apply poll_of_not_awake
  rw [Awake, task_requestStop]
  exact h

theorem stop_of_not_awake (h : ¬ Awake s) :
    ∃ u, s.stop = (u, []) ∧ u.transfer = s.transfer ∧ ∀ t, u.reporter.task ≠ .waiting t := by
  rw [stop, poll_requestStop h]
  simp only
  split
  · exact ⟨_, rfl, rfl, fun t => Task.noConfusion⟩
  · exact ⟨_, rfl, rfl, fun t ht => h (.inr ⟨t, (task_requestStop s).symm.trans ht⟩)⟩

theorem stop_of_absent (h : s.reporter.task = .absent) : s.stop = (s.requestStop, []) := by
  have hw : ¬ Awake s := by
    rw [Awake, h]
    rintro (ht | ⟨t, ht⟩)
    · cases ht
    · cases ht
  rw [stop, poll_requestStop hw]
  simp only
  rw [task_requestStop, h]

theorem stop_of_finished (h : s.reporter.task = .finished) : s.stop = (s.requestStop, []) := by
  rw [stop, poll_requestStop (not_awake_of_finished h)]
  simp only
  rw [task_requestStop, h]

theorem stop_of_awake (h : Notifies s) (hw : Awake s) :
    ∃ u, s.stop = (u, [⟨s.transfer.now, s.transfer.finalReport⟩]) ∧ Closed s u := by
  obtain ⟨notified, hr⟩ := requestStop_eq s.reporter
  have hs : s.requestStop.reporter.stopRequested = true := by
    rw [requestStop, hr]
  have hawake : Awake s.requestStop := by
    rw [Awake, task_requestStop]
    exact hw
  obtain ⟨u, hp, hu⟩ := h.requestStop.poll_of_stopRequested hawake hs
  have hstop : s.stop = (u, [⟨s.transfer.now, s.transfer.finalReport⟩]) := by
    rw [stop, hp]
    simp only
    rw [hu.task]
    rfl
  refine ⟨u, hstop, hu.task, hu.transfer, ?_⟩
  rw [hu.requested, requestStop, hr]

end Stop

section Absent

theorem act_of_absent (h : s.reporter.task = .absent) {a : Action} (ha : a ≠ .start) :
    (s.next a).reporter.task = .absent ∧ (s.act a).2.2 = [] := by
  have hsleep : ∀ t, (s.sleepUntil t).1.reporter.task = .absent ∧ (s.sleepUntil t).2 = [] := by
    intro t
    have hp : s.poll = (s, []) := by
      rw [poll, h]
    have hd : s.reporter.dueCount t = 0 := by
      rw [Reporter.dueCount, h]
    rw [sleepUntil, hp]
    simp only
    rw [hd]
    exact ⟨h, rfl⟩
  cases a with
  | start => exact absurd rfl ha
  | sleep d => exact hsleep _
  | wait => exact hsleep _
  | signal => exact ⟨(task_requestStop s).trans h, rfl⟩
  | drop => exact ⟨(task_requestStop s).trans h, rfl⟩
  | hear news => exact ⟨h, rfl⟩
  | stop =>
    have hs : s.stop = (s.requestStop, []) := stop_of_absent h
    rw [next, act]
    split
    · exact ⟨h, rfl⟩
    · rw [hs]
      exact ⟨(task_requestStop s).trans h, rfl⟩

theorem emissions_of_absent (h : s.reporter.task = .absent) {as : List Action}
    (ha : ∀ a ∈ as, a ≠ .start) : s.emissions as = [] := by
  induction as generalizing s with
  | nil => rfl
  | cons a as ih =>
    obtain ⟨htask, he⟩ := act_of_absent h (ha a List.mem_cons_self)
    have hrest := ih htask fun b hb => ha b (List.mem_cons_of_mem a hb)
    rw [show a :: as = [a] ++ as from rfl, emissions_append, after_singleton, hrest, emissions,
      trace_singleton, he]
    rfl

end Absent

end Headway.Session
