import Headway.Proofs.Session.Flags
import Headway.Proofs.Session.Rounds

namespace Headway.Session

open Transfer (Operation)

inductive Phase (interval : Duration) (past : List Moment) (s : Session) : Prop
  | absent (hs : started past = false) (hf : firstTick? past = none) (hc : closing? past = none)
      (ht : s.reporter.task = .absent) (h : s.transfer.Steady 0)
  | started (hs : started past = true) (hf : firstTick? past = none) (hc : closing? past = none)
      (ht : s.reporter.task = .started) (h : s.transfer.Steady 0)
  | waiting (first : Instant) (hs : started past = true) (hf : firstTick? past = some first)
      (hc : closing? past = none) (hle : first.nanos ≤ s.transfer.now.nanos)
      (hfirst : 0 ≤ first.nanos)
      (ht : s.reporter.task = .waiting (due first interval (dueBy first interval s.transfer.now)))
      (h : s.transfer.Steady (dueBy first interval s.transfer.now))
  | finished (closing : Instant) (hs : started past = true) (ha : stopAsked past = true)
      (hc : closing? past = some closing) (ht : s.reporter.task = .finished)

structure Follows (options : EstimatorOptions) (interval : Duration) (past : List Moment)
    (s : Session) (stream : List Emission) : Prop where
  transfer : s.transfer = (Transfer.starting options).after (calls interval past)
  stream : stream = (Transfer.starting options).emissions (calls interval past) ++
    completion options interval past
  times : (Transfer.starting options).tickTimes (calls interval past) =
    timetable interval past s.transfer.now
  phase : Phase interval past s

variable {options : EstimatorOptions} {interval : Duration} {past : List Moment} {s s' : Session}
  {stream es : List Emission} {m : Moment}

theorem range_append {n k : ℕ} (h : n ≤ k) :
    List.range n ++ List.range' n (k - n) = List.range k := by
  have ha := @List.range'_append_1 0 n (k - n)
  rw [Nat.zero_add, Nat.add_sub_cancel' h] at ha
  rw [List.range_eq_range', List.range_eq_range', ha]

theorem Follows.extend (h : Follows options interval past s stream) (ops : List Operation)
    (hops : calls interval (m :: past) = calls interval past ++ ops)
    (ht : s'.transfer = s.transfer.after ops)
    (he : completion options interval past ++ es =
      s.transfer.emissions ops ++ completion options interval (m :: past))
    (htimes : timetable interval (m :: past) s'.transfer.now =
      timetable interval past s.transfer.now ++ s.transfer.tickTimes ops)
    (hp : Phase interval (m :: past) s') :
    Follows options interval (m :: past) s' (stream ++ es) where
  transfer := by
    rw [hops, Transfer.after_append, ← h.transfer, ht]
  stream := by
    rw [h.stream, hops, Transfer.emissions_append, ← h.transfer, List.append_assoc, he,
      List.append_assoc]
  times := by
    rw [htimes, hops, Transfer.tickTimes_append, ← h.transfer, h.times]
  phase := hp

section Quiet

variable (hg : m.givesTurn = false)
include hg

theorem Phase.quiet (h : Phase interval past s) (hs : m.starts = false)
    (htask : s'.reporter.task = s.reporter.task) (hnow : s'.transfer.now = s.transfer.now)
    (hsteady : ∀ n, s.transfer.Steady n → s'.transfer.Steady n) :
    Phase interval (m :: past) s' := by
  have hstart : Session.started (m :: past) = Session.started past := started_cons hs
  have hfirst : firstTick? (m :: past) = firstTick? past :=
    firstTick?_cons (ticks_of_not_givesTurn hg)
  have hclosing : closing? (m :: past) = closing? past :=
    closing?_cons (closes_of_not_givesTurn hg)
  cases h with
  | absent h hf hc ht hst =>
    exact .absent (hstart.trans h) (hfirst.trans hf) (hclosing.trans hc) (htask.trans ht)
      (hsteady _ hst)
  | started h hf hc ht hst =>
    exact .started (hstart.trans h) (hfirst.trans hf) (hclosing.trans hc) (htask.trans ht)
      (hsteady _ hst)
  | waiting first h hf hc hle h0 ht hst =>
    refine .waiting first (hstart.trans h) (hfirst.trans hf) (hclosing.trans hc) ?_ h0 ?_ ?_
    · rw [hnow]
      exact hle
    · rw [hnow, htask, ht]
    · rw [hnow]
      exact hsteady _ hst
  | finished t h ha hc ht =>
    refine .finished t (hstart.trans h) ?_ (hclosing.trans hc) (htask.trans ht)
    rw [stopAsked, List.any_cons, ← stopAsked, ha, Bool.or_true]

theorem Follows.quiet (h : Follows options interval past s stream) (hs : m.starts = false)
    (ops : List Operation) (hops : calls interval (m :: past) = calls interval past ++ ops)
    (ht : s'.transfer = s.transfer.after ops) (he : s.transfer.emissions ops = [])
    (htimes : s.transfer.tickTimes ops = []) (htask : s'.reporter.task = s.reporter.task)
    (hnow : s'.transfer.now = s.transfer.now)
    (hsteady : ∀ n, s.transfer.Steady n → s'.transfer.Steady n) :
    Follows options interval (m :: past) s' (stream ++ []) := by
  refine h.extend ops hops ht ?_ ?_ (h.phase.quiet hg hs htask hnow hsteady)
  · rw [he, completion_cons (closes_of_not_givesTurn hg), List.append_nil, List.nil_append]
  · rw [htimes, hnow, timetable_of_not_givesTurn hg, List.append_nil]

theorem Follows.unmoved (h : Follows options interval past s stream) (hs : m.starts = false)
    (hops : calls interval (m :: past) = calls interval past ++ [])
    (ht : s'.transfer = s.transfer) (htask : s'.reporter.task = s.reporter.task) :
    Follows options interval (m :: past) s' (stream ++ []) := by
  refine h.quiet hg hs [] hops ht rfl rfl htask (congrArg Transfer.now ht) ?_
  intro n hst
  rw [ht]
  exact hst

end Quiet

structure Passes (interval : Duration) (past : List Moment) (s : Session) (m : Moment) : Prop where
  time : m.time = s.transfer.now
  givesTurn : m.givesTurn = true
  starts : m.starts = false
  asksStop : m.asksStop = false
  calls : calls interval (m :: past) = calls interval past ++
    walk m.time ((timetable interval (m :: past) m.ends).drop
      (timetable interval past m.time).length) m.ends

namespace Passes

variable (hm : Passes interval past s m)
include hm

theorem le_ends : s.transfer.now.nanos ≤ m.ends.nanos := by
  rw [← hm.time]
  exact Session.le_ends m

theorem started_eq : started (m :: past) = started past := started_cons hm.starts

theorem stopAsked_eq : stopAsked (m :: past) = stopAsked past := stopAsked_cons hm.asksStop

theorem ticks_eq : ticks past m = (started past && !stopAsked past) := by
  rw [ticks, hm.givesTurn, hm.stopAsked_eq, Bool.true_and]

theorem closes_eq : closes past m = (started past && stopAsked past) := by
  rw [closes, hm.givesTurn, hm.stopAsked_eq, Bool.true_and]

end Passes

section Pass

variable (h : Follows options interval past s stream) (hm : Passes interval past s m)
  (h0 : 0 ≤ s.transfer.now.nanos) (hb : InTime m.ends)
include h hm h0 hb

theorem Follows.passed (ts : List Instant)
    (hts : timetable interval (m :: past) m.ends = timetable interval past s.transfer.now ++ ts)
    (ha : Ascending s.transfer.now ts m.ends)
    (ht : s'.transfer = s.transfer.after (walk s.transfer.now ts m.ends))
    (hnow : s'.transfer.now = m.ends)
    (he : completion options interval past ++ es =
      s.transfer.emissions (walk s.transfer.now ts m.ends) ++
        completion options interval (m :: past))
    (hp : Phase interval (m :: past) s') :
    Follows options interval (m :: past) s' (stream ++ es) := by
  have hbound := hb.lt_add_limit h0
  have hops := hm.calls
  rw [hm.time, hts, List.drop_left] at hops
  refine h.extend _ hops ht he ?_ hp
  rw [hnow, hts, tickTimes_walk ha hbound]

theorem Follows.pass_still {u : Session} (hp : s.poll = (u, es)) (hu : u.transfer = s.transfer)
    (hd : u.reporter.dueCount m.ends = 0)
    (hts : timetable interval (m :: past) m.ends = timetable interval past s.transfer.now)
    (he : completion options interval past ++ es = completion options interval (m :: past))
    (hphase : Phase interval (m :: past)
      { u with transfer := { u.transfer with now := m.ends } }) :
    Follows options interval (m :: past) (s.sleepUntil m.ends).1
      (stream ++ (s.sleepUntil m.ends).2) := by
  have hle := hm.le_ends
  have hbound := hb.lt_add_limit h0
  rw [sleepUntil_of_dueCount hp hd]
  refine h.passed hm h0 hb [] ?_ hle ?_ rfl he hphase
  · rw [hts, List.append_nil]
  · rw [after_walk_nil hle hbound, hu]

theorem Follows.pass_ticking {u : Session} {first : Instant} {n : ℕ} (hw : Awaits u first n)
    (hsleep : s.sleepUntil m.ends = u.sleepUntil m.ends) (hu : u.transfer = s.transfer)
    (hi : u.reporter.interval = interval) (hn : n ≤ dueBy first interval m.ends)
    (hpast : timetable interval past s.transfer.now = (List.range n).map (due first interval))
    (hs : started past = true) (hf : firstTick? (m :: past) = some first)
    (hc : closing? (m :: past) = none) :
    Follows options interval (m :: past) (s.sleepUntil m.ends).1
      (stream ++ (s.sleepUntil m.ends).2) := by
  have hends := hm.le_ends
  have hfirst := hw.first_le
  subst hi
  rw [hu] at hfirst
  rw [← hu] at hends
  obtain ⟨ha, hst, hr⟩ := hw.sleepUntil hends hb hn
  have hnow : (u.sleepUntil m.ends).1.transfer.now = m.ends := rfl
  rw [hsleep]
  rw [hr] at hnow ⊢
  rw [hu] at ha hst hends hnow ⊢
  refine h.passed hm h0 hb _ ?_ ha rfl hnow ?_ ?_
  · rw [hpast, timetable, hf, hc, ← List.map_append]
    exact congrArg _ (range_append hn).symm
  · rw [completion_of_closing?_none (closing?_eq_none hc).1, completion_of_closing?_none hc,
      List.nil_append, List.append_nil]
  · refine .waiting first (hm.started_eq.trans hs) hf hc ?_ hw.nonneg ?_ ?_
    · rw [hnow]
      exact Int.le_trans hfirst hends
    · rw [hnow]
      rfl
    · rw [hnow]
      exact hst

theorem Follows.pass_closing (hn : Notifies s) (hw : Awake s)
    (hflag : s.reporter.stopRequested = true) (hs : started past = true)
    (ha : stopAsked past = true) (hc : closing? past = none) :
    Follows options interval (m :: past) (s.sleepUntil m.ends).1
      (stream ++ (s.sleepUntil m.ends).2) := by
  obtain ⟨u, hpoll, hu⟩ := hn.poll_of_stopRequested hw hflag
  have hask := hm.stopAsked_eq.trans ha
  have hcloses : closes past m = true := by
    rw [hm.closes_eq, hs, ha]
    rfl
  refine h.pass_still hm h0 hb hpoll hu.transfer ?_ ?_ ?_ ?_
  · rw [Reporter.dueCount, hu.task]
  · rw [timetable_of_stopAsked hask, hm.time]
  · rw [completion_of_closing?_none hc, completion_of_closes hc hcloses, hm.time, ← h.transfer,
      List.nil_append]
  · exact .finished m.time (hm.started_eq.trans hs) hask (closing?_of_closes hc hcloses) hu.task

theorem Follows.pass_absent (hs : started past = false) (hf : firstTick? past = none)
    (hc : closing? past = none) (ht : s.reporter.task = .absent) (hst : s.transfer.Steady 0) :
    Follows options interval (m :: past) (s.sleepUntil m.ends).1
      (stream ++ (s.sleepUntil m.ends).2) := by
  have hticks : ticks past m = false := by
    rw [hm.ticks_eq, hs, Bool.false_and]
  have hcloses : closes past m = false := by
    rw [hm.closes_eq, hs, Bool.false_and]
  have hfirst := (firstTick?_cons hticks).trans hf
  have hclosing := (closing?_cons hcloses).trans hc
  have hpoll : s.poll = (s, []) := by
    rw [poll, ht]
  refine h.pass_still hm h0 hb hpoll rfl ?_ ?_ ?_ ?_
  · rw [Reporter.dueCount, ht]
  · rw [timetable_of_none hfirst, timetable_of_none hf]
  · rw [completion_cons hcloses, List.append_nil]
  · exact .absent (hm.started_eq.trans hs) hfirst hclosing ht (hst.moved hm.le_ends)

theorem Follows.pass_finished {t : Instant} (hs : started past = true)
    (ha : stopAsked past = true) (hc : closing? past = some t)
    (ht : s.reporter.task = .finished) :
    Follows options interval (m :: past) (s.sleepUntil m.ends).1
      (stream ++ (s.sleepUntil m.ends).2) := by
  have hask := hm.stopAsked_eq.trans ha
  have hpoll : s.poll = (s, []) := by
    rw [poll, ht]
  refine h.pass_still hm h0 hb hpoll rfl ?_ ?_ ?_ ?_
  · rw [Reporter.dueCount, ht]
  · rw [timetable_of_stopAsked hask, hm.time]
  · rw [completion_of_closing?_some hc, List.append_nil]
  · exact .finished t (hm.started_eq.trans hs) hask (closing?_of_some hc) ht

section Running

variable (hi : s.reporter.interval = interval) (hmilli : Duration.perMilli ≤ interval.nanos)
  (hn : Notifies s) (hflag : s.reporter.stopRequested = false) (hs : started past = true)
  (ha : stopAsked past = false) (hc : closing? past = none)
include hi hmilli hn hflag hs ha hc

theorem Follows.pass_started (hf : firstTick? past = none) (ht : s.reporter.task = .started)
    (hst : s.transfer.Steady 0) :
    Follows options interval (m :: past) (s.sleepUntil m.ends).1
      (stream ++ (s.sleepUntil m.ends).2) := by
  have hcloses : closes past m = false := by
    rw [hm.closes_eq, ha, Bool.and_false]
  have hfirst : firstTick? (m :: past) = some s.transfer.now := by
    rw [firstTick?, hf, hm.ticks_eq, hs, ha, ← hm.time]
    rfl
  have hquiet : s.reporter.notified = false := (hn.notified_eq (.inl ht)).trans hflag
  subst hi
  let u := s.setTask (.waiting s.transfer.now)
  have hw : Awaits u s.transfer.now 0 := by
    refine ⟨hmilli, h0, Int.le_refl _, ?_, ?_, hflag, hquiet, hst⟩
    · rw [due_zero]
      exact Int.le_refl _
    · rw [due_zero]
      rfl
  have hsleep := sleepUntil_started hst hmilli hm.le_ends hb hflag hquiet ht
  exact h.pass_ticking hm h0 hb hw hsleep rfl rfl (Nat.zero_le _) (timetable_of_none hf _) hs
    hfirst ((closing?_cons hcloses).trans hc)

theorem Follows.pass_waiting {first : Instant} (hf : firstTick? past = some first)
    (hle : first.nanos ≤ s.transfer.now.nanos) (hfirst : 0 ≤ first.nanos)
    (ht : s.reporter.task = .waiting (due first interval (dueBy first interval s.transfer.now)))
    (hst : s.transfer.Steady (dueBy first interval s.transfer.now)) :
    Follows options interval (m :: past) (s.sleepUntil m.ends).1
      (stream ++ (s.sleepUntil m.ends).2) := by
  have hcloses : closes past m = false := by
    rw [hm.closes_eq, ha, Bool.and_false]
  have hpos : 0 < interval.nanos := Nat.lt_of_lt_of_le (by decide) hmilli
  have hdue := mt (lt_dueBy_iff hpos hle).mpr (Nat.lt_irrefl _)
  have hends := hm.le_ends
  have hquiet : s.reporter.notified = false := (hn.notified_eq (.inr ⟨_, ht⟩)).trans hflag
  subst hi
  have hw : Awaits s first (dueBy first s.reporter.interval s.transfer.now) :=
    ⟨hmilli, hfirst, hle, by omega, ht, hflag, hquiet, hst⟩
  refine h.pass_ticking hm h0 hb hw rfl rfl rfl ?_ ?_ hs (firstTick?_of_some hf)
    ((closing?_cons hcloses).trans hc)
  · exact Nat.succ_le_succ (Nat.div_le_div_right (by omega))
  · rw [timetable, hf, hc, Option.getD_none]

end Running

theorem Follows.pass (hi : s.reporter.interval = interval)
    (hmilli : Duration.perMilli ≤ interval.nanos) (hn : Notifies s)
    (hflag : s.reporter.stopRequested = stopAsked past) :
    Follows options interval (m :: past) (s.sleepUntil m.ends).1
      (stream ++ (s.sleepUntil m.ends).2) := by
  cases h.phase with
  | absent hs hf hc ht hst => exact h.pass_absent hm h0 hb hs hf hc ht hst
  | started hs hf hc ht hst =>
    cases ha : stopAsked past with
    | true => exact h.pass_closing hm h0 hb hn (.inl ht) (hflag.trans ha) hs ha hc
    | false => exact h.pass_started hm h0 hb hi hmilli hn (hflag.trans ha) hs ha hc hf ht hst
  | waiting first hs hf hc hle hfirst ht hst =>
    cases ha : stopAsked past with
    | true => exact h.pass_closing hm h0 hb hn (.inr ⟨_, ht⟩) (hflag.trans ha) hs ha hc
    | false =>
      exact h.pass_waiting hm h0 hb hi hmilli hn (hflag.trans ha) hs ha hc hf hle hfirst ht hst
  | finished t hs ha hc ht => exact h.pass_finished hm h0 hb hs ha hc ht

end Pass

section Stop

def stopping (s : Session) : Moment := ⟨s.transfer.now, .stop, .done⟩

theorem stopAsked_stopping : stopAsked (stopping s :: past) = true := rfl

theorem started_stopping : started (stopping s :: past) = started past := started_cons rfl

theorem closes_stopping : closes past (stopping s) = started past := by
  rw [closes, stopAsked_stopping, Bool.and_true]
  rfl

variable (h : Follows options interval past s stream)
include h

theorem Follows.stop_of_phase (ht : s.stop.1.transfer = s.transfer)
    (he : completion options interval past ++ s.stop.2 =
      completion options interval (stopping s :: past))
    (hp : Phase interval (stopping s :: past) s.stop.1) :
    Follows options interval (stopping s :: past) s.stop.1 (stream ++ s.stop.2) := by
  refine h.extend [] rfl ht he ?_ hp
  rw [ht]
  exact (timetable_of_stopAsked stopAsked_stopping).trans (List.append_nil _).symm

theorem Follows.stop_closing (hn : Notifies s) (hw : Awake s) (hs : started past = true)
    (hc : closing? past = none) :
    Follows options interval (stopping s :: past) s.stop.1 (stream ++ s.stop.2) := by
  obtain ⟨u, hstop, hu⟩ := stop_of_awake hn hw
  have hcloses : closes past (stopping s) = true := closes_stopping.trans hs
  have hclosing := closing?_of_closes hc hcloses
  apply h.stop_of_phase
  · rw [hstop]
    exact hu.transfer
  · rw [hstop, completion_of_closing?_none hc, completion_of_closes hc hcloses, ← h.transfer]
    rfl
  · rw [hstop]
    exact .finished _ (started_stopping.trans hs) stopAsked_stopping hclosing hu.task

theorem Follows.stop (hn : Notifies s) :
    Follows options interval (stopping s :: past) s.stop.1 (stream ++ s.stop.2) := by
  cases h.phase with
  | absent hs hf hc ht hst =>
    have hcloses : closes past (stopping s) = false := closes_stopping.trans hs
    have hticks : ticks past (stopping s) = false := ticks_of_stopAsked stopAsked_stopping
    have hfirst := (firstTick?_cons hticks).trans hf
    have hclosing := (closing?_cons hcloses).trans hc
    have hstop := stop_of_absent ht
    apply h.stop_of_phase
    · rw [hstop]
      rfl
    · rw [hstop, completion_cons hcloses, List.append_nil]
    · rw [hstop]
      exact .absent (started_stopping.trans hs) hfirst hclosing ((task_requestStop s).trans ht) hst
  | started hs hf hc ht hst => exact h.stop_closing hn (.inl ht) hs hc
  | waiting first hs hf hc hle hfirst ht hst => exact h.stop_closing hn (.inr ⟨_, ht⟩) hs hc
  | finished t hs ha hc ht =>
    have hclosing := closing?_of_some (m := stopping s) hc
    have hstop := stop_of_finished ht
    apply h.stop_of_phase
    · rw [hstop]
      rfl
    · rw [hstop, completion_of_closing?_some hc, List.append_nil]
    · rw [hstop]
      exact .finished t (started_stopping.trans hs) stopAsked_stopping hclosing
        ((task_requestStop s).trans ht)

end Stop

theorem Follows.start (h : Follows options interval past s stream) (hasEvidence : Bool)
    (hreq : started past = true → s.reporter.startRequested = true) :
    Follows options interval
      (⟨s.transfer.now, .start, .started (s.reporter.start hasEvidence).2⟩ :: past)
      { s with reporter := (s.reporter.start hasEvidence).1 } (stream ++ []) := by
  obtain ⟨-, hr⟩ | ⟨-, -, hr⟩ | ⟨hn, -, hr⟩ := start_cases s.reporter hasEvidence
  · rw [hr]
    exact h.unmoved rfl rfl rfl rfl rfl
  · rw [hr]
    exact h.unmoved rfl rfl rfl rfl rfl
  · rw [hr]
    let m : Moment := ⟨s.transfer.now, .start, .started (.ok true)⟩
    have hfirst : firstTick? (m :: past) = firstTick? past :=
      firstTick?_cons (ticks_of_not_givesTurn rfl)
    have hclosing : closing? (m :: past) = closing? past :=
      closing?_cons (closes_of_not_givesTurn rfl)
    have hold : ¬ started past = true := fun hs => by
      rw [hreq hs] at hn
      cases hn
    refine h.extend [] rfl rfl ?_ ?_ ?_
    · rw [completion_cons (closes_of_not_givesTurn rfl), List.append_nil]
      rfl
    · rw [timetable_of_not_givesTurn rfl]
      exact (List.append_nil _).symm
    · cases h.phase with
      | absent hs hf hc ht hst => exact .started rfl (hfirst.trans hf) (hclosing.trans hc) rfl hst
      | started hs => exact absurd hs hold
      | waiting first hs => exact absurd hs hold
      | finished t hs => exact absurd hs hold

theorem Follows.step (h : Follows options interval past s stream) (a : Action)
    (hi : s.reporter.interval = interval) (hmilli : Duration.perMilli ≤ interval.nanos)
    (h0 : 0 ≤ s.transfer.now.nanos) (hn : Notifies s)
    (hflag : s.reporter.stopRequested = stopAsked past)
    (hreq : started past = true → s.reporter.startRequested = true)
    (hb : InTime (s.next a).transfer.now) :
    Follows options interval (s.moment a :: past) (s.next a) (stream ++ (s.act a).2.2) := by
  rw [next_now] at hb
  cases a with
  | start =>
    cases hd : s.dropped with
    | true =>
      have ha : s.act .start = (s, .gone, []) := by
        rw [act, hd]
        rfl
      rw [moment, next, ha]
      exact h.unmoved rfl rfl rfl rfl rfl
    | false =>
      have ha : s.act .start =
          ({ s with reporter := (s.reporter.start s.transfer.estimator.evidence.isSome).1 },
            .started (s.reporter.start s.transfer.estimator.evidence.isSome).2, []) := by
        rw [act, hd]
        rfl
      rw [moment, next, ha]
      exact h.start _ hreq
  | sleep d =>
    have hm : Passes interval past s (s.moment (.sleep d)) := ⟨rfl, rfl, rfl, rfl, rfl⟩
    exact h.pass hm h0 hb hi hmilli hn hflag
  | wait =>
    have hm : Passes interval past s (s.moment .wait) := ⟨rfl, rfl, rfl, rfl, rfl⟩
    exact h.pass hm h0 hb hi hmilli hn hflag
  | stop =>
    cases hd : s.dropped with
    | true =>
      have ha : s.act .stop = (s, .gone, []) := by
        rw [act, hd]
        rfl
      rw [moment, next, ha]
      exact h.unmoved rfl rfl rfl rfl rfl
    | false =>
      have ha : s.act .stop = (s.stop.1, .done, s.stop.2) := by
        rw [act, hd]
        rfl
      rw [moment, next, ha]
      exact h.stop hn
  | signal => exact h.unmoved rfl rfl rfl rfl (task_requestStop s)
  | drop => exact h.unmoved rfl rfl rfl rfl (task_requestStop s)
  | hear news =>
    exact h.quiet rfl rfl [.hear news] rfl rfl rfl rfl rfl (Transfer.hear_frame _ _).1
      fun n hst => hst.hear news

theorem nanos_interval (c : Config) :
    (Reporter.ofConfig c).interval.nanos =
      min (max (c.intervalSecs.toNat * Duration.perSecond) Duration.perMilli)
        (946080000 * Duration.perSecond) := by
  have hn : (c.interval.longer (.ofMillis 1)).nanos =
      max (c.intervalSecs.toNat * Duration.perSecond) Duration.perMilli := Duration.nanos_longer _ _
  have hd : Duration.perMilli ∣ (c.interval.longer (.ofMillis 1)).nanos := by
    rw [hn]
    simp only [Duration.perMilli, Duration.perSecond]
    omega
  rw [← hn]
  exact Duration.nanos_slept_of_dvd hd

theorem perMilli_le_interval (c : Config) :
    Duration.perMilli ≤ (Reporter.ofConfig c).interval.nanos := by
  rw [nanos_interval]
  simp only [Duration.perMilli, Duration.perSecond]
  omega

theorem follows_history (c c' : Config) (as : List Action)
    (hb : InTime ((starting c (.ofConfig c')).after as).transfer.now) :
    Follows (.ofConfig c') (Reporter.ofConfig c).interval
      ((starting c (.ofConfig c')).history as) ((starting c (.ofConfig c')).after as)
      ((starting c (.ofConfig c')).emissions as) := by
  induction as using List.reverseRecOn with
  | nil => exact ⟨rfl, rfl, rfl, .absent rfl rfl rfl rfl (Transfer.steady_starting c')⟩
  | append_singleton as a ih =>
    rw [after_append, after_singleton] at hb ⊢
    have hbefore : InTime ((starting c (.ofConfig c')).after as).transfer.now :=
      Int.lt_of_le_of_lt (now_le_after _ [a]) hb
    have hflag := stopRequested_after (starting c (.ofConfig c')) as
    rw [show (starting c (.ofConfig c')).reporter.stopRequested = false from rfl,
      Bool.or_false] at hflag
    rw [history_append_singleton, emissions_append, emissions, trace_singleton]
    exact (ih hbefore).step a (settings_after _ as).1 (perMilli_le_interval c)
      (now_le_after (starting c (.ofConfig c')) as) (notifies_after c _ as) hflag
      (startRequested_of_started _ as) hb

theorem timetable_append_of_stopAsked (interval : Duration) (s : Session)
    (before later : List Action) (h : stopAsked (s.history before) = true) :
    timetable interval (s.history (before ++ later)) (s.after (before ++ later)).transfer.now =
      timetable interval (s.history before) (s.after before).transfer.now := by
  induction later using List.reverseRecOn with
  | nil => rw [List.append_nil]
  | append_singleton later a ih =>
    have ha : stopAsked (s.history (before ++ (later ++ [a]))) = true := by
      rw [history_append, stopAsked_append, h, Bool.or_true]
    rw [← List.append_assoc, history_append_singleton] at ha ⊢
    rw [after_append s _ [a], after_singleton, next_now, timetable_of_stopAsked ha]
    exact ih

end Headway.Session
