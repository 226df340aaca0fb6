import Headway.Proofs.Simulation.Loop
import Headway.Proofs.Transfer.Answers

namespace Headway.Simulation.State

variable {c : Config} {a : Arguments} {s t u : State} {d : Duration} {as bs : List Action}
  {ss : List State}

def rests (s : State) (d : Duration) : List Action :=
  if d.nanos = 0 ∧ s.streak < patience then [] else [.sleep d]

def pauses (a : Arguments) (s : State) : List Action :=
  match a.pauseSecs with
  | some secs =>
    if !s.paused && decide (a.total / 2 ≤ s.processed) then
      rests { s with paused := true } (.ofSeconds secs)
    else []
  | none => []

def doings (a : Arguments) (s : State) : List Action :=
  (s.news a).map .hear ++
    match a.sending? (s.wire a) with
    | some d => (s.loaded a).rests d ++ ((s.loaded a).sleep d).pauses a
    | none => []

def opening (a : Arguments) : List Action :=
  [.hear (.evidence ⟨a.newBytes, a.changedBytes⟩), .start]

def script (a : Arguments) (ss : List State) : List Action :=
  .hear (.evidence ⟨a.newBytes, a.changedBytes⟩) :: .start :: ss.flatMap (doings a)

theorem pause_cases (a : Arguments) (s : State) :
    (∃ secs, a.pauseSecs = some secs ∧ s.paused = false ∧ a.total / 2 ≤ s.processed ∧
        s.pause a = sleep { s with paused := true } (.ofSeconds secs) ∧
        s.pauses a = rests { s with paused := true } (.ofSeconds secs)) ∨
      ((a.pauseSecs.isSome = true → s.paused = false → ¬ a.total / 2 ≤ s.processed) ∧
        s.pause a = s ∧ s.pauses a = []) := by
  rw [pause, pauses]
  cases hs : a.pauseSecs with
  | none =>
    right
    exact ⟨fun h => absurd h (by decide), rfl, rfl⟩
  | some secs =>
    have hb : (!s.paused && decide (a.total / 2 ≤ s.processed)) = true ↔
        s.paused = false ∧ a.total / 2 ≤ s.processed := by
      rw [Bool.and_eq_true, Bool.not_eq_true', decide_eq_true_eq]
    by_cases h : (!s.paused && decide (a.total / 2 ≤ s.processed)) = true
    · left
      obtain ⟨hp, hle⟩ := hb.mp h
      exact ⟨secs, rfl, hp, hle, if_pos h, if_pos h⟩
    · right
      exact ⟨fun _ hp hle => h (hb.mpr ⟨hp, hle⟩), if_neg h, if_neg h⟩

section Shown

structure Acts (s : State) (as : List Action) (t : State) : Prop where
  session : t.session = s.session.after as
  shown : t.shown.toList = s.shown.toList ++ s.session.emissions as
  queue : t.queue = .empty 16

theorem Acts.trans (h : Acts s as t) (h' : Acts t bs u) : Acts s (as ++ bs) u := by
  refine ⟨?_, ?_, h'.queue⟩
  · rw [h'.session, h.session, Session.after_append]
  · rw [h'.shown, h.shown, h.session, Session.emissions_append, List.append_assoc]

theorem display_of_empty (h : s.queue = .empty 16) (es : List Emission) :
    s.display es = { s with shown := s.shown ++ es.toArray } := by
  induction es generalizing s with
  | nil => exact congrArg (fun shown => { s with shown := shown }) Array.append_empty.symm
  | cons e es ih =>
    rcases s with ⟨session, queue, shown, processed, inVolume, volumes, paused, streak⟩
    obtain rfl : queue = .empty 16 := h
    rw [List.toArray_cons, ← Array.append_assoc]
    exact ih (s := ⟨session, .empty 16, shown ++ #[e], processed, inVolume, volumes, paused, streak⟩)
      rfl

variable (hq : s.queue = .empty 16)
include hq

theorem acts_giveWay (d : Duration) : Acts s [.sleep d] (s.giveWay d) := by
  have hs : ({ s with session := s.session.next (.sleep d), streak := 1 } : State).queue =
      .empty 16 := hq
  rw [giveWay_eq, display_of_empty hs]
  refine ⟨rfl, ?_, hq⟩
  rw [Session.emissions, trace_singleton]
  exact Array.toList_append

theorem acts_sleep (d : Duration) : Acts s (s.rests d) (s.sleep d) := by
  rw [rests, sleep]
  split
  · exact ⟨rfl, (List.append_nil _).symm, hq⟩
  · exact acts_giveWay hq d

theorem acts_pause (a : Arguments) : Acts s (s.pauses a) (s.pause a) := by
  obtain ⟨secs, -, -, -, hpause, hpauses⟩ | ⟨-, hpause, hpauses⟩ := pause_cases a s
  · have hp : ({ s with paused := true } : State).queue = .empty 16 := hq
    obtain ⟨hsession, hshown, hqueue⟩ := acts_sleep hp (.ofSeconds secs)
    rw [hpause, hpauses]
    exact ⟨hsession, hshown, hqueue⟩
  · rw [hpause, hpauses]
    exact ⟨rfl, (List.append_nil _).symm, hq⟩

omit hq in
theorem emissions_hear (s : Session) (news : List News) : s.emissions (news.map .hear) = [] := by
  induction news generalizing s with
  | nil => rfl
  | cons n news ih => exact ih (s.next (.hear n))

theorem acts_loaded (a : Arguments) : Acts s ((s.news a).map .hear) (s.loaded a) := by
  refine ⟨rfl, ?_, hq⟩
  rw [emissions_hear, List.append_nil]
  rfl

theorem acts_step (h : s.step a = .ok t) : Acts s (s.doings a) t := by
  obtain ⟨d, hf, rfl⟩ := step_eq_ok_iff.mp h
  have hl := acts_loaded hq a
  have hs := acts_sleep hl.queue d
  rw [doings, hf.sending]
  exact hl.trans (hs.trans (acts_pause hs.queue a))

omit hq in
theorem Passes.acts (h : Passes a s ss u) (hq : s.queue = .empty 16) :
    Acts s (ss.flatMap (doings a)) u := by
  induction h with
  | done s => exact ⟨rfl, (List.append_nil _).symm, hq⟩
  | step hs ht h ih =>
    have ht := acts_step hq ht
    exact ht.trans (ih ht.queue)

theorem acts_stop (hd : s.session.dropped = false) : Acts s [.stop] s.stop := by
  have ha : s.session.act .stop = (s.session.stop.1, .done, s.session.stop.2) := by
    rw [Session.act, hd]
    rfl
  have hs : ({ s with session := s.session.stop.1 } : State).queue = .empty 16 := hq
  have hdisplay : s.stop = display { s with session := s.session.stop.1 } s.session.stop.2 := rfl
  rw [hdisplay, display_of_empty hs]
  refine ⟨?_, ?_, hq⟩
  · rw [Session.after_singleton, Session.next, ha]
  · rw [Session.emissions, trace_singleton, ha]
    exact Array.toList_append

end Shown

section Life

theorem acts_starting (c : Config) (a : Arguments) :
    (starting c a).1.session = (Session.starting c (.ofConfig c)).after (opening a) ∧
      (starting c a).1.shown.toList =
        (Session.starting c (.ofConfig c)).emissions (opening a) ∧
      (starting c a).1.queue = .empty 16 := ⟨rfl, rfl, rfl⟩

inductive Works : Action → Prop
  | hear {news : News} (h : Transfer.Onward (.hear news)) : Works (.hear news)
  | sleep (d : Duration) : Works (.sleep d)

theorem works_news (a : Arguments) (s : State) : ∀ x ∈ (s.news a).map .hear, Works x := by
  intro x hx
  obtain ⟨n, hn, rfl⟩ := List.mem_map.mp hx
  rw [news, List.mem_append, List.mem_append] at hn
  rcases hn with (hn | hn) | hn
  · rcases List.mem_cons.mp hn with rfl | hn
    · exact .hear (.addChanged _)
    · obtain rfl := List.mem_singleton.mp hn
      exact .hear (.addRaw _)
  · split at hn
    · obtain rfl := List.mem_singleton.mp hn
      exact .hear (.bytes _)
    · cases hn
  · obtain rfl := List.mem_singleton.mp hn
    exact .hear (.bytes _)

theorem works_rests (s : State) (d : Duration) : ∀ x ∈ s.rests d, Works x := by
  intro x hx
  rw [rests] at hx
  split at hx
  · cases hx
  · obtain rfl := List.mem_singleton.mp hx
    exact .sleep _

theorem works_pauses (a : Arguments) (s : State) : ∀ x ∈ s.pauses a, Works x := by
  obtain ⟨secs, -, -, -, -, hp⟩ | ⟨-, -, hp⟩ := pause_cases a s
  · rw [hp]
    exact works_rests _ _
  · rw [hp]
    intro x hx
    cases hx

theorem works_doings (a : Arguments) (ss : List State) :
    ∀ x ∈ ss.flatMap (doings a), Works x := by
  intro x hx
  obtain ⟨s, -, hx⟩ := List.mem_flatMap.mp hx
  rw [doings, List.mem_append] at hx
  rcases hx with hx | hx
  · exact works_news a s x hx
  · split at hx
    next d _ =>
      rcases List.mem_append.mp hx with hx | hx
      · exact works_rests _ _ x hx
      · exact works_pauses _ _ x hx
    next => cases hx

section History

open Session (Moment started stopAsked firstTick? closing?)

variable {S : Session} {x : Action} {past : List Moment}

theorem moment_works (h : Works x) (S : Session) :
    (S.moment x).starts = false ∧ (S.moment x).asksStop = false := by
  cases h with
  | hear h => exact ⟨rfl, rfl⟩
  | sleep d => exact ⟨rfl, rfl⟩

theorem flags_works (h : ∀ x ∈ bs, Works x) (S : Session) :
    started (S.history bs) = false ∧ stopAsked (S.history bs) = false := by
  induction bs generalizing S with
  | nil => exact ⟨rfl, rfl⟩
  | cons x bs ih =>
    obtain ⟨hstarts, hasks⟩ := moment_works (h x List.mem_cons_self) S
    obtain ⟨hs, ha⟩ := ih (fun y hy => h y (List.mem_cons_of_mem x hy)) (S.next x)
    rw [Session.history_cons, Session.started_append, Session.stopAsked_append, hs, ha]
    exact ⟨by rw [Session.started_cons hstarts]; rfl, by rw [Session.stopAsked_cons hasks]; rfl⟩

def isSleep : Action → Bool
  | .sleep _ => true
  | _ => false

theorem firstTick?_append {t : Instant} (h : firstTick? past = some t) (new : List Moment) :
    firstTick? (new ++ past) = some t := by
  induction new with
  | nil => exact h
  | cons m new ih => exact Session.firstTick?_of_some ih

theorem firstTick?_works (h : ∀ x ∈ bs, Works x) (hs : started past = true)
    (ha : stopAsked past = false) (hf : firstTick? past = none) :
    firstTick? (S.history bs ++ past) =
      if bs.any isSleep then some S.transfer.now else none := by
  induction bs generalizing S past with
  | nil => exact hf
  | cons x bs ih =>
    have hx := h x List.mem_cons_self
    obtain ⟨hstarts, hasks⟩ := moment_works hx S
    have hs' : started (S.moment x :: past) = true := (Session.started_cons hstarts).trans hs
    have ha' : stopAsked (S.moment x :: past) = false := (Session.stopAsked_cons hasks).trans ha
    have hbs : ∀ y ∈ bs, Works y := fun y hy => h y (List.mem_cons_of_mem x hy)
    rw [Session.history_cons, List.append_assoc, List.singleton_append, List.any_cons]
    cases hx with
    | @hear news hn =>
      have ht : Session.ticks past (S.moment (.hear news)) = false :=
        Session.ticks_of_not_givesTurn rfl
      have hf' := (Session.firstTick?_cons ht).trans hf
      have hnow : (S.next (.hear news)).transfer.now = S.transfer.now :=
        (Transfer.hear_frame S.transfer news).1
      rw [ih hbs hs' ha' hf', hnow]
      rfl
    | sleep d =>
      -- The first turn of the task, at the time the sleep begins; what follows does not move it.
      have ht : Session.ticks past (S.moment (.sleep d)) = true := by
        rw [Session.ticks, hs, ha']
        rfl
      have hf' : firstTick? (S.moment (.sleep d) :: past) = some S.transfer.now := by
        rw [firstTick?, hf, ht]
        rfl
      rw [firstTick?_append hf']
      rfl

theorem started_starting (c : Config) (a : Arguments) :
    (starting c a).2 = (c.enabled && !c.dryRun) := by
  rcases c with ⟨_ | _, interval, _ | _, format, floor, window⟩
  · rfl
  · rfl
  · rfl
  · rfl

theorem flags_opening (c : Config) (a : Arguments) :
    started ((Session.starting c (.ofConfig c)).history (opening a)) = (c.enabled && !c.dryRun) ∧
      stopAsked ((Session.starting c (.ofConfig c)).history (opening a)) = false ∧
      firstTick? ((Session.starting c (.ofConfig c)).history (opening a)) = none := by
  rcases c with ⟨_ | _, interval, _ | _, format, floor, window⟩
  · exact ⟨rfl, rfl, rfl⟩
  · exact ⟨rfl, rfl, rfl⟩
  · exact ⟨rfl, rfl, rfl⟩
  · exact ⟨rfl, rfl, rfl⟩

theorem history_script (c : Config) (a : Arguments) (ss : List State) :
    (Session.starting c (.ofConfig c)).history (script a ss) =
      ((Session.starting c (.ofConfig c)).after (opening a)).history (ss.flatMap (doings a)) ++
        (Session.starting c (.ofConfig c)).history (opening a) :=
  Session.history_append _ (opening a) _

theorem flags_script (c : Config) (a : Arguments) (ss : List State) :
    started ((Session.starting c (.ofConfig c)).history (script a ss)) =
        (c.enabled && !c.dryRun) ∧
      stopAsked ((Session.starting c (.ofConfig c)).history (script a ss)) = false := by
  obtain ⟨hs, ha, -⟩ := flags_opening c a
  obtain ⟨hs', ha'⟩ := flags_works (works_doings a ss)
    ((Session.starting c (.ofConfig c)).after (opening a))
  rw [history_script, Session.started_append, Session.stopAsked_append, hs, ha, hs', ha']
  exact ⟨rfl, rfl⟩

theorem firstTick?_script (hc : (c.enabled && !c.dryRun) = true) (ss : List State) :
    firstTick? ((Session.starting c (.ofConfig c)).history (script a ss)) =
      if (ss.flatMap (doings a)).any isSleep then some ⟨0⟩ else none := by
  obtain ⟨hs, ha, hf⟩ := flags_opening c a
  rw [history_script]
  exact firstTick?_works (works_doings a ss) (hs.trans hc) ha hf

end History

end Life

section Naps

/-- After `k` sleeps, of which those among `as` have been more than nothing. -/
structure Napped (k : ℕ) (as : List Action) (s : State) : Prop where
  start : 0 ≤ s.session.transfer.now.nanos
  streak : s.streak ≤ k
  patient : s.streak ≤ patience
  none : as.any isSleep = false → s.streak = k ∧ s.session.transfer.now = ⟨0⟩
  some : as.any isSleep = true → 0 < s.session.transfer.now.nanos ∨ patience < k

variable {k : ℕ}

theorem streak_giveWay (s : State) (d : Duration) : (s.giveWay d).streak = 1 := by
  obtain ⟨queue, shown, h⟩ := giveWay_fields s d
  rw [h]

theorem now_giveWay (s : State) (d : Duration) :
    (s.giveWay d).session.transfer.now.nanos =
      s.session.transfer.now.nanos + (d.slept.nanos : ℕ) := by
  obtain ⟨queue, shown, h⟩ := giveWay_fields s d
  rw [h]
  exact congrArg Instant.nanos (Session.next_now s.session (.sleep d))

theorem pos_of_nanos {d : Duration} (h : d.nanos ≠ 0) : 0 < d.slept.nanos := by
  have hn := d.min_le_nanos_slept
  simp only [Duration.perSecond] at hn
  omega

theorem Napped.sleep (h : Napped k as s) (d : Duration) :
    Napped (k + 1) (as ++ s.rests d) (s.sleep d) := by
  have hpatient := h.patient
  have hstreak := h.streak
  have hstart := h.start
  rw [rests, State.sleep]
  by_cases hd : d.nanos = 0 ∧ s.streak < patience
  · rw [if_pos hd, if_pos hd, List.append_nil]
    refine ⟨hstart, Nat.succ_le_succ hstreak, hd.2, ?_, ?_⟩
    · intro ha
      obtain ⟨hk, hnow⟩ := h.none ha
      exact ⟨congrArg (· + 1) hk, hnow⟩
    · intro ha
      rcases h.some ha with hnow | hk
      · exact .inl hnow
      · exact .inr (Nat.lt_succ_of_lt hk)
  · rw [if_neg hd, if_neg hd]
    have hnow := now_giveWay s d
    have hone := streak_giveWay s d
    refine ⟨?_, ?_, ?_, ?_, ?_⟩
    · omega
    · omega
    · rw [hone]
      decide
    · intro ha
      rw [List.any_append, Bool.or_eq_false_iff] at ha
      cases ha.2
    · intro _
      by_cases hz : d.nanos = 0
      · have hfull : ¬ s.streak < patience := fun hlt => hd ⟨hz, hlt⟩
        right
        omega
      · have hpos := pos_of_nanos hz
        left
        omega

theorem any_isSleep_hear (news : List News) : (news.map Action.hear).any isSleep = false := by
  induction news with
  | nil => rfl
  | cons n news ih => exact ih

theorem now_loaded (a : Arguments) (s : State) :
    (s.loaded a).session.transfer.now = s.session.transfer.now := by
  rw [loaded, news]
  split
  · rfl
  · rfl

theorem Napped.loaded (h : Napped k as s) (a : Arguments) :
    Napped k (as ++ (s.news a).map .hear) (s.loaded a) := by
  have hany : (as ++ (s.news a).map Action.hear).any isSleep = as.any isSleep := by
    rw [List.any_append, any_isSleep_hear, Bool.or_false]
  refine ⟨?_, h.streak, h.patient, ?_, ?_⟩
  · rw [now_loaded]
    exact h.start
  · rw [hany, now_loaded]
    exact h.none
  · rw [hany, now_loaded]
    exact h.some

theorem paused_sleep (s : State) (d : Duration) : (s.sleep d).paused = s.paused := by
  rw [State.sleep]
  split
  · rfl
  · obtain ⟨queue, shown, h⟩ := giveWay_fields s d
    rw [h]

theorem Napped.pause (h : Napped (k + s.paused.toNat) as s) (a : Arguments) :
    Napped (k + (s.pause a).paused.toNat) (as ++ s.pauses a) (s.pause a) := by
  obtain ⟨secs, -, hp, -, hpause, hpauses⟩ | ⟨-, hpause, hpauses⟩ := pause_cases a s
  · have hs : Napped k as { s with paused := true } := by
      rw [hp] at h
      exact ⟨h.start, h.streak, h.patient, h.none, h.some⟩
    rw [hpause, hpauses, paused_sleep]
    exact hs.sleep _
  · rw [hpause, hpauses, List.append_nil]
    exact h

theorem Napped.step (h : Napped (k + s.paused.toNat) as s) (ht : s.step a = .ok t) :
    Napped (k + 1 + t.paused.toNat) (as ++ s.doings a) t := by
  obtain ⟨d, hf, rfl⟩ := step_eq_ok_iff.mp ht
  have hs : Napped (k + 1 + ((s.loaded a).sleep d).paused.toNat)
      (as ++ (s.news a).map .hear ++ (s.loaded a).rests d) ((s.loaded a).sleep d) := by
    rw [paused_sleep, Nat.add_right_comm]
    exact (h.loaded a).sleep d
  rw [doings, hf.sending, ← List.append_assoc]
  simp only
  rw [← List.append_assoc]
  exact hs.pause a

theorem Passes.naps (hp : Passes a s ss u) (h : Napped (k + s.paused.toNat) as s) :
    Napped (k + ss.length + u.paused.toNat) (as ++ ss.flatMap (doings a)) u := by
  induction hp generalizing k as with
  | done s =>
    rw [List.flatMap_nil, List.append_nil]
    exact h
  | step hs ht hp ih =>
    have hu := ih (h.step ht)
    rw [List.length_cons, List.flatMap_cons, ← List.append_assoc, Nat.add_comm _ 1,
      ← Nat.add_assoc]
    exact hu

theorem paused_step (ht : s.step a = .ok t) (h : s.paused = true → a.pauseSecs.isSome = true) :
    (t.paused = true → a.pauseSecs.isSome = true) ∧
      (a.pauseSecs.isSome = true → a.total / 2 ≤ t.processed → t.paused = true) := by
  obtain ⟨d, -, rfl⟩ := step_eq_ok_iff.mp ht
  have hs : ((s.loaded a).sleep d).paused = s.paused := paused_sleep _ d
  obtain ⟨secs, hsecs, -, -, hpause, -⟩ | ⟨hno, hpause, -⟩ := pause_cases a ((s.loaded a).sleep d)
  · rw [hpause, paused_sleep, hsecs]
    exact ⟨fun _ => rfl, fun _ _ => rfl⟩
  · rw [hpause, hs]
    refine ⟨h, ?_⟩
    intro hsome hle
    rw [hs] at hno
    cases hp : s.paused with
    | true => rfl
    | false => exact absurd hle (hno hsome hp)

theorem Passes.paused (hp : Passes a s ss u) (hs : s.paused = true → a.pauseSecs.isSome = true)
    (hne : ss ≠ []) (hu : a.total / 2 ≤ u.processed) : u.paused = a.pauseSecs.isSome := by
  induction hp with
  | done s => exact absurd rfl hne
  | @step s t u ss _ ht hp ih =>
    obtain ⟨hsome, hpaused⟩ := paused_step ht hs
    cases hp with
    | done =>
      apply Bool.eq_iff_iff.mpr
      exact ⟨hsome, fun h => hpaused h hu⟩
    | step hlt hnext hp => exact ih hsome (List.cons_ne_nil _ _) hu

end Naps

end Headway.Simulation.State
