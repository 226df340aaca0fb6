import Headway.Proofs.Trace
import Headway.Reporter

namespace Headway.Session

def next (s : Session) (a : Action) : Session := (s.act a).1

def after (s : Session) (as : List Action) : Session := as.foldl next s

@[simp] theorem after_singleton (s : Session) (a : Action) : s.after [a] = s.next a := rfl

@[simp] theorem after_append (s : Session) (as more : List Action) :
    s.after (as ++ more) = (s.after as).after more := List.foldl_append

def emissions : Session → List Action → List Emission := trace next fun s a => (s.act a).2.2

theorem emissions_append (s : Session) (as more : List Action) :
    s.emissions (as ++ more) = s.emissions as ++ (s.after as).emissions more :=
  trace_append _ _ _ _ _

structure Moment where
  time : Instant
  action : Action
  answer : Answer

namespace Moment

def starts (m : Moment) : Bool :=
  match m.answer with
  | .started (.ok started) => started
  | _ => false

def asksStop (m : Moment) : Bool :=
  match m.action, m.answer with
  | .stop, .done => true
  | .signal, _ | .drop, _ => true
  | _, _ => false

/-- A started task has its turn when time passes, or when somebody waits. -/
def givesTurn (m : Moment) : Bool :=
  match m.action, m.answer with
  | .sleep _, _ | .wait, _ => true
  | .stop, .done => true
  | _, _ => false

def ends (m : Moment) : Instant :=
  match m.action with
  | .sleep d => m.time.later d.slept
  | _ => m.time

end Moment

def moment (s : Session) (a : Action) : Moment := ⟨s.transfer.now, a, (s.act a).2.1⟩

def history (s : Session) (as : List Action) : List Moment :=
  (trace next (fun s a => [s.moment a]) s as).reverse

theorem history_append (s : Session) (as more : List Action) :
    s.history (as ++ more) = (s.after as).history more ++ s.history as := by
  rw [history, trace_append, List.reverse_append]
  rfl

theorem history_append_singleton (s : Session) (as : List Action) (a : Action) :
    s.history (as ++ [a]) = (s.after as).moment a :: s.history as := history_append s as [a]

theorem history_cons (s : Session) (a : Action) (as : List Action) :
    s.history (a :: as) = (s.next a).history as ++ [s.moment a] := history_append s [a] as

theorem action_history (s : Session) (as : List Action) :
    ∀ m ∈ s.history as, m.action ∈ as := by
  induction as generalizing s with
  | nil =>
    intro m hm
    cases hm
  | cons a as ih =>
    intro m hm
    rw [history_cons, List.mem_append] at hm
    rcases hm with hm | hm
    · exact List.mem_cons_of_mem a (ih _ m hm)
    · obtain rfl := List.mem_singleton.mp hm
      exact List.mem_cons_self

def started (past : List Moment) : Bool := past.any Moment.starts

def stopAsked (past : List Moment) : Bool := past.any Moment.asksStop

def ticks (past : List Moment) (m : Moment) : Bool :=
  m.givesTurn && started past && !stopAsked (m :: past)

def closes (past : List Moment) (m : Moment) : Bool :=
  m.givesTurn && started past && stopAsked (m :: past)

def firstTick? : List Moment → Option Instant
  | [] => none
  | m :: past => (firstTick? past).or (if ticks past m then some m.time else none)

def closing? : List Moment → Option Instant
  | [] => none
  | m :: past => (closing? past).or (if closes past m then some m.time else none)

section Facts

variable {past : List Moment} {m : Moment} {t : Instant}

theorem started_cons (h : m.starts = false) : started (m :: past) = started past := by
  rw [started, List.any_cons, h, Bool.false_or, started]

theorem stopAsked_cons (h : m.asksStop = false) : stopAsked (m :: past) = stopAsked past := by
  rw [stopAsked, List.any_cons, h, Bool.false_or, stopAsked]

theorem started_append (new past : List Moment) :
    started (new ++ past) = (started new || started past) := List.any_append

theorem stopAsked_append (new past : List Moment) :
    stopAsked (new ++ past) = (stopAsked new || stopAsked past) := List.any_append

theorem firstTick?_cons (h : ticks past m = false) : firstTick? (m :: past) = firstTick? past := by
  rw [firstTick?, h, if_neg Bool.false_ne_true, Option.or_none]

theorem closing?_cons (h : closes past m = false) : closing? (m :: past) = closing? past := by
  rw [closing?, h, if_neg Bool.false_ne_true, Option.or_none]

theorem firstTick?_of_some (h : firstTick? past = some t) : firstTick? (m :: past) = some t := by
  rw [firstTick?, h, Option.some_or]

theorem closing?_of_some (h : closing? past = some t) : closing? (m :: past) = some t := by
  rw [closing?, h, Option.some_or]

theorem closing?_of_closes (h : closing? past = none) (hc : closes past m = true) :
    closing? (m :: past) = some m.time := by
  rw [closing?, h, hc]
  rfl

theorem closing?_eq_none (h : closing? (m :: past) = none) :
    closing? past = none ∧ closes past m = false := by
  rw [closing?, Option.or_eq_none_iff] at h
  refine ⟨h.1, ?_⟩
  cases hc : closes past m with
  | false => rfl
  | true =>
    rw [hc, if_pos rfl] at h
    cases h.2

theorem closing?_append (h : closing? past = some t) (new : List Moment) :
    closing? (new ++ past) = some t := by
  induction new with
  | nil => exact h
  | cons m new ih => exact closing?_of_some ih

theorem started_of_firstTick? (h : firstTick? past = some t) : started past = true := by
  induction past with
  | nil => cases h
  | cons m past ih =>
    rw [started, List.any_cons, ← started]
    cases hf : firstTick? past with
    | some t' => rw [ih (hf.trans ((firstTick?_of_some hf).symm.trans h)), Bool.or_true]
    | none =>
      rw [firstTick?, hf, Option.none_or] at h
      split at h
      next ht =>
        rw [ticks, Bool.and_eq_true, Bool.and_eq_true] at ht
        rw [ht.1.2, Bool.or_true]
      next => cases h

theorem of_closing? (h : closing? past = some t) :
    started past = true ∧ stopAsked past = true := by
  induction past with
  | nil => cases h
  | cons m past ih =>
    rw [started, stopAsked, List.any_cons, List.any_cons, ← started, ← stopAsked]
    cases hc : closing? past with
    | some t' =>
      obtain ⟨hs, ha⟩ := ih (hc.trans ((closing?_of_some hc).symm.trans h))
      rw [hs, ha, Bool.or_true, Bool.or_true]
      exact ⟨rfl, rfl⟩
    | none =>
      rw [closing?, hc, Option.none_or] at h
      split at h
      next hcl =>
        rw [closes, Bool.and_eq_true, Bool.and_eq_true] at hcl
        obtain ⟨⟨-, hs⟩, ha⟩ := hcl
        rw [hs, Bool.or_true]
        exact ⟨rfl, ha⟩
      next => cases h

theorem ticks_of_stopAsked (h : stopAsked (m :: past) = true) : ticks past m = false := by
  rw [ticks, h, Bool.not_true, Bool.and_false]

theorem ticks_of_not_givesTurn (h : m.givesTurn = false) : ticks past m = false := by
  rw [ticks, h, Bool.false_and, Bool.false_and]

theorem closes_of_not_givesTurn (h : m.givesTurn = false) : closes past m = false := by
  rw [closes, h, Bool.false_and, Bool.false_and]

theorem ends_of_not_givesTurn (h : m.givesTurn = false) : m.ends = m.time := by
  rw [Moment.ends]
  split
  next ha =>
    rw [Moment.givesTurn, ha] at h
    cases h
  next => rfl

end Facts

end Headway.Session
