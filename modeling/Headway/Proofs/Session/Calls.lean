import Headway.Proofs.Session.History
import Headway.Proofs.Transfer.Answers

/-!
The reporter of a session replaced by explicit calls.  The `timetable` of a history has the times of
all ticks; `calls` are the operations of a transfer that is ticked at these times and hears the same
news, and `completion` is the report of that transfer when the task closes.
-/

namespace Headway.Session

open Transfer (Operation)

def due (first : Instant) (interval : Duration) (k : ℕ) : Instant :=
  ⟨first.nanos + k * interval.nanos⟩

def dueBy (first : Instant) (interval : Duration) (t : Instant) : ℕ :=
  (t.nanos - first.nanos).toNat / interval.nanos + 1

def timetable (interval : Duration) (past : List Moment) (t : Instant) : List Instant :=
  match firstTick? past with
  | some first =>
    (List.range (dueBy first interval ((closing? past).getD t))).map (due first interval)
  | none => []

def walk : Instant → List Instant → Instant → List Operation
  | a, [], b => [.advance (b.since a)]
  | a, t :: ts, b => .advance (t.since a) :: .tickLive :: walk t ts b

def calls (interval : Duration) : List Moment → List Operation
  | [] => []
  | m :: past =>
    calls interval past ++
      match m.action with
      | .sleep _ | .wait =>
        walk m.time ((timetable interval (m :: past) m.ends).drop
          (timetable interval past m.time).length) m.ends
      | .hear news => [.hear news]
      | _ => []

def completion (options : EstimatorOptions) (interval : Duration) : List Moment → List Emission
  | [] => []
  | m :: past =>
    completion options interval past ++
      if (closing? past).isNone && closes past m then
        [⟨m.time, ((Transfer.starting options).after (calls interval past)).finalReport⟩]
      else []

def Ascending : Instant → List Instant → Instant → Prop
  | a, [], b => a.nanos ≤ b.nanos
  | a, t :: ts, b => a.nanos ≤ t.nanos ∧ Ascending t ts b

section Facts

variable {options : EstimatorOptions} {interval : Duration} {past : List Moment} {m : Moment}
  {t : Instant}

theorem timetable_of_none (h : firstTick? past = none) (t : Instant) :
    timetable interval past t = [] := by
  rw [timetable, h]

theorem timetable_of_not_givesTurn (h : m.givesTurn = false) (t : Instant) :
    timetable interval (m :: past) t = timetable interval past t := by
  rw [timetable, timetable, firstTick?_cons (ticks_of_not_givesTurn h),
    closing?_cons (closes_of_not_givesTurn h)]

theorem timetable_of_stopAsked (h : stopAsked (m :: past) = true) :
    timetable interval (m :: past) m.ends = timetable interval past m.time := by
  cases hg : m.givesTurn with
  | false => rw [timetable_of_not_givesTurn hg, ends_of_not_givesTurn hg]
  | true =>
    have hfirst := firstTick?_cons (ticks_of_stopAsked h)
    cases hf : firstTick? past with
    | none => rw [timetable_of_none (hfirst.trans hf), timetable_of_none hf]
    | some first =>
      rw [timetable, timetable, hfirst, hf]
      cases hc : closing? past with
      | some t => rw [closing?_of_some hc, Option.getD_some, Option.getD_some]
      | none =>
        have hcl : closes past m = true := by
          rw [closes, hg, started_of_firstTick? hf, h]
          rfl
        rw [closing?_of_closes hc hcl, Option.getD_some, Option.getD_none]

theorem calls_append (interval : Duration) (new past : List Moment) :
    ∃ ops, calls interval (new ++ past) = calls interval past ++ ops := by
  induction new with
  | nil => exact ⟨[], (List.append_nil _).symm⟩
  | cons m new ih =>
    obtain ⟨ops, ih⟩ := ih
    rw [List.cons_append, calls, ih, List.append_assoc]
    exact ⟨_, rfl⟩

theorem completion_cons (h : closes past m = false) :
    completion options interval (m :: past) = completion options interval past := by
  rw [completion, h, Bool.and_false, if_neg Bool.false_ne_true, List.append_nil]

theorem completion_of_closing?_some (h : closing? past = some t) :
    completion options interval (m :: past) = completion options interval past := by
  rw [completion, h, Option.isNone_some, Bool.false_and, if_neg Bool.false_ne_true,
    List.append_nil]

theorem completion_of_closing?_none (h : closing? past = none) :
    completion options interval past = [] := by
  induction past with
  | nil => rfl
  | cons m past ih =>
    obtain ⟨h, hc⟩ := closing?_eq_none h
    rw [completion_cons hc, ih h]

theorem completion_of_closes (h : closing? past = none) (hc : closes past m = true) :
    completion options interval (m :: past) =
      [⟨m.time, ((Transfer.starting options).after (calls interval past)).finalReport⟩] := by
  rw [completion, completion_of_closing?_none h, h, hc]
  rfl

theorem time_completion (options : EstimatorOptions) (interval : Duration) (past : List Moment) :
    (completion options interval past).map Emission.time = (closing? past).toList := by
  induction past with
  | nil => rfl
  | cons m past ih =>
    cases hc : closing? past with
    | some t => rw [completion_of_closing?_some hc, ih, closing?_of_some hc, hc]
    | none =>
      cases hcl : closes past m with
      | false => rw [completion_cons hcl, ih, closing?_cons hcl]
      | true =>
        rw [completion_of_closes hc hcl, closing?_of_closes hc hcl]
        rfl

theorem completion_append (h : closing? past = some t) (new : List Moment) :
    completion options interval (new ++ past) = completion options interval past := by
  induction new with
  | nil => rfl
  | cons m new ih =>
    rw [List.cons_append, completion_of_closing?_some (closing?_append h new), ih]

end Facts

section Arithmetic

variable {first t : Instant} {interval : Duration} {k n : ℕ}

theorem nanos_due : (due first interval k).nanos = first.nanos + (k * interval.nanos : ℕ) := by
  rw [due, Int.natCast_mul]

theorem lt_dueBy_iff (hi : 0 < interval.nanos) (ht : first.nanos ≤ t.nanos) :
    k < dueBy first interval t ↔ (due first interval k).nanos ≤ t.nanos := by
  rw [dueBy, Nat.lt_succ_iff, Nat.le_div_iff_mul_le hi, nanos_due]
  omega

theorem due_zero (first : Instant) (interval : Duration) : due first interval 0 = first := by
  rw [due, Int.natCast_zero, Int.zero_mul, Int.add_zero]

theorem due_later (first : Instant) (interval : Duration) (k : ℕ) :
    due (first.later interval) interval k = due first interval (k + 1) := by
  rw [Instant.later, due, due, Int.natCast_succ, Int.add_mul, Int.one_mul, Int.add_comm (k * _),
    Int.add_assoc]

theorem later_due (first : Instant) (interval : Duration) (k : ℕ) :
    (due first interval k).later interval = due first interval (k + 1) := by
  rw [Instant.later, due, due, Int.natCast_succ, Int.add_mul, Int.one_mul, Int.add_assoc]

theorem dueCount_eq {r : Reporter} (hi : 0 < r.interval.nanos) (ht : first.nanos ≤ t.nanos)
    (hw : r.task = .waiting (due first r.interval n)) :
    r.dueCount t = dueBy first r.interval t - n := by
  rw [Reporter.dueCount, hw]
  simp only
  split
  next hd =>
    have hn := (lt_dueBy_iff hi ht).mpr hd
    rw [nanos_due] at hd ⊢
    have hs : (t.nanos - (first.nanos + (n * r.interval.nanos : ℕ))).toNat =
        (t.nanos - first.nanos).toNat - r.interval.nanos * n := by
      rw [Nat.mul_comm]
      omega
    rw [dueBy] at hn ⊢
    rw [hs, Nat.sub_mul_div]
    omega
  next hd =>
    have hn := mt (lt_dueBy_iff hi ht).mp hd
    omega

end Arithmetic

section Walk

variable {a b : Instant} {ts : List Instant} {t : Transfer}

theorem Ascending.le (h : Ascending a ts b) : a.nanos ≤ b.nanos := by
  induction ts generalizing a with
  | nil => exact h
  | cons t ts ih => exact Int.le_trans h.1 (ih h.2)

theorem later_since (h : a.nanos ≤ b.nanos) (hb : b.nanos < a.nanos + Duration.limit) :
    a.later (b.since a) = b := by
  have hn : a.nanos + (min (b.nanos - a.nanos).toNat (Duration.limit - 1) : ℕ) = b.nanos := by
    omega
  exact congrArg Instant.mk hn

theorem after_walk_nil (h : t.now.nanos ≤ b.nanos) (hb : b.nanos < t.now.nanos + Duration.limit) :
    t.after (walk t.now [] b) = { t with now := b } := by
  have hs := later_since h hb
  change ({ t with now := t.now.later (b.since t.now) } : Transfer) = _
  rw [hs]

theorem after_walk_cons {u : Instant} (h : t.now.nanos ≤ u.nanos)
    (hu : u.nanos < t.now.nanos + Duration.limit) :
    t.after (walk t.now (u :: ts) b) =
      (({ t with now := u } : Transfer).next .tickLive).after (walk u ts b) := by
  have hs := later_since h hu
  change ((({ t with now := t.now.later (u.since t.now) } : Transfer).next .tickLive).after _) = _
  rw [hs]

theorem emissions_walk_cons {u : Instant} (h : t.now.nanos ≤ u.nanos)
    (hu : u.nanos < t.now.nanos + Duration.limit) :
    t.emissions (walk t.now (u :: ts) b) =
      ({ t with now := u } : Transfer).emitted .tickLive ++
        (({ t with now := u } : Transfer).next .tickLive).emissions (walk u ts b) := by
  have hs := later_since h hu
  change ({ t with now := t.now.later (u.since t.now) } : Transfer).emitted .tickLive ++
    (({ t with now := t.now.later (u.since t.now) } : Transfer).next .tickLive).emissions _ = _
  rw [hs]

theorem tickTimes_walk (ha : Ascending t.now ts b) (hb : b.nanos < t.now.nanos + Duration.limit) :
    t.tickTimes (walk t.now ts b) = ts := by
  induction ts generalizing t with
  | nil => rfl
  | cons u us ih =>
    obtain ⟨hu, ha⟩ := ha
    have hs := later_since hu (Int.lt_of_le_of_lt ha.le hb)
    have hrest := ih (t := ({ t with now := u } : Transfer).next .tickLive) ha
      (Int.lt_of_lt_of_le hb (Int.add_le_add_right hu _))
    change ({ t with now := t.now.later (u.since t.now) } : Transfer).now ::
      (({ t with now := t.now.later (u.since t.now) } : Transfer).next .tickLive).tickTimes _ = _
    rw [hs]
    exact congrArg (u :: ·) hrest

theorem ascending_due {first : Instant} {interval : Duration} {n k : ℕ} (hab : a.nanos ≤ b.nanos)
    (ha : a.nanos ≤ (due first interval n).nanos)
    (hb : ∀ i < n + k, (due first interval i).nanos ≤ b.nanos) :
    Ascending a ((List.range' n k).map (due first interval)) b := by
  induction k generalizing a n with
  | zero => exact hab
  | succ k ih =>
    rw [List.range'_succ]
    refine ⟨ha, ih (hb n (by omega)) ?_ fun i hi => hb i (by omega)⟩
    rw [← later_due]
    change _ ≤ (due first interval n).nanos + (interval.nanos : Int)
    omega

end Walk

section Onward

open Transfer (Onward)

variable {interval : Duration} {past : List Moment}

theorem onward_walk (a : Instant) (ts : List Instant) (b : Instant) :
    ∀ op ∈ walk a ts b, Onward op := by
  induction ts generalizing a with
  | nil =>
    intro op hop
    obtain rfl := List.mem_singleton.mp hop
    exact .advance _
  | cons t ts ih =>
    intro op hop
    rcases List.mem_cons.mp hop with rfl | hop
    · exact .advance _
    · rcases List.mem_cons.mp hop with rfl | hop
      · exact .tickLive
      · exact ih t op hop

theorem onward_calls (h : ∀ m ∈ past, ∀ news, m.action = .hear news → Onward (.hear news)) :
    ∀ op ∈ calls interval past, Onward op := by
  induction past with
  | nil =>
    intro op hop
    cases hop
  | cons m past ih =>
    have hpast := ih fun m' hm => h m' (List.mem_cons_of_mem m hm)
    intro op hop
    rw [calls, List.mem_append] at hop
    rcases hop with hop | hop
    · exact hpast op hop
    · split at hop
      next => exact onward_walk _ _ _ op hop
      next => exact onward_walk _ _ _ op hop
      next news hm =>
        obtain rfl := List.mem_singleton.mp hop
        exact h m List.mem_cons_self news hm
      next => cases hop

end Onward

end Headway.Session
