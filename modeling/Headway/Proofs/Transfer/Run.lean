import Headway.Proofs.Estimator.Tick
import Headway.Proofs.Trace
import Headway.Reporter

namespace Headway.Transfer

def beginning (options : EstimatorOptions) (now : Instant) (live : LiveTotals) : Transfer :=
  ⟨now, .new options now, live⟩

def next (t : Transfer) (op : Operation) : Transfer := (t.step op).1

def after (t : Transfer) (ops : List Operation) : Transfer := ops.foldl next t

@[simp] theorem after_append (t : Transfer) (ops more : List Operation) :
    t.after (ops ++ more) = (t.after ops).after more := List.foldl_append

def asked (t : Transfer) : Operation → Option LiveTotals
  | .tick live => some live
  | .tickLive => some t.live
  | _ => none

def visit (t : Transfer) (op : Operation) : List Visit :=
  ((t.asked op).bind (t.estimator.visit? t.now)).toList

def visits : Transfer → List Operation → List Visit := trace next visit

def Outcome.report : Outcome → Option Report
  | .ticked (.ok r) => r
  | _ => none

def Outcome.fault : Outcome → Option Fault
  | .ticked (.error f) => some f
  | _ => none

def emitted (t : Transfer) (op : Operation) : List Emission :=
  (t.step op).2.report.toList.map (Emission.mk t.now)

def emissions : Transfer → List Operation → List Emission := trace next emitted

def faults : Transfer → List Operation → List Fault :=
  trace next fun t op => (t.step op).2.fault.toList

def tickTimes : Transfer → List Operation → List Instant :=
  trace next fun t op => if (t.asked op).isSome then [t.now] else []

theorem visits_append (t : Transfer) (ops more : List Operation) :
    t.visits (ops ++ more) = t.visits ops ++ (t.after ops).visits more :=
  trace_append _ _ _ _ _

theorem emissions_append (t : Transfer) (ops more : List Operation) :
    t.emissions (ops ++ more) = t.emissions ops ++ (t.after ops).emissions more :=
  trace_append _ _ _ _ _

theorem faults_append (t : Transfer) (ops more : List Operation) :
    t.faults (ops ++ more) = t.faults ops ++ (t.after ops).faults more :=
  trace_append _ _ _ _ _

theorem tickTimes_append (t : Transfer) (ops more : List Operation) :
    t.tickTimes (ops ++ more) = t.tickTimes ops ++ (t.after ops).tickTimes more :=
  trace_append _ _ _ _ _

variable {t : Transfer} {op : Operation} {live : LiveTotals}

theorem step_of_asked (h : t.asked op = some live) :
    t.step op = ({ t with estimator := (t.estimator.tick t.now live).1 },
      .ticked (t.estimator.tick t.now live).2) := by
  cases op with
  | tick => cases h; rfl
  | tickLive => cases h; rfl
  | advance => cases h
  | rewind => cases h
  | hear => cases h

theorem visit_of_asked (h : t.asked op = some live) :
    t.visit op = (t.estimator.visit? t.now live).toList := by
  rw [visit, h, Option.bind_some]

theorem faults_of_not_asked (h : t.asked op = none) : t.faults [op] = [] := by
  cases op with
  | tick => cases h
  | tickLive => cases h
  | advance => rfl
  | rewind => rfl
  | hear => rfl

theorem ticks_of_asked (h : t.asked op = some live) (hf : t.faults [op] = []) :
    ∃ e r, t.estimator.Ticks t.now live e r ∧ (t.step op).1 = { t with estimator := e } ∧
      t.visit op = (t.estimator.visit? t.now live).toList ∧
      t.emitted op = r.toList.map (Emission.mk t.now) := by
  rw [faults, trace_singleton, step_of_asked h] at hf
  rw [visit_of_asked h, emitted, step_of_asked h]
  cases hr : (t.estimator.tick t.now live).2 with
  | error f => rw [hr] at hf; cases hf
  | ok r => exact ⟨_, r, Estimator.ticks_of_tick (Prod.ext rfl hr), rfl, rfl, rfl⟩

theorem faults_append_eq_nil {ops more : List Operation} :
    t.faults (ops ++ more) = [] ↔ t.faults ops = [] ∧ (t.after ops).faults more = [] := by
  rw [faults_append, List.append_eq_nil_iff]

theorem setEvidence_eq_ok {e e' : Estimator} {v : Evidence} (h : e.setEvidence v = .ok e') :
    e.evidence = none ∧ e' = { e with evidence := some v } := by
  rw [Estimator.setEvidence] at h
  split at h
  next hn => cases h; exact ⟨hn, rfl⟩
  next => cases h

theorem hear_frame (t : Transfer) (news : News) :
    (t.hear news).1.now = t.now ∧
      (t.hear news).1.estimator.options = t.estimator.options ∧
      (t.hear news).1.estimator.statistics = t.estimator.statistics ∧
      (t.hear news).1.estimator.time.last = t.estimator.time.last := by
  cases news with
  | bytes n =>
    refine ⟨rfl, rfl, rfl, ?_⟩
    simp only [hear, Estimator.record]
    split
    · rfl
    · rfl
  | evidence v =>
    rw [hear]
    split
    next e hv =>
      obtain ⟨-, rfl⟩ := setEvidence_eq_ok hv
      exact ⟨rfl, rfl, rfl, rfl⟩
    next => exact ⟨rfl, rfl, rfl, rfl⟩
  | live u => exact ⟨rfl, rfl, rfl, rfl⟩

theorem first_hear (t : Transfer) (news : News) :
    (t.hear news).1.estimator.time.first = t.estimator.time.first := by
  cases news with
  | bytes n =>
    simp only [hear, Estimator.record]
    split
    · rfl
    · rfl
  | evidence v =>
    rw [hear]
    split
    next e hv =>
      obtain ⟨-, rfl⟩ := setEvidence_eq_ok hv
      rfl
    next => rfl
  | live u => rfl

theorem step_of_not_asked (h : t.asked op = none) :
    (t.step op).1.estimator.options = t.estimator.options ∧
      (t.step op).1.estimator.statistics = t.estimator.statistics ∧
      (t.step op).1.estimator.time.last = t.estimator.time.last ∧
      t.visit op = [] ∧ t.emitted op = [] := by
  cases op with
  | tick => cases h
  | tickLive => cases h
  | advance d => exact ⟨rfl, rfl, rfl, rfl, rfl⟩
  | rewind d => exact ⟨rfl, rfl, rfl, rfl, rfl⟩
  | hear news =>
    obtain ⟨-, ho, hs, hl⟩ := hear_frame t news
    exact ⟨ho, hs, hl, rfl, rfl⟩

theorem report_of_emitted (hf : t.faults [op] = []) {e : Emission} (he : e ∈ t.emitted op) :
    e.time = t.now ∧ ∃ stalled, e.report = (t.step op).1.estimator.report t.now stalled := by
  cases ha : t.asked op with
  | none =>
    rw [(step_of_not_asked ha).2.2.2.2] at he
    cases he
  | some live =>
    obtain ⟨next, r, ht, hs, -, hr⟩ := ticks_of_asked ha hf
    rw [hr] at he
    rw [hs]
    cases ht with
    | unanswered => cases he
    | skipped => cases he
    | stalled =>
      cases List.mem_singleton.mp he
      exact ⟨rfl, true, rfl⟩
    | completed =>
      cases List.mem_singleton.mp he
      exact ⟨rfl, false, rfl⟩

theorem emissions_eq_nil {t : Transfer} {ops : List Operation} (h : t.tickTimes ops = []) :
    t.emissions ops = [] := by
  induction ops generalizing t with
  | nil => rfl
  | cons op ops ih =>
    rw [tickTimes, trace, List.append_eq_nil_iff] at h
    obtain ⟨hop, h⟩ := h
    rw [emissions, trace, ← emissions, ih h, List.append_nil]
    cases ha : t.asked op with
    | none => exact (step_of_not_asked ha).2.2.2.2
    | some live =>
      rw [ha] at hop
      cases hop

end Headway.Transfer
