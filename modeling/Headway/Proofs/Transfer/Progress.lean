import Headway.Proofs.Transfer.Replay

namespace Headway.Transfer

open Samples

variable {t : Transfer} {op : Operation} {ops more : List Operation}

theorem progress_step_of_done (hf : t.faults [op] = [])
    (h : t.estimator.statistics.progress = 1.0) :
    (t.step op).1.estimator.statistics.progress = 1.0 := by
  cases ha : t.asked op with
  | none => rw [(step_of_not_asked ha).2.1, h]
  | some live =>
    obtain ⟨e, r, ht, hs, -, -⟩ := ticks_of_asked ha hf
    rw [hs]
    cases ht with
    | unanswered => exact h
    | stalled => exact h
    | skipped => exact h
    | completed =>
      change (if t.estimator.statistics.progress < unitInterval _ then _ else _) = _
      rw [h, if_neg]
      exact Binary64.not_lt_of_le (unitInterval_mem _).2

theorem progress_after_of_done (hf : t.faults ops = [])
    (h : t.estimator.statistics.progress = 1.0) :
    (t.after ops).estimator.statistics.progress = 1.0 := by
  induction ops using List.reverseRecOn with
  | nil => exact h
  | append_singleton ops op ih =>
    rw [faults_append_eq_nil] at hf
    rw [after_append]
    exact progress_step_of_done hf.2 (ih hf.1)

variable (options : EstimatorOptions) (now : Instant) (live : LiveTotals)

theorem progress_le_after (hf : (beginning options now live).faults (ops ++ more) = []) :
    ((beginning options now live).after ops).estimator.statistics.progress ≤
      ((beginning options now live).after (ops ++ more)).estimator.statistics.progress := by
  have h := (recorded_after options now live (faults_append_eq_nil.mp hf).1).replay.progress.1
  have hm := (recorded_after options now live hf).replay.progress.2
  apply hm
  rw [visits_append, samples_append, estimates_append]
  rcases List.mem_cons.mp h with hz | he
  · rw [hz]
    exact List.mem_cons_self
  · exact List.mem_cons_of_mem _ (List.mem_append_left _ he)

theorem report_of_done (hf : (beginning options now live).faults (ops ++ more) = [])
    (h : ((beginning options now live).after ops).estimator.statistics.progress = 1.0)
    {e : Emission} (he : e ∈ ((beginning options now live).after ops).emissions more) :
    e.report.percent = 100.0 ∧ e.report.eta = 0 := by
  obtain ⟨before, op, later, rfl, hop⟩ := mem_trace he
  -- The report is on what the step leaves, so the run counts up to that step and with it.
  rw [show ops ++ (before ++ op :: later) = ops ++ (before ++ [op]) ++ later by simp,
    faults_append_eq_nil] at hf
  have hmore := (faults_append_eq_nil.mp hf.1).2
  obtain ⟨-, stalled, hreport⟩ := report_of_emitted (faults_append_eq_nil.mp hmore).2 hop
  have hp := progress_after_of_done hmore h
  have hr := (recorded_after options now live hf.1).replay
  rw [after_append] at hp
  rw [after_append, after_append] at hr
  rw [hreport]
  constructor
  · have hh : (100.0 : Float) * 1.0 = 100.0 := by decide
    exact (congrArg (100.0 * ·) hp).trans hh
  · exact hr.eta_of_progress hp

theorem progress_isGreatest (ops more : List Operation)
    (hf : (beginning options now live).faults (ops ++ more) = []) :
    let b := beginning options now live
    let p := (b.after ops).estimator.statistics.progress
    (∀ x, (x.isNaN = true ∨ x < 0.0 → unitInterval x = 0.0) ∧
        (0.0 ≤ x ∧ x ≤ 1.0 → unitInterval x = x) ∧ (1.0 < x → unitInterval x = 1.0)) ∧
      IsGreatest {q | q ∈ (0.0 : Float) :: estimates [] (samples none (b.visits ops))} p ∧
      (0.0 ≤ p ∧ p ≤ 1.0) ∧
      p ≤ (b.after (ops ++ more)).estimator.statistics.progress ∧
      (p = 1.0 →
        (∀ e ∈ (b.after ops).emissions more, e.report.percent = 100.0 ∧ e.report.eta = 0) ∧
        (b.after (ops ++ more)).finalReport.percent = 100.0 ∧
        (b.after (ops ++ more)).finalReport.eta = 0) := by
  intro b p
  have hr := (recorded_after options now live (faults_append_eq_nil.mp hf).1).replay
  have hclamp (x : Float) : (x.isNaN = true ∨ x < 0.0 → unitInterval x = 0.0) ∧
      (0.0 ≤ x ∧ x ≤ 1.0 → unitInterval x = x) ∧ (1.0 < x → unitInterval x = 1.0) :=
    ⟨unitInterval_eq_zero, fun h => unitInterval_eq_self h.1 h.2, unitInterval_eq_one⟩
  refine ⟨hclamp, hr.progress, hr.progress_mem, progress_le_after options now live hf, ?_⟩
  intro h
  exact ⟨fun e he => report_of_done options now live hf h he, rfl, rfl⟩

def partway : List Operation :=
  [.hear (.evidence ⟨600, 400⟩), .hear (.bytes 50), .tick ⟨100, 200⟩]

def overshoot : List Operation :=
  [.hear (.bytes 18446744073709551615), .tick ⟨18446744073709551615, 18446744073709551615⟩]

def overshot : List Operation :=
  [.advance (.ofSeconds 1), .tick ⟨1, 1⟩, .advance (.ofSeconds 60), .tick ⟨2, 2⟩]

theorem progress_isGreatest_overshoot :
    let b := beginning .standard ⟨0⟩ .zero
    b.faults (partway ++ (overshoot ++ overshot)) = [] ∧
      b.faults ((partway ++ overshoot) ++ overshot) = [] ∧
      IsGreatest {q | q = 0.0 ∨ q = 0.05} (b.after partway).estimator.statistics.progress ∧
      (b.after partway).estimator.statistics.progress = 0.05 ∧
      (b.after (partway ++ overshoot)).estimator.statistics.progress = 1.0 ∧
      ((b.after (partway ++ overshoot)).emissions overshot).map
        (fun e => (e.report.percent, e.report.eta, e.report.stalled)) =
          [(100.0, 0, false), (100.0, 0, true)] ∧
      ∀ e ∈ (b.after (partway ++ overshoot)).emissions overshot,
        e.report.percent = 100.0 ∧ e.report.eta = 0 := by
  intro b
  have hf : b.faults (partway ++ (overshoot ++ overshot)) = [] := by decide +kernel
  have hf' : b.faults ((partway ++ overshoot) ++ overshot) = [] := by
    rwa [List.append_assoc]
  have hp : (b.after (partway ++ overshoot)).estimator.statistics.progress = 1.0 := by
    decide +kernel
  have hgreatest := (progress_isGreatest .standard ⟨0⟩ .zero partway (overshoot ++ overshot) hf).2.1
  have hest : (0.0 : Float) :: estimates [] (samples none (b.visits partway)) = [0.0, 0.05] := by
    decide +kernel
  refine ⟨hf, hf', ?_, by decide +kernel, hp, by decide +kernel, ?_⟩
  · rw [hest] at hgreatest
    simpa using hgreatest
  · exact ((progress_isGreatest .standard ⟨0⟩ .zero (partway ++ overshoot) overshot hf').2.2.2.2
      hp).1

end Headway.Transfer
