import Headway.Proofs.Estimator.Samples
import Headway.Proofs.Transfer.Run

namespace Headway.Transfer

open Statistics Samples

def samples : Option Instant → List Visit → List Sample
  | _, [] => []
  | before, v :: vs =>
    (if v.Completes then [v.sample before] else []) ++ samples (some v.time) vs

def lastVisit (before : Option Instant) (vs : List Visit) : Option Instant :=
  vs.foldl (fun _ v => some v.time) before

theorem samples_append (before : Option Instant) (vs ws : List Visit) :
    samples before (vs ++ ws) = samples before vs ++ samples (lastVisit before vs) ws := by
  induction vs generalizing before with
  | nil => rfl
  | cons v vs ih =>
    rw [List.cons_append, samples, ih, samples, List.append_assoc]
    rfl

theorem samples_append_singleton (before : Option Instant) (vs : List Visit) (v : Visit) :
    samples before (vs ++ [v]) =
      samples before vs ++ if v.Completes then [v.sample (lastVisit before vs)] else [] := by
  rw [samples_append, samples, samples, List.append_nil]

structure Recorded (t : Transfer) (vs : List Visit) : Prop where
  last : t.estimator.time.last = lastVisit none vs
  replay : Replay t.estimator.options.rateWindow (samples none vs) t.estimator.statistics
  total : ∀ x ∈ samples none vs, x.total ≤ t.estimator.total
  evidence : ∀ x ∈ samples none vs, t.estimator.evidence.map Evidence.total = some x.evidence

variable {t : Transfer} {op : Operation} {vs : List Visit}

theorem lastVisit_append_singleton (before : Option Instant) (vs : List Visit) (v : Visit) :
    lastVisit before (vs ++ [v]) = some v.time := by
  rw [lastVisit, List.foldl_append]
  rfl

theorem Recorded.pass {live : LiveTotals} {v : Visit} (h : Recorded t vs)
    (hv : t.estimator.visit? t.now live = some v) (hc : ¬ v.Completes) :
    Recorded { t with estimator := t.estimator.visit t.now } (vs ++ [v]) := by
  have htime := (Estimator.visit?_eq_some hv).2.2.1
  have hs : samples none (vs ++ [v]) = samples none vs := by
    rw [samples_append_singleton, if_neg hc, List.append_nil]
  refine ⟨?_, ?_, ?_, ?_⟩
  · rw [lastVisit_append_singleton, htime]
    rfl
  · rw [hs]
    exact h.replay
  · rw [hs]
    exact h.total
  · rw [hs]
    exact h.evidence

theorem Recorded.complete {live : LiveTotals} {v : Visit} {accumulated : Duration}
    (h : Recorded t vs) (hv : t.estimator.visit? t.now live = some v) (hc : v.Completes)
    (ha : t.estimator.statistics.accumulated.add? (v.elapsed t.estimator.time.last) =
      some accumulated) :
    Recorded { t with
      estimator := t.estimator.completed t.now (v.sample t.estimator.time.last) accumulated }
      (vs ++ [v]) := by
  obtain ⟨-, hev, htime, -, htotal, -⟩ := Estimator.visit?_eq_some hv
  have hs : samples none (vs ++ [v]) = samples none vs ++ [v.sample t.estimator.time.last] := by
    rw [samples_append_singleton, if_pos hc, ← h.last]
  refine ⟨?_, ?_, ?_, ?_⟩
  · rw [lastVisit_append_singleton, htime]
    rfl
  · rw [hs]
    apply h.replay.add ha
    intro y hy
    change y.total ≤ v.total
    rw [htotal]
    exact h.total y hy
  · intro x hx
    rw [hs, List.mem_append, List.mem_singleton] at hx
    rcases hx with hx | rfl
    · exact h.total x hx
    · exact UInt64.le_of_eq htotal
  · intro x hx
    rw [hs, List.mem_append, List.mem_singleton] at hx
    rcases hx with hx | rfl
    · exact h.evidence x hx
    · exact hev

theorem Recorded.tick {live : LiveTotals} {e : Estimator} {r : Option Report} (h : Recorded t vs)
    (ht : t.estimator.Ticks t.now live e r) :
    Recorded { t with estimator := e } (vs ++ (t.estimator.visit? t.now live).toList) := by
  cases ht with
  | unanswered hv =>
    rw [hv, Option.toList_none, List.append_nil]
    exact h
  | stalled v hv hs =>
    rw [hv]
    exact h.pass hv fun hc => Bool.false_ne_true (hc.1.symm.trans hs)
  | skipped v hv hs hc =>
    rw [hv]
    exact h.pass hv hc
  | completed v hv hc accumulated hn ha =>
    rw [hv]
    exact h.complete hv hc ha

theorem le_addSat (a b : UInt64) : a ≤ Count.addSat a b := by
  rw [UInt64.le_iff_toNat_le, Count.toNat_addSat]
  have := Count.toNat_le_largest a
  omega

theorem hear_keeps (t : Transfer) (news : News) :
    t.estimator.total ≤ (t.hear news).1.estimator.total ∧
      ∀ v, t.estimator.evidence = some v → (t.hear news).1.estimator.evidence = some v := by
  cases news with
  | bytes n => exact ⟨le_addSat _ _, fun v hv => hv⟩
  | evidence w =>
    rw [hear]
    split
    next e hw =>
      obtain ⟨hn, rfl⟩ := setEvidence_eq_ok hw
      exact ⟨UInt64.le_refl _, fun v hv => by rw [hn] at hv; cases hv⟩
    next => exact ⟨UInt64.le_refl _, fun v hv => hv⟩
  | live u => exact ⟨UInt64.le_refl _, fun v hv => hv⟩

theorem Recorded.hear (h : Recorded t vs) (news : News) : Recorded (t.hear news).1 vs := by
  obtain ⟨-, ho, hs, hl⟩ := hear_frame t news
  obtain ⟨htotal, hev⟩ := hear_keeps t news
  refine ⟨hl ▸ h.last, ho ▸ hs ▸ h.replay, ?_, ?_⟩
  · intro x hx
    exact UInt64.le_trans (h.total x hx) htotal
  · intro x hx
    obtain ⟨v, hv, hx⟩ := Option.map_eq_some_iff.mp (h.evidence x hx)
    rw [hev v hv, Option.map_some, hx]

theorem Recorded.step (h : Recorded t vs) (hf : t.faults [op] = []) :
    Recorded (t.step op).1 (vs ++ t.visit op) := by
  cases ha : t.asked op with
  | some live =>
    obtain ⟨e, r, ht, hs, hv, -⟩ := ticks_of_asked ha hf
    rw [hs, hv]
    exact h.tick ht
  | none =>
    rw [(step_of_not_asked ha).2.2.2.1, List.append_nil]
    cases op with
    | tick => cases ha
    | tickLive => cases ha
    | advance d => exact ⟨h.last, h.replay, h.total, h.evidence⟩
    | rewind d => exact ⟨h.last, h.replay, h.total, h.evidence⟩
    | hear news => exact h.hear news

theorem options_step (hf : t.faults [op] = []) :
    (t.step op).1.estimator.options = t.estimator.options := by
  cases ha : t.asked op with
  | some live =>
    obtain ⟨e, r, ht, hs, -, -⟩ := ticks_of_asked ha hf
    rw [hs]
    exact ht.options_eq
  | none => exact (step_of_not_asked ha).1

theorem options_after {ops : List Operation} (hf : t.faults ops = []) :
    (t.after ops).estimator.options = t.estimator.options := by
  induction ops using List.reverseRecOn with
  | nil => rfl
  | append_singleton ops op ih =>
    rw [faults_append_eq_nil] at hf
    rw [after_append, ← ih hf.1]
    exact options_step hf.2

section Beginning

variable (options : EstimatorOptions) (now : Instant) (live : LiveTotals)

theorem recorded_beginning : Recorded (beginning options now live) [] :=
  ⟨rfl, replay_empty _, fun _ hx => absurd hx List.not_mem_nil,
    fun _ hx => absurd hx List.not_mem_nil⟩

theorem recorded_after {ops : List Operation} (hf : (beginning options now live).faults ops = []) :
    Recorded ((beginning options now live).after ops)
      ((beginning options now live).visits ops) := by
  induction ops using List.reverseRecOn with
  | nil => exact recorded_beginning options now live
  | append_singleton ops op ih =>
    rw [faults_append_eq_nil] at hf
    rw [after_append, visits_append, visits, trace_singleton]
    exact (ih hf.1).step hf.2

theorem statistics_replay (ops : List Operation)
    (hf : (beginning options now live).faults ops = []) :
    let t := (beginning options now live).after ops
    let xs := samples none ((beginning options now live).visits ops)
    Replay options.rateWindow xs t.estimator.statistics ∧
      t.estimator.statistics.change.samples = t.estimator.statistics.samples ∧
      ∀ x ∈ xs, t.estimator.evidence.map Evidence.total = some x.evidence := by
  intro t xs
  have h : Recorded t ((beginning options now live).visits ops) :=
    recorded_after options now live hf
  have ho : t.estimator.options = options := options_after hf
  have hr := h.replay
  rw [ho] at hr
  refine ⟨hr, ?_, h.evidence⟩
  rw [hr.change, hr.samples, changes, RunningRatio.samples_ofList, List.length_map]

/-- One visit before the evidence is known and three that complete, the second of them without delta
bytes. -/
def threeSamples : List Operation :=
  [.tick ⟨10, 20⟩, .hear (.evidence ⟨600, 400⟩), .hear (.bytes 20), .tick ⟨40, 80⟩,
    .advance (.ofSeconds 1), .hear (.bytes 80), .tick ⟨0, 200⟩, .advance (.ofSeconds 2),
    .hear (.bytes 200), .tick ⟨200, 200⟩]

theorem statistics_replay_threeSamples :
    let t := (beginning .standard ⟨0⟩ .zero).after threeSamples
    (beginning .standard ⟨0⟩ .zero).faults threeSamples = [] ∧
      samples none ((beginning .standard ⟨0⟩ .zero).visits threeSamples) =
        [⟨⟨40, 80⟩, 1000, 20, .zero⟩, ⟨⟨0, 200⟩, 1000, 80, .ofSeconds 1⟩,
          ⟨⟨200, 200⟩, 1000, 200, .ofSeconds 2⟩] ∧
      Replay EstimatorOptions.standard.rateWindow
        (samples none ((beginning .standard ⟨0⟩ .zero).visits threeSamples))
        t.estimator.statistics ∧
      (t.estimator.snapshot.changeMean, t.estimator.snapshot.changeSigma) =
        (0.5, 0.408248290463863) ∧
      (t.estimator.snapshot.compressMean, t.estimator.snapshot.compressSigma) = (0.75, 0.25) ∧
      (t.estimator.snapshot.progress, t.estimator.snapshot.eta) = (0.20664965809277264, 11) ∧
      (t.estimator.statistics.rates, t.estimator.snapshot.throughput) =
        (⟨30, [60.0, 60.0]⟩, 30.6) := by
  have hf : (beginning .standard ⟨0⟩ .zero).faults threeSamples = [] := by decide +kernel
  refine ⟨hf, by decide +kernel, (statistics_replay .standard ⟨0⟩ .zero threeSamples hf).1, ?_⟩
  decide +kernel

end Beginning

end Headway.Transfer
