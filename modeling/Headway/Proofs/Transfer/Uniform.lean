import Headway.Proofs.Binary64.Exact
import Headway.Proofs.Transfer.Replay

namespace Headway

namespace Statistics.RunningRatio

open Binary64

variable {x m : Float} {xs : List Float} {n : ℕ} {r : RunningRatio Float}

theorem push_of_mean (h : (r.push x).mean = m) :
    r.push x = ⟨m, r.scatter + (x - r.mean) * (x - m), r.samples + 1⟩ := by
  rw [← h]
  rfl

theorem toUInt64_ne_zero (hn : n ≠ 0) (hn' : n < 2 ^ 64) : n.toUInt64 ≠ 0 := by
  intro h
  have hmod : n % 2 ^ 64 = 0 := congrArg UInt64.toNat h
  rw [Nat.mod_eq_of_lt hn'] at hmod
  exact hn hmod

theorem zero_div_samples (hn : n ≠ 0) (hn' : n < 2 ^ 64) : 0 / n.toUInt64.toFloat = 0 :=
  zero_toFloat_div (toUInt64_ne_zero hn hn')

theorem push_empty (hx : IsRatio x) : (empty : RunningRatio Float).push x = ⟨x, 0, 1⟩ := by
  have hmean : ((empty : RunningRatio Float).push x).mean = x := by
    change 0 + (x - 0) / (1 : UInt64).toFloat = x
    rw [hx.sub_zero, hx.div_one, hx.zero_add]
  rw [push_of_mean hmean]
  change RunningRatio.mk x (0 + (x - 0) * (x - x)) 1 = _
  rw [hx.sub_zero, hx.sub_self, hx.mul_zero]
  rfl

theorem push_constant (hx : IsRatio x) (hn : n + 1 < 2 ^ 64) :
    (RunningRatio.mk x 0 n).push x = ⟨x, 0, n + 1⟩ := by
  have hmean : ((RunningRatio.mk x 0 n).push x).mean = x := by
    change x + (x - x) / (n + 1).toUInt64.toFloat = x
    rw [hx.sub_self, zero_div_samples (Nat.succ_ne_zero n) hn, hx.add_zero]
  rw [push_of_mean hmean]
  change RunningRatio.mk x (0 + (x - x) * (x - x)) (n + 1) = _
  rw [hx.sub_self]
  rfl

theorem ofList_constant (hx : IsRatio x) (h : ∀ y ∈ xs, y = x) (hne : xs ≠ [])
    (hn : xs.length < 2 ^ 64) : ofList xs = ⟨x, 0, xs.length⟩ := by
  induction xs using List.reverseRecOn with
  | nil => exact absurd rfl hne
  | append_singleton xs y ih =>
    rw [List.length_append, List.length_singleton] at hn ⊢
    rw [ofList_append_singleton, h y (by simp)]
    rcases eq_or_ne xs [] with rfl | hxs
    · exact push_empty hx
    · rw [ih (fun z hz => h z (List.mem_append_left _ hz)) hxs (by omega)]
      exact push_constant hx hn

theorem sigma_of_scatter (hs : r.scatter = 0) (hn : r.samples < 2 ^ 64) : r.sigma = 0 := by
  rw [sigma, variance, hs]
  split
  · decide
  · next hne =>
    change ((0 : Float).abs / r.samples.toUInt64.toFloat).sqrt = 0
    rw [show (0 : Float).abs = 0 by decide, zero_div_samples hne hn]
    decide

end Statistics.RunningRatio

namespace Samples

open Statistics Binary64

structure Uniform (r c : Float) (xs : List Sample) : Prop where
  change : ∀ x ∈ xs, x.live.raw.toFloat / x.live.changed.toFloat = r
  compress : ∀ x ∈ xs, 0 < x.live.raw → x.total.toFloat / x.live.raw.toFloat = c
  bare : (∀ x ∈ xs, x.live.raw = 0) → c = 0

def plainEstimate (r c : Float) (x : Sample) : Float :=
  unitInterval ((r * c + 0.0 + 0.0) * x.live.changed.toFloat / x.evidence.toFloat)

variable {r c : Float} {xs ys before : List Sample}

/-- Samples that change alike have delta bytes all of them or none of them, so that what holds of
all samples of a run holds of the first ones too. -/
theorem Uniform.left (h : Uniform r c (xs ++ ys)) (hp : ∀ x ∈ xs ++ ys, x.live.changed ≠ 0)
    (hne : xs ≠ []) : Uniform r c xs := by
  have hxs : ∀ x ∈ xs, x ∈ xs ++ ys := fun x hx => List.mem_append_left ys hx
  refine ⟨fun x hx => h.change x (hxs x hx), fun x hx => h.compress x (hxs x hx), fun hraw => ?_⟩
  obtain ⟨x, hx⟩ := List.exists_mem_of_ne_nil xs hne
  have hr : r = 0 := by
    rw [← h.change x (hxs x hx), toFloat_div_eq_zero_iff (hp x (hxs x hx))]
    exact hraw x hx
  apply h.bare
  intro y hy
  rw [← toFloat_div_eq_zero_iff (hp y hy), h.change y hy, hr]

section Statistics

variable (h : Uniform r c xs) (hp : ∀ x ∈ xs, x.live.changed ≠ 0) (hne : xs ≠ [])
  (hn : xs.length < 2 ^ 64)
include h hp hne hn

theorem changes_uniform : changes xs = ⟨r, 0, xs.length⟩ := by
  obtain ⟨x, hx⟩ := List.exists_mem_of_ne_nil xs hne
  have hr : IsRatio r := by
    rw [← h.change x hx]
    exact isRatio_toFloat_div _ (hp x hx)
  have hall : ∀ y ∈ xs.map fun x => x.live.raw.toFloat / x.live.changed.toFloat, y = r := by
    simpa using h.change
  rw [changes, RunningRatio.ofList_constant hr hall (by simpa using hne) (by simpa using hn),
    List.length_map]

omit hp hne in
theorem compressions_uniform :
    (compressions xs).mean = c ∧ (compressions xs).scatter = 0 ∧
      (compressions xs).samples < 2 ^ 64 := by
  rcases hf : xs.filter fun x => 0 < x.live.raw with _ | ⟨x, zs⟩
  · have hraw : ∀ x ∈ xs, x.live.raw = 0 := by
      simpa [List.filter_eq_nil_iff, UInt64.pos_iff_ne_zero] using hf
    rw [compressions, hf, h.bare hraw]
    exact ⟨rfl, rfl, by decide⟩
  · have hmem : ∀ y ∈ x :: zs, y ∈ xs ∧ 0 < y.live.raw := by
      intro y hy
      rw [← hf, List.mem_filter] at hy
      simpa using hy
    have hc : IsRatio c := by
      obtain ⟨hx, hraw⟩ := hmem x List.mem_cons_self
      rw [← h.compress x hx hraw]
      exact isRatio_toFloat_div _ (UInt64.pos_iff_ne_zero.mp hraw)
    have hall : ∀ y ∈ (x :: zs).map fun x => x.total.toFloat / x.live.raw.toFloat, y = c := by
      intro y hy
      obtain ⟨z, hz, rfl⟩ := List.mem_map.mp hy
      exact h.compress z (hmem z hz).1 (hmem z hz).2
    have hlength : (x :: zs).length < 2 ^ 64 := by
      rw [← hf]
      exact (List.length_filter_le _ _).trans_lt hn
    rw [compressions, hf, RunningRatio.ofList_constant hc hall (by simp) (by simpa using hlength)]
    refine ⟨rfl, rfl, ?_⟩
    rw [List.length_map]
    exact hlength

theorem padded_uniform :
    (changes xs).mean * (compressions xs).mean + (changes xs).sigma + (compressions xs).sigma =
      r * c + 0.0 + 0.0 := by
  obtain ⟨hmean, hscatter, hsamples⟩ := compressions_uniform h hn
  rw [changes_uniform h hp hne hn, hmean, RunningRatio.sigma_of_scatter hscatter hsamples,
    RunningRatio.sigma_of_scatter (r := ⟨r, 0, xs.length⟩) rfl hn]
  rfl

end Statistics

theorem estimates_uniform (h : Uniform r c (before ++ xs))
    (hp : ∀ x ∈ before ++ xs, x.live.changed ≠ 0) (hn : (before ++ xs).length < 2 ^ 64) :
    estimates before xs = xs.map (plainEstimate r c) := by
  induction xs generalizing before with
  | nil => rfl
  | cons x xs ih =>
    rw [List.append_cons before x xs] at h hp hn
    have hne : before ++ [x] ≠ [] := by simp
    have hn' : (before ++ [x]).length < 2 ^ 64 := by
      rw [List.length_append] at hn
      omega
    have hpad := padded_uniform (h.left hp hne) (fun y hy => hp y (List.mem_append_left xs hy)) hne hn'
    rw [estimates, ih h hp hn, List.map_cons, plainEstimate, ← hpad]
    rfl

end Samples

namespace Transfer

open Statistics Samples

theorem changed_ne_zero {before : Option Instant} {vs : List Visit} {x : Sample}
    (hx : x ∈ samples before vs) : x.live.changed ≠ 0 := by
  induction vs generalizing before with
  | nil => cases hx
  | cons v vs ih =>
    rw [samples, List.mem_append] at hx
    rcases hx with hx | hx
    · split at hx
      next hc =>
        rw [List.mem_singleton.mp hx]
        exact hc.2.1
      next => cases hx
    · exact ih hx

variable (options : EstimatorOptions) (now : Instant) (live : LiveTotals)

theorem samples_le_largest {ops : List Operation}
    (hf : (beginning options now live).faults ops = []) :
    ((beginning options now live).after ops).estimator.statistics.samples ≤ Count.largest := by
  induction ops using List.reverseRecOn with
  | nil => exact Nat.zero_le _
  | append_singleton ops op ih =>
    rw [faults_append_eq_nil] at hf
    have hle := ih hf.1
    rw [after_append]
    change (((beginning options now live).after ops).step op).1.estimator.statistics.samples ≤ _
    cases ha : ((beginning options now live).after ops).asked op with
    | none =>
      rw [(step_of_not_asked ha).2.1]
      exact hle
    | some totals =>
      obtain ⟨e, r, ht, hs, -, -⟩ := ticks_of_asked ha hf.2
      rw [hs]
      cases ht with
      | unanswered => exact hle
      | stalled => exact hle
      | skipped => exact hle
      | completed v hv hc accumulated hn => exact hn

theorem length_samples_lt {ops : List Operation}
    (hf : (beginning options now live).faults ops = []) :
    (samples none ((beginning options now live).visits ops)).length < 2 ^ 64 := by
  have hle := samples_le_largest options now live hf
  rw [(recorded_after options now live hf).replay.samples, Count.largest] at hle
  omega

structure Plain (r c : Float) (xs : List Sample) (s : Snapshot) : Prop where
  changeMean : s.changeMean = r
  changeSigma : s.changeSigma = 0.0
  compressMean : s.compressMean = c
  compressSigma : s.compressSigma = 0.0
  progress : IsGreatest {q | q ∈ (0.0 : Float) :: xs.map (plainEstimate r c)} s.progress

theorem plain_of_uniform (ops more : List Operation) (r c : Float)
    (hf : (beginning options now live).faults (ops ++ more) = [])
    (hu : Uniform r c (samples none ((beginning options now live).visits (ops ++ more))))
    (hne : samples none ((beginning options now live).visits ops) ≠ []) :
    Plain r c (samples none ((beginning options now live).visits ops))
      ((beginning options now live).after ops).estimator.snapshot := by
  have hops := (faults_append_eq_nil.mp hf).1
  have hn := length_samples_lt options now live hops
  have hr := (recorded_after options now live hops).replay
  have hall : ∀ x ∈ samples none ((beginning options now live).visits (ops ++ more)),
      x.live.changed ≠ 0 := fun x hx => changed_ne_zero hx
  have hp : ∀ x ∈ samples none ((beginning options now live).visits ops), x.live.changed ≠ 0 :=
    fun x hx => changed_ne_zero hx
  rw [visits_append, samples_append] at hu hall
  have hu := hu.left hall hne
  obtain ⟨hmean, hscatter, hsamples⟩ := compressions_uniform hu hn
  constructor
  · change RunningRatio.mean _ = r
    rw [hr.change, changes_uniform hu hp hne hn]
  · change RunningRatio.sigma _ = 0
    rw [hr.change, changes_uniform hu hp hne hn]
    exact RunningRatio.sigma_of_scatter rfl hn
  · change RunningRatio.mean _ = c
    rw [hr.compress, hmean]
  · change RunningRatio.sigma _ = 0
    rw [hr.compress]
    exact RunningRatio.sigma_of_scatter hscatter hsamples
  · have hprogress := hr.progress
    rw [estimates_uniform hu hp hn] at hprogress
    exact hprogress

def halves : List Operation :=
  [.hear (.evidence ⟨600, 400⟩), .hear (.bytes 10), .tick ⟨20, 40⟩, .advance (.ofSeconds 1),
    .tick ⟨20, 0⟩, .hear (.bytes 50), .tick ⟨100, 200⟩, .rewind (.ofSeconds 9),
    .hear (.bytes 150), .tick ⟨300, 600⟩]

def halvesLater : List Operation := [.advance (.ofSeconds 60), .tick ⟨400, 800⟩]

theorem plain_of_uniform_halves :
    (beginning .standard ⟨0⟩ .zero).faults (halves ++ halvesLater) = [] ∧
      ((samples none ((beginning .standard ⟨0⟩ .zero).visits (halves ++ halvesLater))).map
        fun x => (x.live.raw.toFloat / x.live.changed.toFloat,
          x.total.toFloat / x.live.raw.toFloat)) = [(0.5, 0.5), (0.5, 0.5), (0.5, 0.5)] ∧
      Plain 0.5 0.5 (samples none ((beginning .standard ⟨0⟩ .zero).visits halves))
        ((beginning .standard ⟨0⟩ .zero).after halves).estimator.snapshot ∧
      ((beginning .standard ⟨0⟩ .zero).after halves).estimator.snapshot.progress = 0.15 := by
  have hf : (beginning .standard ⟨0⟩ .zero).faults (halves ++ halvesLater) = [] := by
    decide +kernel
  have hu : Uniform 0.5 0.5 (samples none ((beginning .standard ⟨0⟩ .zero).visits
      (halves ++ halvesLater))) := by
    have hall : ∀ x ∈ samples none ((beginning .standard ⟨0⟩ .zero).visits (halves ++ halvesLater)),
        x.live.raw.toFloat / x.live.changed.toFloat = 0.5 ∧
          x.total.toFloat / x.live.raw.toFloat = 0.5 ∧ x.live.raw ≠ 0 := by decide +kernel
    refine ⟨fun x hx => (hall x hx).1, fun x hx _ => (hall x hx).2.1, fun hraw => ?_⟩
    obtain ⟨x, hx⟩ := List.exists_mem_of_ne_nil
      (samples none ((beginning .standard ⟨0⟩ .zero).visits (halves ++ halvesLater)))
      (by decide +kernel)
    exact absurd (hraw x hx) (hall x hx).2.2
  exact ⟨hf, by decide +kernel, plain_of_uniform .standard ⟨0⟩ .zero halves halvesLater 0.5 0.5 hf hu
    (by decide +kernel), by decide +kernel⟩

end Transfer

end Headway
