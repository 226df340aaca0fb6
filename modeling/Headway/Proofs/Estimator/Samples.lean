import Mathlib.Data.List.DropRight
import Mathlib.Order.Bounds.Defs
import Headway.Estimator.Statistics
import Headway.Proofs.Binary64.Order

namespace Headway.Samples

open Statistics TransferStatistics

def changes (xs : List Sample) : RunningRatio Float :=
  .ofList (xs.map fun x => x.live.raw.toFloat / x.live.changed.toFloat)

def compressions (xs : List Sample) : RunningRatio Float :=
  .ofList ((xs.filter fun x => 0 < x.live.raw).map fun x => x.total.toFloat / x.live.raw.toFloat)

def elapsedNanos (xs : List Sample) : ℕ := xs.foldl (fun n x => n + x.elapsed.nanos) 0

def lastTotal (before : UInt64) (xs : List Sample) : UInt64 :=
  xs.foldl (fun _ x => x.total) before

/-- The bytes since the sample before, over the time since the visit before. -/
def rates : UInt64 → List Sample → List Float
  | _, [] => []
  | before, x :: xs =>
    (if x.elapsed.nanos = 0 then [] else [(x.total - before).toFloat / x.elapsed.toFloat]) ++
      rates x.total xs

theorem changes_append_singleton (xs : List Sample) (x : Sample) :
    changes (xs ++ [x]) = (changes xs).push x.changeRatio := by
  simp [changes, RunningRatio.ofList, Sample.changeRatio]

theorem compressions_append_singleton (xs : List Sample) (x : Sample) :
    compressions (xs ++ [x]) =
      if 0 < x.live.raw then (compressions xs).push x.compressRatio else compressions xs := by
  by_cases h : 0 < x.live.raw <;> simp [compressions, RunningRatio.ofList, Sample.compressRatio, h]

theorem rates_append_singleton (before : UInt64) (xs : List Sample) (x : Sample) :
    rates before (xs ++ [x]) =
      rates before xs ++ if x.elapsed.nanos = 0 then []
        else [(x.total - lastTotal before xs).toFloat / x.elapsed.toFloat] := by
  induction xs generalizing before with
  | nil => simp [rates, lastTotal]
  | cons y ys ih =>
    rw [List.cons_append, rates, ih, rates, List.append_assoc]
    rfl

/-- What is forgotten by one window is not missed by the next. -/
theorem rtake_rtake_append {α : Type} {n : ℕ} (h : 0 < n) (xs : List α) (x : α) :
    (xs.rtake n ++ [x]).rtake n = (xs ++ [x]).rtake n := by
  obtain ⟨m, rfl⟩ : ∃ m, n = m + 1 := ⟨n - 1, by omega⟩
  simp [List.rtake_eq_reverse_take_reverse, List.take_take]

def estimate (before : List Sample) (x : Sample) : Float :=
  let change := changes (before ++ [x])
  let compress := compressions (before ++ [x])
  unitInterval ((change.mean * compress.mean + change.sigma + compress.sigma)
    * x.live.changed.toFloat / x.evidence.toFloat)

def estimates : List Sample → List Sample → List Float
  | _, [] => []
  | before, x :: xs => estimate before x :: estimates (before ++ [x]) xs

theorem estimates_append (before xs ys : List Sample) :
    estimates before (xs ++ ys) = estimates before xs ++ estimates (before ++ xs) ys := by
  induction xs generalizing before with
  | nil => rw [List.append_nil]; rfl
  | cons x xs ih =>
    rw [List.cons_append, estimates, ih, estimates, List.append_assoc]
    rfl

theorem unitInterval_eq_zero {x : Float} (h : x.isNaN = true ∨ x < 0.0) : unitInterval x = 0.0 := by
  rw [unitInterval]
  split
  next => rfl
  next hx => rw [if_pos (h.resolve_left hx)]

theorem unitInterval_eq_self {x : Float} (h0 : 0.0 ≤ x) (h1 : x ≤ 1.0) : unitInterval x = x := by
  have hx := (Binary64.le_iff.mp h0).2.1
  rw [unitInterval, hx, if_neg Bool.false_ne_true, if_neg (Binary64.not_lt_of_le h0),
    if_neg (Binary64.not_lt_of_le h1)]

theorem unitInterval_eq_one {x : Float} (h : 1.0 < x) : unitInterval x = 1.0 := by
  have hx := (Binary64.lt_iff.mp h).2.1
  have h0 : 0.0 ≤ x := Binary64.le_trans (by decide) (Binary64.le_of_lt h)
  rw [unitInterval, hx, if_neg Bool.false_ne_true, if_neg (Binary64.not_lt_of_le h0), if_pos h]

theorem unitInterval_mem (x : Float) : 0.0 ≤ unitInterval x ∧ unitInterval x ≤ 1.0 := by
  have hz : (0.0 : Float) ≤ 0.0 ∧ (0.0 : Float) ≤ 1.0 := by decide
  have ho : (0.0 : Float) ≤ 1.0 ∧ (1.0 : Float) ≤ 1.0 := by decide
  rw [unitInterval]
  split
  next => exact hz
  next hx =>
    rw [Bool.not_eq_true] at hx
    split
    next => exact hz
    next hl =>
      split
      next => exact ho
      next hu => exact ⟨Binary64.le_of_not_lt hx rfl hl, Binary64.le_of_not_lt rfl hx hu⟩

theorem estimates_mem {before xs : List Sample} {q : Float} (h : q ∈ estimates before xs) :
    0.0 ≤ q ∧ q ≤ 1.0 := by
  induction xs generalizing before with
  | nil => cases h
  | cons x xs ih =>
    rw [estimates, List.mem_cons] at h
    rcases h with rfl | h
    · exact unitInterval_mem _
    · exact ih h

theorem isGreatest_append_singleton {l : List Float} {p q : Float}
    (h : IsGreatest {r | r ∈ l} p) (hq : q ≤ q) :
    IsGreatest {r | r ∈ l ++ [q]} (if p < q then q else p) := by
  have hp : p ≤ p := h.2 h.1
  have hn := (Binary64.le_iff.mp hp).1
  have hm := (Binary64.le_iff.mp hq).1
  by_cases hpq : p < q
  · rw [if_pos hpq]
    constructor
    · exact List.mem_append_right _ List.mem_cons_self
    · intro r hr
      rcases List.mem_append.mp hr with hr | hr
      · exact Binary64.le_trans (h.2 hr) (Binary64.le_of_lt hpq)
      · rw [List.mem_singleton.mp hr]
        exact hq
  · rw [if_neg hpq]
    constructor
    · exact List.mem_append_left _ h.1
    · intro r hr
      rcases List.mem_append.mp hr with hr | hr
      · exact h.2 hr
      · rw [List.mem_singleton.mp hr]
        exact Binary64.le_of_not_lt hn hm hpq

structure Replay (window : ℕ) (xs : List Sample) (s : TransferStatistics) : Prop where
  samples : s.samples = xs.length
  change : s.change = changes xs
  compress : s.compress = compressions xs
  progress : IsGreatest {q | q ∈ (0.0 : Float) :: estimates [] xs} s.progress
  accumulated : s.accumulated.nanos = elapsedNanos xs
  total : s.totalAtSample = lastTotal 0 xs
  ascending : (xs.map Sample.total).Pairwise (· ≤ ·)
  rates : s.rates = ⟨max window 1, (rates 0 xs).rtake (max window 1)⟩
  throughput : s.throughput = s.rates.average
  eta : s.eta = ((if 0.0 < s.progress then (1.0 - s.progress) / s.progress else 1.0) *
    s.accumulated.toFloat).toUInt64

theorem replay_empty (window : ℕ) : Replay window [] (.empty window) where
  samples := rfl
  change := rfl
  compress := rfl
  progress := by
    refine ⟨List.mem_cons_self, ?_⟩
    intro q hq
    rw [List.mem_singleton.mp hq]
    change (0.0 : Float) ≤ 0.0
    decide
  accumulated := rfl
  total := rfl
  ascending := .nil
  rates := by simp [TransferStatistics.empty, RateWindow.empty, Samples.rates]
  throughput := rfl
  eta := by
    change (0 : UInt64) = (projection 0.0 * Duration.zero.toFloat).toUInt64
    decide

theorem lastTotal_le {before n : UInt64} {xs : List Sample} (hb : before ≤ n)
    (h : ∀ y ∈ xs, y.total ≤ n) : lastTotal before xs ≤ n := by
  induction xs generalizing before with
  | nil => exact hb
  | cons y ys ih =>
    exact ih (h y List.mem_cons_self) fun z hz => h z (List.mem_cons_of_mem _ hz)

theorem Replay.add {window : ℕ} {xs : List Sample} {s : TransferStatistics} {x : Sample}
    {accumulated : Duration} (h : Replay window xs s)
    (ha : s.accumulated.add? x.elapsed = some accumulated) (ht : ∀ y ∈ xs, y.total ≤ x.total) :
    Replay window (xs ++ [x]) ((s.observe x).project x accumulated) where
  samples := by
    rw [List.length_append, ← h.samples]
    rfl
  change := by
    rw [changes_append_singleton, ← h.change]
    rfl
  compress := by
    rw [compressions_append_singleton, ← h.compress]
    rfl
  progress := by
    have hp : ((s.observe x).project x accumulated).progress =
        if s.progress < estimate xs x then estimate xs x else s.progress := by
      simp only [estimate, changes_append_singleton, compressions_append_singleton, ← h.change,
        ← h.compress]
      rfl
    have hq : estimate xs x ≤ estimate xs x :=
      Binary64.le_refl_of_le (unitInterval_mem _).1
    rw [hp, estimates_append]
    exact isGreatest_append_singleton h.progress hq
  accumulated := by
    have hn : accumulated.nanos = s.accumulated.nanos + x.elapsed.nanos :=
      Duration.nanos_ofNanos? ha
    rw [elapsedNanos, List.foldl_append, ← elapsedNanos, ← h.accumulated]
    exact hn
  total := by
    rw [lastTotal, List.foldl_append]
    rfl
  ascending := by
    rw [List.map_append, List.pairwise_append]
    refine ⟨h.ascending, List.pairwise_singleton _ _, ?_⟩
    simpa using ht
  rates := by
    have hr : s.rate x = (x.total - lastTotal 0 xs).toFloat / x.elapsed.toFloat := by
      rw [TransferStatistics.rate, h.total, Count.subSat_of_le (lastTotal_le UInt64.zero_le ht)]
    change (if x.elapsed.nanos = 0 then s.rates else s.rates.push (s.rate x)) = _
    rw [rates_append_singleton, hr, h.rates]
    split
    · rw [List.append_nil]
    · rw [← rtake_rtake_append (by omega)]
      rfl
  throughput := rfl
  eta := rfl

namespace Replay

variable {window : ℕ} {xs : List Sample} {s : TransferStatistics} (h : Replay window xs s)
include h

theorem progress_mem : 0.0 ≤ s.progress ∧ s.progress ≤ 1.0 := by
  rcases List.mem_cons.mp h.progress.1 with hp | hp
  · rw [hp]
    decide
  · exact estimates_mem hp

theorem eta_of_progress (hp : s.progress = 1.0) : s.eta = 0 := by
  have hr : (if (0.0 : Float) < 1.0 then (1.0 - 1.0) / 1.0 else 1.0) = 0.0 := by decide
  rw [h.eta, hp, hr]
  exact Binary64.toUInt64_zero_mul _

end Replay

end Headway.Samples
