import Mathlib
import Headway.Proofs.Estimator.Samples

namespace Headway.Statistics.RateWindow

open Samples

section Pushed

variable {F : Type}

def pushed (capacity : ℕ) (xs : List F) : RateWindow F := xs.foldl push (empty capacity)

theorem pushed_append_singleton (capacity : ℕ) (xs : List F) (x : F) :
    pushed capacity (xs ++ [x]) = (pushed capacity xs).push x := by
  rw [pushed, List.foldl_append]
  rfl

theorem pushed_eq (capacity : ℕ) (xs : List F) :
    pushed capacity xs = ⟨max capacity 1, xs.rtake (max capacity 1)⟩ := by
  induction xs using List.reverseRecOn with
  | nil => simp [pushed, empty]
  | append_singleton xs x ih =>
    rw [pushed_append_singleton, ih, ← rtake_rtake_append (by omega)]
    rfl

theorem rates_pushed (capacity : ℕ) (xs : List F) :
    (pushed capacity xs).rates <:+ xs ∧
      (pushed capacity xs).length = min xs.length (max capacity 1) := by
  rw [length, pushed_eq]
  refine ⟨List.drop_suffix _ _, ?_⟩
  simp only [List.rtake, List.length_drop]
  omega

end Pushed

section Fractions

variable {xs ys : List ℚ} {s t r M : ℚ}

theorem smooth_eq (s x : ℚ) : smooth s x = 3 / 10 * x + 7 / 10 * s := by
  norm_num [smooth, weight]

def weightedSum (xs : List ℚ) : ℚ :=
  ∑ j : Fin xs.length, 3 / 10 * (7 / 10) ^ (xs.length - 1 - j) * xs[j]

theorem weightedSum_cons (x : ℚ) (xs : List ℚ) :
    weightedSum (x :: xs) = 3 / 10 * (7 / 10) ^ xs.length * x + weightedSum xs := by
  rw [weightedSum]
  simp only [List.length_cons]
  rw [Fin.sum_univ_succ, weightedSum]
  congr 1
  apply Finset.sum_congr rfl
  intro j _
  have hexponent : xs.length + 1 - 1 - (j.succ : ℕ) = xs.length - 1 - j := by
    rw [Fin.val_succ]
    omega
  rw [hexponent]
  rfl

theorem foldl_smooth (xs : List ℚ) (s : ℚ) :
    xs.foldl smooth s = (7 / 10) ^ xs.length * s + weightedSum xs := by
  induction xs generalizing s with
  | nil => simp [weightedSum]
  | cons x xs ih =>
    rw [List.foldl_cons, ih, smooth_eq, weightedSum_cons, List.length_cons, pow_succ]
    ring

theorem foldl_smooth_mono (h : List.Forall₂ (· ≤ ·) xs ys) (hst : s ≤ t) :
    xs.foldl smooth s ≤ ys.foldl smooth t := by
  induction h generalizing s t with
  | nil => exact hst
  | cons hxy _ ih =>
    apply ih
    rw [smooth_eq, smooth_eq]
    linarith

theorem foldl_smooth_replicate (k : ℕ) (r : ℚ) :
    (List.replicate k r).foldl smooth 0 = r * (1 - (7 / 10) ^ k) := by
  induction k with
  | zero => simp
  | succ k ih =>
    rw [List.replicate_succ', List.foldl_append, ih, List.foldl_cons, List.foldl_nil, smooth_eq,
      pow_succ]
    ring

theorem forall₂_replicate {R : ℚ → ℚ → Prop} (h : ∀ x ∈ xs, R x r) :
    List.Forall₂ R xs (List.replicate xs.length r) := by
  induction xs with
  | nil => exact .nil
  | cons x xs ih =>
    exact .cons (h x List.mem_cons_self) (ih fun y hy => h y (List.mem_cons_of_mem x hy))

theorem average_mem {w : RateWindow ℚ} (h : ∀ x ∈ w.rates, 0 ≤ x ∧ x ≤ M) :
    0 ≤ w.average ∧ w.average ≤ M * (1 - (7 / 10) ^ w.length) := by
  have hleast : List.Forall₂ (flip (· ≤ ·)) w.rates (List.replicate w.rates.length 0) :=
    forall₂_replicate fun x hx => (h x hx).1
  have hmost : List.Forall₂ (· ≤ ·) w.rates (List.replicate w.rates.length M) :=
    forall₂_replicate fun x hx => (h x hx).2
  have hlow := foldl_smooth_mono hleast.flip (le_refl 0)
  have hhigh := foldl_smooth_mono hmost (le_refl 0)
  rw [foldl_smooth_replicate, zero_mul] at hlow
  rw [foldl_smooth_replicate] at hhigh
  exact ⟨hlow, hhigh⟩

structure Weighs (w : RateWindow ℚ) : Prop where
  sum : w.average = ∑ j : Fin w.rates.length,
    3 / 10 * (7 / 10) ^ (w.rates.length - 1 - j) * w.rates[j]
  bounded (M : ℚ) : (∀ x ∈ w.rates, 0 ≤ x ∧ x ≤ M) →
    0 ≤ w.average ∧ w.average ≤ M * (1 - (7 / 10) ^ w.length)
  level (r : ℚ) : (∀ x ∈ w.rates, x = r) → w.average = r * (1 - (7 / 10) ^ w.length)
  monotone (v : RateWindow ℚ) : List.Forall₂ (· ≤ ·) w.rates v.rates → w.average ≤ v.average

theorem weighs (w : RateWindow ℚ) : Weighs w where
  sum := by
    rw [average, foldl_smooth, mul_zero, zero_add]
    rfl
  bounded M h := average_mem h
  level r h := by
    rw [average, List.eq_replicate_iff.mpr ⟨rfl, h⟩, foldl_smooth_replicate]
    rfl
  monotone v h := foldl_smooth_mono h (le_refl 0)

end Fractions

theorem window_weighs (capacity : ℕ) :
    (∀ (F : Type) (xs : List F), (pushed capacity xs).rates <:+ xs ∧
      (pushed capacity xs).length = min xs.length (max capacity 1)) ∧
    (∀ xs ys : List Float, xs.rtake (max capacity 1) = ys.rtake (max capacity 1) →
      (pushed capacity xs).average = (pushed capacity ys).average) ∧
    ∀ w : RateWindow ℚ, Weighs w := by
  refine ⟨fun F xs => rates_pushed capacity xs, fun xs ys h => ?_, weighs⟩
  rw [pushed_eq, pushed_eq, h]

theorem window_weighs_three :
    [1.0, 2.0, 3.0, 4.0].rtake (max 3 1) = [9.0, 7.0, 2.0, 3.0, (4.0 : Float)].rtake (max 3 1) ∧
      (pushed 3 [1.0, 2.0, 3.0, 4.0]).average =
        (pushed 3 [9.0, 7.0, 2.0, 3.0, (4.0 : Float)]).average ∧
      (pushed 3 [1, 2, 3, (4 : ℚ)]).rates = [2, 3, 4] ∧
      (pushed 3 [1, 2, 3, (4 : ℚ)]).average = 2.124 ∧
      (pushed 3 [1, 2, 3, (4 : ℚ)]).average ≤ 4 * (1 - (7 / 10) ^ 3) := by
  obtain ⟨-, hforget, hweighs⟩ := window_weighs 3
  have hrates : (pushed 3 [1, 2, 3, (4 : ℚ)]).rates = [2, 3, 4] := by rfl
  refine ⟨by decide, hforget _ _ (by decide), hrates, by decide +kernel, ?_⟩
  refine ((hweighs _).bounded 4 fun x hx => ?_).2
  rw [hrates] at hx
  revert x
  decide

end Headway.Statistics.RateWindow
