import Mathlib
import Headway.Statistics.RunningRatio

namespace Headway.Statistics

def arithmeticMean (xs : List ℚ) : ℚ := xs.sum / xs.length

def scatterAbout (m : ℚ) (xs : List ℚ) : ℚ := (xs.map fun x => (x - m) ^ 2).sum

def populationVariance (xs : List ℚ) : ℚ := scatterAbout (arithmeticMean xs) xs / xs.length

variable {xs ys : List ℚ} {m a b : ℚ}

theorem scatterAbout_nonneg (m : ℚ) (xs : List ℚ) : 0 ≤ scatterAbout m xs := by
  apply List.sum_nonneg
  intro d hd
  obtain ⟨x, -, rfl⟩ := List.mem_map.mp hd
  exact sq_nonneg (x - m)

theorem scatterAbout_append_singleton (m : ℚ) (xs : List ℚ) (x : ℚ) :
    scatterAbout m (xs ++ [x]) = scatterAbout m xs + (x - m) ^ 2 := by
  simp [scatterAbout]

theorem scatterAbout_eq (m : ℚ) (xs : List ℚ) :
    scatterAbout m xs = (xs.map (· ^ 2)).sum - 2 * m * xs.sum + xs.length * m ^ 2 := by
  induction xs with
  | nil => simp [scatterAbout]
  | cons x xs ih =>
    rw [scatterAbout] at ih
    simp only [scatterAbout, List.map_cons, List.sum_cons, List.length_cons, ih]
    push_cast
    ring

theorem scatterAbout_of_mean (h : m * xs.length = xs.sum) (p : ℚ) :
    scatterAbout p xs = scatterAbout m xs + xs.length * (m - p) ^ 2 := by
  -- About the mean the scatter is least: about another point every value adds the square of the
  -- distance between the two.
  rw [scatterAbout_eq, scatterAbout_eq, ← h]
  ring

theorem le_sum_of_forall_le (h : ∀ x ∈ xs, a ≤ x) : a * xs.length ≤ xs.sum := by
  have hsum := List.card_nsmul_le_sum xs a h
  rwa [nsmul_eq_mul, mul_comm] at hsum

theorem sum_le_of_forall_le (h : ∀ x ∈ xs, x ≤ b) : xs.sum ≤ b * xs.length := by
  have hsum := List.sum_le_card_nsmul xs b h
  rwa [nsmul_eq_mul, mul_comm] at hsum

theorem length_pos_of_ne_nil (h : xs ≠ []) : (0 : ℚ) < xs.length :=
  Nat.cast_pos.mpr (List.length_pos_of_ne_nil h)

theorem arithmeticMean_mem (ha : IsLeast {x | x ∈ xs} a) (hb : IsGreatest {x | x ∈ xs} b) :
    a ≤ arithmeticMean xs ∧ arithmeticMean xs ≤ b := by
  have hpos : (0 : ℚ) < xs.length := length_pos_of_ne_nil (List.ne_nil_of_mem ha.1)
  constructor
  · rw [arithmeticMean, le_div_iff₀ hpos]
    exact le_sum_of_forall_le fun x hx => ha.2 hx
  · rw [arithmeticMean, div_le_iff₀ hpos]
    exact sum_le_of_forall_le fun x hx => hb.2 hx

namespace RunningRatio

structure Describes (xs : List ℚ) (r : RunningRatio ℚ) : Prop where
  samples : r.samples = xs.length
  mean : r.mean * xs.length = xs.sum
  scatter : r.scatter = scatterAbout r.mean xs

variable {r : RunningRatio ℚ}

theorem describes_empty : Describes [] empty := ⟨rfl, by simp, rfl⟩

theorem Describes.push (h : Describes xs r) (x : ℚ) : Describes (xs ++ [x]) (r.push x) := by
  -- The new value moves the mean by the `n + 1`st part of its deviation `d`. The old values then
  -- scatter by `n` squares of this more, and the new one adds the square of the rest of `d`;
  -- together that is the product of the two deviations.
  have hn : (xs.length : ℚ) + 1 ≠ 0 := by positivity
  have hsamples : ((r.samples + 1 : ℕ) : ℚ) = xs.length + 1 := by rw [h.samples]; push_cast; rfl
  have hmean : (r.push x).mean = r.mean + (x - r.mean) / (xs.length + 1) := by
    rw [← hsamples]
    rfl
  have hscatter : (r.push x).scatter = r.scatter + (x - r.mean) * (x - (r.push x).mean) := rfl
  refine ⟨?_, ?_, ?_⟩
  · rw [samples_push, h.samples, List.length_append, List.length_singleton]
  · rw [hmean, List.sum_append, ← h.mean, List.length_append, List.length_singleton,
      List.sum_singleton]
    push_cast
    field_simp
    ring
  · rw [scatterAbout_append_singleton, scatterAbout_of_mean h.mean, hscatter, h.scatter, hmean,
      add_assoc]
    congr 1
    field_simp
    ring

theorem describes_ofList (xs : List ℚ) : Describes xs (ofList xs) := by
  induction xs using List.reverseRecOn with
  | nil => exact describes_empty
  | append_singleton xs x ih =>
    rw [ofList_append_singleton]
    exact ih.push x

theorem ofList_eq (xs : List ℚ) :
    ofList xs = ⟨arithmeticMean xs, scatterAbout (arithmeticMean xs) xs, xs.length⟩ := by
  have h := describes_ofList xs
  have hmean : (ofList xs).mean = arithmeticMean xs := by
    cases xs with
    | nil => simp [ofList, empty, arithmeticMean]
    | cons x xs =>
      have hpos := length_pos_of_ne_nil (List.cons_ne_nil x xs)
      exact eq_div_of_mul_eq hpos.ne' h.mean
  calc ofList xs = ⟨(ofList xs).mean, (ofList xs).scatter, (ofList xs).samples⟩ := rfl
    _ = _ := by rw [h.scatter, h.samples, hmean]

theorem scatterAbout_perm (h : xs.Perm ys) (m : ℚ) : scatterAbout m xs = scatterAbout m ys :=
  (h.map _).sum_eq

theorem ofList_perm (h : xs.Perm ys) : ofList xs = ofList ys := by
  have hmean : arithmeticMean xs = arithmeticMean ys := by
    rw [arithmeticMean, arithmeticMean, h.sum_eq, h.length_eq]
  rw [ofList_eq, ofList_eq, hmean, scatterAbout_perm h, h.length_eq]

/-- The deviation for any root, so that it can be read over numbers whose roots are exact. -/
def deviation {F G : Type} [Div F] [NatCast F] [OfNat F 0] (magnitude : F → F) (root : F → G)
    (r : RunningRatio F) : G := root (r.variance magnitude)

theorem sigma_eq_deviation (r : RunningRatio Float) : r.sigma = r.deviation Float.abs Float.sqrt :=
  rfl

theorem variance_ofList {magnitude : ℚ → ℚ} (h : xs ≠ [])
    (hm : magnitude (scatterAbout (arithmeticMean xs) xs) =
      scatterAbout (arithmeticMean xs) xs) :
    (ofList xs).variance magnitude = populationVariance xs := by
  have hlength : xs.length ≠ 0 := (List.length_pos_of_ne_nil h).ne'
  rw [ofList_eq, variance, if_neg hlength, hm, populationVariance]

theorem populationVariance_nonneg (xs : List ℚ) : 0 ≤ populationVariance xs :=
  div_nonneg (scatterAbout_nonneg _ _) (Nat.cast_nonneg _)

structure Moments (xs : List ℚ) (r : RunningRatio ℚ) : Prop where
  mean : r.mean = arithmeticMean xs
  scatter : r.scatter = (xs.map fun x => (x - arithmeticMean xs) ^ 2).sum
  nonneg : 0 ≤ r.scatter
  variance : r.variance abs = populationVariance xs
  magnitude : r.variance abs = r.variance id
  deviation : r.deviation abs (fun v : ℚ => √(v : ℝ)) ^ 2 = (populationVariance xs : ℝ)
  between (a b : ℚ) : IsLeast {x | x ∈ xs} a → IsGreatest {x | x ∈ xs} b →
    a ≤ r.mean ∧ r.mean ≤ b

theorem moments_ofList (xs : List ℚ) (h : xs ≠ []) :
    Moments xs (ofList xs) ∧ (∀ ys : List ℚ, ys.Perm xs → ofList ys = ofList xs) ∧
      ∀ r : RunningRatio Float, r.sigma = r.deviation Float.abs Float.sqrt := by
  have hmean : (ofList xs).mean = arithmeticMean xs := by rw [ofList_eq]
  have hscatter : (ofList xs).scatter = scatterAbout (arithmeticMean xs) xs := by rw [ofList_eq]
  have habs : (ofList xs).variance abs = populationVariance xs :=
    variance_ofList h (abs_of_nonneg (scatterAbout_nonneg _ _))
  refine ⟨⟨hmean, hscatter, ?_, habs, ?_, ?_, ?_⟩, fun ys hys => ofList_perm hys, sigma_eq_deviation⟩
  · rw [hscatter]
    exact scatterAbout_nonneg _ _
  · rw [habs, variance_ofList h rfl]
  · rw [RunningRatio.deviation, habs]
    exact Real.sq_sqrt (Rat.cast_nonneg.mpr (populationVariance_nonneg xs))
  · intro a b ha hb
    rw [hmean]
    exact arithmeticMean_mem ha hb

theorem moments_ofList_eight :
    (ofList [2, 4, 4, 4, 5, 5, 7, 9] : RunningRatio ℚ) = ⟨5, 32, 8⟩ ∧
      Moments [2, 4, 4, 4, 5, 5, 7, 9] (ofList [2, 4, 4, 4, 5, 5, 7, 9]) ∧
      ofList [9, 2, 4, 4, 4, 5, 5, 7] = ofList ([2, 4, 4, 4, 5, 5, 7, 9] : List ℚ) := by
  have h := moments_ofList [2, 4, 4, 4, 5, 5, 7, 9] (by simp)
  exact ⟨by decide +kernel, h.1, h.2.1 _ (by decide)⟩

end RunningRatio

end Headway.Statistics
