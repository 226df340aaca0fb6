import Headway.Proofs.Binary64.Exact

namespace Headway.Binary64

variable {a b : Magnitude} {x : ℚ}

namespace Magnitude.IsDouble

variable (ha : a.IsDouble) (hb : b.IsDouble)
include ha hb

theorem units_lt_of_scale_lt (h : a.scale < b.scale) : a.units < b.units :=
  mul_two_pow_lt ha.upper (hb.lower.resolve_right (by omega)) h

theorem scale_le (h : a.units < b.units) : a.scale ≤ b.scale := by
  by_contra hlt
  exact Nat.lt_asymm h (hb.units_lt_of_scale_lt ha (Nat.lt_of_not_le hlt))

theorem units_add_le (h : a.units < b.units) : a.units + 2 ^ a.scale ≤ b.units := by
  -- Both are multiples of the last place of the lower one.
  obtain ⟨k, hk⟩ := Nat.exists_eq_add_of_le (ha.scale_le hb h)
  have hunits : b.units = b.mantissa * 2 ^ k * 2 ^ a.scale := by
    rw [units, Nat.pow_eq, hk, Nat.pow_add]
    ring
  rw [hunits] at h ⊢
  have hlt : a.mantissa < b.mantissa * 2 ^ k := Nat.lt_of_mul_lt_mul_right h
  calc a.units + 2 ^ a.scale = (a.mantissa + 1) * 2 ^ a.scale := (Nat.succ_mul _ _).symm
    _ ≤ b.mantissa * 2 ^ k * 2 ^ a.scale := Nat.mul_le_mul_right _ hlt

theorem eq_of_units_eq (h : a.units = b.units) : a = b := by
  have hscale : a.scale = b.scale := by
    rcases Nat.lt_trichotomy a.scale b.scale with hlt | heq | hlt
    · exact absurd h (ha.units_lt_of_scale_lt hb hlt).ne
    · exact heq
    · exact absurd h (hb.units_lt_of_scale_lt ha hlt).ne'
  obtain ⟨m, j⟩ := a
  obtain ⟨n, k⟩ := b
  obtain rfl : j = k := hscale
  obtain rfl : m = n := Nat.mul_right_cancel (Nat.two_pow_pos j) h
  rfl

end Magnitude.IsDouble

def Magnitude.overflow : ℕ := (2 ^ 54 - 1) * Nat.pow 2 2044

structure IsRounded (x : ℚ) (a : Magnitude) : Prop where
  double : a.IsDouble
  range : x < Magnitude.overflow
  near (b : Magnitude) : b.IsDouble → |x - a.units| ≤ |x - b.units|
  even (b : Magnitude) : b.IsDouble → b ≠ a → |x - b.units| = |x - a.units| → a.mantissa % 2 = 0

theorem isRounded_zero (ha : a.IsDouble) (h : a.mantissa = 0) : IsRounded 0 a := by
  have hunits : a.units = 0 := by rw [Magnitude.units, h, Nat.zero_mul]
  have hpos : 0 < Magnitude.overflow := by
    unfold Magnitude.overflow
    generalize 2044 = n
    exact Nat.mul_pos (by decide) (Nat.two_pow_pos n)
  refine ⟨ha, Nat.cast_pos.mpr hpos, fun b _ => ?_, fun b _ _ _ => by rw [h]⟩
  rw [hunits, Nat.cast_zero, sub_zero, abs_zero]
  exact abs_nonneg _

theorem IsRounded.not_lt (ha : IsRounded x a) (hb : IsRounded x b) : ¬ a.units < b.units := by
  intro hlt
  have hne : b ≠ a := by
    rintro rfl
    exact Nat.lt_irrefl _ hlt
  have htie : |x - b.units| = |x - a.units| :=
    (hb.near a ha.double).antisymm (ha.near b hb.double)
  have hlow := ha.even b hb.double hne htie
  have hhigh := hb.even a ha.double hne.symm htie.symm
  -- Between two doubles of even mantissa lies a third, nearer to their middle than either.
  have hupper := ha.double.upper
  have hc : Magnitude.IsDouble ⟨a.mantissa + 1, a.scale⟩ :=
    ⟨by dsimp only; omega, ha.double.lower.imp_left Nat.le_succ_of_le, ha.double.top⟩
  have hunits : Magnitude.units ⟨a.mantissa + 1, a.scale⟩ = a.units + 2 ^ a.scale :=
    Nat.succ_mul _ _
  have hbetween : Magnitude.units ⟨a.mantissa + 1, a.scale⟩ < b.units := by
    apply Nat.lt_of_le_of_ne
    · rw [hunits]
      exact ha.double.units_add_le hb.double hlt
    · intro heq
      rw [← hc.eq_of_units_eq hb.double heq] at hhigh
      dsimp only at hhigh
      omega
  have habove : a.units < Magnitude.units ⟨a.mantissa + 1, a.scale⟩ := by
    rw [hunits]
    exact Nat.lt_add_of_pos_right (Nat.two_pow_pos _)
  have hnear := hb.near _ hc
  generalize Magnitude.units ⟨a.mantissa + 1, a.scale⟩ = c at hbetween habove hnear
  rw [← Nat.cast_lt (α := ℚ)] at hlt hbetween habove
  rcases abs_eq_abs.mp htie with hmiddle | hmiddle
  · linarith
  · have hfar : |x - c| < b.units - x := abs_lt.mpr ⟨by linarith, by linarith⟩
    have hle := neg_le_abs (x - b.units)
    linarith

theorem IsRounded.unique (ha : IsRounded x a) (hb : IsRounded x b) : a = b :=
  ha.double.eq_of_units_eq hb.double
    (Nat.le_antisymm (Nat.not_lt.mp (hb.not_lt ha)) (Nat.not_lt.mp (ha.not_lt hb)))

end Headway.Binary64
