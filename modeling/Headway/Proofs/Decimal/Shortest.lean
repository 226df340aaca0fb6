import Headway.Decimal.Shortest
import Headway.Proofs.Binary64.Neighbours

namespace Headway.Decimal

open Headway.Binary64

variable {a b : Magnitude} {s : Scientific}

def Scientific.units (s : Scientific) : ℚ :=
  s.digits * (10 : ℚ) ^ s.exponent * Magnitude.unitsPerOne

theorem divisor_pos (s : Scientific) : 0 < s.divisor := Nat.pow_pos (by decide)

theorem quarters_eq (s : Scientific) : (s.quarters : ℚ) = 4 * s.units * s.divisor := by
  have hpow : (10 : ℚ) ^ s.exponent.toNat =
      (10 : ℚ) ^ s.exponent * (10 : ℚ) ^ (-s.exponent).toNat := by
    rw [← zpow_natCast, ← zpow_natCast, ← zpow_add₀ (by norm_num)]
    congr 1
    omega
  rw [Scientific.quarters, Scientific.units, Scientific.divisor, Nat.pow_eq, Nat.pow_eq]
  push_cast
  rw [hpow]
  ring

section Interval

theorem slackBelow_le (a : Magnitude) : slackBelow a ≤ 2 * 2 ^ a.scale := by
  rw [slackBelow, Nat.pow_eq]
  split <;> omega

theorem slackBelow_pos (a : Magnitude) : 0 < slackBelow a := by
  have hp := Nat.two_pow_pos a.scale
  rw [slackBelow, Nat.pow_eq]
  split <;> omega

theorem slackBelow_lt (h : a.mantissa ≠ 0) : slackBelow a < 4 * a.units := by
  have hp := Nat.two_pow_pos a.scale
  have hunits : 1 * 2 ^ a.scale ≤ a.units := Nat.mul_le_mul_right _ (Nat.pos_of_ne_zero h)
  have hslack := slackBelow_le a
  omega

theorem add_slackBelow_le (ha : a.IsDouble) (hb : b.IsDouble) (h : b.units < a.units) :
    2 * b.units + slackBelow a ≤ 2 * a.units := by
  rcases Nat.eq_or_lt_of_le (hb.scale_le ha h) with hscale | hscale
  · have hadd := hb.units_add_le ha h
    have hslack := slackBelow_le a
    rw [hscale] at hadd
    omega
  · -- Only below a power of two is the next double nearer than a last place.
    obtain ⟨s, hs⟩ := Nat.exists_eq_add_of_lt hscale
    have hlow : 2 ^ 52 ≤ a.mantissa := ha.lower.resolve_right (by omega)
    have hpow : 2 ^ a.scale = 2 * 2 ^ (b.scale + s) := by rw [hs, Nat.pow_succ']
    have hb' : b.units ≤ (2 ^ 53 - 1) * 2 ^ (b.scale + s) :=
      Nat.mul_le_mul (Nat.le_sub_one_of_lt hb.upper)
        (Nat.pow_le_pow_right (by omega) (Nat.le_add_right _ _))
    have ha' : a.units = a.mantissa * (2 * 2 ^ (b.scale + s)) := by
      rw [Magnitude.units, Nat.pow_eq, hpow]
    have hleading : Magnitude.leadingBit = 2 ^ 52 := rfl
    rw [slackBelow, Nat.pow_eq, hpow, hleading]
    split
    next hpower =>
      rw [hpower.1] at ha'
      omega
    next hpower =>
      have hmore : (2 ^ 52 + 1) * (2 * 2 ^ (b.scale + s)) ≤ a.units := by
        rw [ha']
        apply Nat.mul_le_mul_right
        omega
      omega

theorem bounds_of_readsAs (h : readsAs a s = true) :
    4 * (a.units : ℚ) - slackBelow a ≤ 4 * s.units ∧
      4 * s.units ≤ 4 * (a.units : ℚ) + slackAbove a ∧
      (a.mantissa % 2 = 0 ∨ 4 * (a.units : ℚ) - slackBelow a < 4 * s.units ∧
        4 * s.units < 4 * (a.units : ℚ) + slackAbove a) := by
  have hd : (0 : ℚ) < s.divisor := Nat.cast_pos.mpr (divisor_pos s)
  have hsub : 4 * (a.units : ℚ) - slackBelow a ≤ (4 * a.units - slackBelow a : ℕ) := by
    rw [sub_le_iff_le_add]
    exact_mod_cast le_tsub_add
  have hsub' := mul_le_mul_of_nonneg_right hsub hd.le
  simp only [readsAs] at h
  split at h
  next heven =>
    rw [Bool.and_eq_true, decide_eq_true_eq, decide_eq_true_eq, ← Nat.cast_le (α := ℚ),
      ← Nat.cast_le (α := ℚ), quarters_eq, Nat.cast_mul, Nat.cast_mul] at h
    refine ⟨?_, ?_, .inl heven⟩
    · exact hsub.trans (le_of_mul_le_mul_right h.1 hd)
    · exact_mod_cast le_of_mul_le_mul_right h.2 hd
  next hodd =>
    rw [Bool.and_eq_true, decide_eq_true_eq, decide_eq_true_eq, ← Nat.cast_lt (α := ℚ),
      ← Nat.cast_lt (α := ℚ), quarters_eq, Nat.cast_mul, Nat.cast_mul] at h
    have hlow := hsub.trans_lt (lt_of_mul_lt_mul_right h.1 hd.le)
    have hhigh := lt_of_mul_lt_mul_right h.2 hd.le
    push_cast at hhigh
    exact ⟨hlow.le, hhigh.le, .inr ⟨hlow, hhigh⟩⟩

theorem abs_sub_of_readsAs (ha : a.IsDouble) (hb : b.IsDouble) (hne : b ≠ a)
    (h : readsAs a s = true) :
    |s.units - a.units| ≤ |s.units - b.units| ∧
      (a.mantissa % 2 = 0 ∨ |s.units - a.units| < |s.units - b.units|) := by
  obtain ⟨hlow, hhigh, hstrict⟩ := bounds_of_readsAs h
  rcases Nat.lt_or_gt_of_ne (mt (hb.eq_of_units_eq ha) hne) with hlt | hlt
  · have hgap : 2 * (b.units : ℚ) + slackBelow a ≤ 2 * a.units := by
      exact_mod_cast add_slackBelow_le ha hb hlt
    have hfar := le_abs_self (s.units - b.units)
    rw [← Nat.cast_lt (α := ℚ)] at hlt
    refine ⟨(abs_le.mpr ⟨?_, ?_⟩).trans hfar, hstrict.imp_right fun hs => ?_⟩
    · linarith
    · linarith
    · exact (abs_lt.mpr ⟨by linarith, by linarith⟩).trans_le hfar
  · have hgap : 2 * (a.units : ℚ) + slackAbove a ≤ 2 * b.units := by
      have hadd := ha.units_add_le hb hlt
      rw [slackAbove, Nat.pow_eq]
      exact_mod_cast (by omega : 2 * a.units + 2 * 2 ^ a.scale ≤ 2 * b.units)
    have hfar := neg_le_abs (s.units - b.units)
    rw [gt_iff_lt, ← Nat.cast_lt (α := ℚ)] at hlt
    refine ⟨(abs_le.mpr ⟨?_, ?_⟩).trans hfar, hstrict.imp_right fun hs => ?_⟩
    · linarith
    · linarith
    · exact (abs_lt.mpr ⟨by linarith, by linarith⟩).trans_le hfar

theorem lt_overflow_of_readsAs (ha : a.IsDouble) (h : readsAs a s = true) :
    s.units < Magnitude.overflow := by
  obtain ⟨-, hhigh, hstrict⟩ := bounds_of_readsAs h
  have hupper := ha.upper
  have htop : a.scale ≤ 2044 + 1 := ha.top
  have hsum : 4 * a.units + slackAbove a = (4 * a.mantissa + 2) * 2 ^ a.scale := by
    rw [Magnitude.units, slackAbove, Nat.pow_eq]
    ring
  unfold Magnitude.overflow
  generalize 2044 = n at htop ⊢
  have hlast : 2 ^ a.scale ≤ 2 * 2 ^ n := by
    rw [← Nat.pow_succ']
    exact Nat.pow_le_pow_right (by omega) htop
  have hp := Nat.two_pow_pos n
  have hle := Nat.mul_le_mul_left (4 * a.mantissa + 2) hlast
  rw [← hsum] at hle
  rw [Nat.pow_eq]
  rcases hstrict with heven | ⟨-, hstrict⟩
  · have hm : 4 * a.mantissa + 2 ≤ 4 * 2 ^ 53 - 6 := by omega
    have hmost := hle.trans (Nat.mul_le_mul_right _ hm)
    have hlt : 4 * (a.units : ℚ) + slackAbove a < 4 * ((2 ^ 54 - 1) * 2 ^ n : ℕ) := by
      exact_mod_cast (by omega : 4 * a.units + slackAbove a < 4 * ((2 ^ 54 - 1) * 2 ^ n))
    linarith
  · have hm : 4 * a.mantissa + 2 ≤ 4 * 2 ^ 53 - 2 := by omega
    have hmost := hle.trans (Nat.mul_le_mul_right _ hm)
    have hle : 4 * (a.units : ℚ) + slackAbove a ≤ 4 * ((2 ^ 54 - 1) * 2 ^ n : ℕ) := by
      exact_mod_cast (by omega : 4 * a.units + slackAbove a ≤ 4 * ((2 ^ 54 - 1) * 2 ^ n))
    linarith

theorem isRounded_of_readsAs (ha : a.IsDouble) (h : readsAs a s = true) :
    IsRounded s.units a := by
  refine ⟨ha, lt_overflow_of_readsAs ha h, fun b hb => ?_, fun b hb hne htie => ?_⟩
  · rcases eq_or_ne b a with rfl | hne
    · exact le_rfl
    · exact (abs_sub_of_readsAs ha hb hne h).1
  · exact (abs_sub_of_readsAs ha hb hne h).2.resolve_right htie.le.not_gt

end Interval

section Search

theorem quarters_floorOn {n : ℕ} (hn : Magnitude.unitsPerOne = Nat.pow 2 n) (a : Magnitude) :
    (floorOn a (-n)).quarters = 4 * a.units * (floorOn a (-n)).divisor := by
  -- The division leaves nothing: the digits are the units times a power of five.
  have hdvd : Magnitude.unitsPerOne ∣ a.units * Nat.pow 10 n := by
    rw [hn]
    exact Dvd.dvd.mul_left (pow_dvd_pow_of_dvd (by decide) n) _
  have hone : Nat.pow 10 0 = 1 := rfl
  rw [Scientific.quarters, Scientific.divisor, floorOn, neg_neg, Int.toNat_natCast,
    Int.toNat_neg_natCast, hone, Nat.mul_one, Nat.mul_one, Nat.mul_assoc,
    Nat.mul_div_cancel' hdvd, Nat.mul_assoc]

theorem readsAs_of_quarters_eq (hs : s.quarters = 4 * a.units * s.divisor) (h : a.mantissa ≠ 0) :
    readsAs a s = true := by
  have hd := divisor_pos s
  have hbelow := slackBelow_pos a
  have hlt := slackBelow_lt h
  have habove : 0 < slackAbove a := Nat.mul_pos (by decide) (Nat.two_pow_pos _)
  have hlow : (4 * a.units - slackBelow a) * s.divisor < 4 * a.units * s.divisor :=
    Nat.mul_lt_mul_of_pos_right (by omega) hd
  have hhigh : 4 * a.units * s.divisor < (4 * a.units + slackAbove a) * s.divisor :=
    Nat.mul_lt_mul_of_pos_right (by omega) hd
  rw [readsAs, hs]
  split <;> simp [hlow, hhigh, hlow.le, hhigh.le]

theorem readsAs_onGrid {e : ℤ} (h : onGrid a e = some s) : readsAs a s = true := by
  simp only [onGrid] at h
  split at h
  next hlower hupper =>
    cases h
    split
    · exact hupper
    · exact hlower
  next hlower _ =>
    cases h
    exact hlower
  next _ hupper =>
    cases h
    exact hupper
  next => cases h

theorem onGrid_ne_none {e : ℤ} (h : readsAs a (floorOn a e) = true) : onGrid a e ≠ none := by
  simp only [onGrid, h]
  split <;> simp_all

theorem readsAs_search {steps : ℕ} {e : ℤ} (h : search a e steps = some s) :
    readsAs a s = true := by
  induction steps generalizing e with
  | zero => cases h
  | succ steps ih =>
    rw [search] at h
    split at h
    next hgrid =>
      cases h
      exact readsAs_onGrid hgrid
    next => exact ih h

theorem search_ne_none {steps : ℕ} {e : ℤ} (h : onGrid a (e - steps) ≠ none) :
    search a e (steps + 1) ≠ none := by
  induction steps generalizing e with
  | zero =>
    rw [Nat.cast_zero, sub_zero] at h
    rw [search]
    split
    · exact Option.some_ne_none _
    · contradiction
  | succ steps ih =>
    rw [search]
    split
    · exact Option.some_ne_none _
    · apply ih
      rwa [sub_sub, add_comm 1, ← Nat.cast_succ]

theorem readsAs_shortest (h : a.mantissa ≠ 0) : readsAs a (shortest a) = true := by
  have hunits : Magnitude.unitsPerOne = Nat.pow 2 1074 := by unfold Magnitude.unitsPerOne; rfl
  have hfinest := onGrid_ne_none (readsAs_of_quarters_eq (quarters_floorOn hunits a) h)
  have hlast : (coarsest a : ℤ) - (coarsest a + 1074 : ℕ) = -(1074 : ℕ) := by omega
  rw [← hlast] at hfinest
  obtain ⟨s, hs⟩ := Option.ne_none_iff_exists'.mp (search_ne_none hfinest)
  rw [shortest, if_neg h, hs]
  exact readsAs_search hs

theorem digits_ne_zero (h : a.mantissa ≠ 0) : (shortest a).digits ≠ 0 := by
  intro hzero
  have hlow := (bounds_of_readsAs (readsAs_shortest h)).1
  have hslack : (slackBelow a : ℚ) < 4 * a.units := by exact_mod_cast slackBelow_lt h
  rw [Scientific.units, hzero, Nat.cast_zero, zero_mul, zero_mul, mul_zero] at hlow
  linarith

theorem isRounded_shortest (ha : a.IsDouble) (h : a.mantissa ≠ 0) :
    IsRounded (shortest a).units a :=
  isRounded_of_readsAs ha (readsAs_shortest h)

end Search

end Headway.Decimal
