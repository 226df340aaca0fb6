import Headway.Report.Text
import Headway.Proofs.Binary64.Nearest

namespace Headway

open Headway.Rounding Headway.Decimal Headway.Binary64

namespace ByteUnit

variable {n d : ℕ} {u v : ByteUnit}

def power : ByteUnit → ℕ
  | byte => 0
  | kibi => 1
  | mebi => 2
  | gibi => 3
  | tebi => 4

theorem holding_congr (h : ∀ u : ByteUnit, u.size ≤ n ↔ u.size ≤ d) : holding n = holding d := by
  simp only [holding, ← Nat.not_le, h]

theorem holding_eq_byte_iff : holding n = .byte ↔ n < 1024 := by
  rw [holding]
  split_ifs <;> simp only [size] at * <;> simp <;> omega

theorem lt_of_holding_ne_tebi (h : holding n ≠ .tebi) : n < 1024 * (holding n).size := by
  revert h
  rw [holding]
  split_ifs <;> simp only [size] at * <;> simp <;> omega

theorem nearest_size (u : ByteUnit) : nearest u.size = u.size := by
  apply nearest_of_lt
  cases u <;> decide

theorem size_le_nearest_iff : u.size ≤ nearest n ↔ u.size ≤ n := by
  -- Rounding to a double passes no unit, for units are doubles.
  constructor
  · intro h
    by_contra hn
    have hsmall : u.size ≤ 2 ^ 40 := by cases u <;> decide
    rw [nearest_of_lt (by omega)] at h
    exact hn h
  · intro h
    have hn := nearest_mono h
    rwa [nearest_size] at hn

theorem holding_nearest (n : ℕ) : holding (nearest n) = holding n :=
  holding_congr fun _ => size_le_nearest_iff

end ByteUnit

namespace Amount

variable {m n : UInt64}

def inUnit (n d : ℕ) : ByteUnit → Amount
  | .byte => ⟨digits n, .byte⟩
  | u => ⟨tenths (roundDiv (10 * d) u.size), u⟩

theorem ofBytes_eq (n : UInt64) :
    ofBytes n = inUnit n.toNat (nearest n.toNat) (.holding n.toNat) := by
  have h : ofBytes n =
      inUnit n.toNat (nearestDouble n.toNat) (.holding (nearestDouble n.toNat)) := by
    unfold ofBytes
    generalize nearestDouble n.toNat = d
    generalize hu : ByteUnit.holding d = u
    simp only [hu]
    cases u <;> rfl
  exact h.trans (congrArg (inUnit n.toNat (nearest n.toNat)) (ByteUnit.holding_nearest n.toNat))

theorem unit_ofBytes (n : UInt64) : (ofBytes n).unit = .holding n.toNat := by
  rw [ofBytes_eq]
  generalize ByteUnit.holding n.toNat = u
  cases u <;> rfl

theorem figure_of_ne_byte {u : ByteUnit} (h : u ≠ .byte) (n d : ℕ) :
    inUnit n d u = ⟨tenths (roundDiv (10 * d) u.size), u⟩ := by
  cases u with
  | byte => exact absurd rfl h
  | kibi | mebi | gibi | tebi => rfl

def mantissa (a : Amount) : ℕ :=
  10 * value (a.figure.takeWhile (· ≠ '.')) + value ((a.figure.dropWhile (· ≠ '.')).drop 1)

theorem ne_point_of_mem_digits {k : ℕ} : ∀ c ∈ digits k, decide (c ≠ '.') = true := by
  intro c hc
  have hdigit := isDigit_of_mem_digits hc
  rw [decide_eq_true_eq]
  rintro rfl
  cases hdigit

theorem mantissa_digits (k : ℕ) (u : ByteUnit) : mantissa ⟨digits k, u⟩ = 10 * k := by
  rw [mantissa, List.takeWhile_eq_self_iff.mpr ne_point_of_mem_digits,
    List.dropWhile_eq_nil_iff.mpr ne_point_of_mem_digits, value_digits]
  rfl

theorem mantissa_tenths (t : ℕ) (u : ByteUnit) : mantissa ⟨tenths t, u⟩ = t := by
  rw [mantissa, tenths, List.takeWhile_append_of_pos ne_point_of_mem_digits,
    List.dropWhile_append_of_pos ne_point_of_mem_digits]
  simp [value_digits]
  omega

theorem mantissa_ofBytes (n : UInt64) : (ofBytes n).mantissa =
    roundDiv (10 * nearest n.toNat) (ByteUnit.holding n.toNat).size := by
  rw [ofBytes_eq]
  by_cases h : ByteUnit.holding n.toNat = .byte
  · have hn := ByteUnit.holding_eq_byte_iff.mp h
    rw [h, inUnit, mantissa_digits, ByteUnit.size, roundDiv_one, nearest_of_lt (by omega)]
  · rw [figure_of_ne_byte h, mantissa_tenths]

section Division

theorem units_power (k : ℕ) : units (2 ^ 52) (k - 52) = 2 ^ k * Magnitude.unitsPerOne := by
  have he : ((k : ℤ) - 52 + 1074).toNat = k + 1022 := by omega
  rw [units, he, ← Nat.pow_add, show 52 + (k + 1022) = k + 1074 by omega,
    two_pow_eq_mul_unitsPerOne]

theorem full_thousand : Full 1024.0 (2 ^ 52) (-42) :=
  ⟨by decide, by rfl, by decide, by decide⟩

def Stands (k : ℕ) (x : Float) (d s : ℕ) : Prop :=
  ∃ m e, Full x m e ∧ 10 * (k : ℤ) - 900 ≤ e ∧ e ≤ 900 ∧ units m e * s = d * Magnitude.unitsPerOne

variable {k d s : ℕ} {x : Float}

theorem Stands.le_iff (hs : 0 < s) (h : Stands k x d s) : 1024.0 ≤ x ↔ 1024 * s ≤ d := by
  obtain ⟨m, e, hx, hlow, hhigh, hunits⟩ := h
  have hU := unitsPerOne_pos
  have hthousand : units (2 ^ 52) (-42) = 1024 * Magnitude.unitsPerOne := by
    have he : (-42 : ℤ) = (10 : ℕ) - 52 := rfl
    rw [he, units_power, show 2 ^ 10 = 1024 from rfl]
  rw [(full_thousand.above (by decide)).le_iff (hx.above (by omega)), hthousand,
    ← Nat.mul_le_mul_right_iff hs, hunits, Nat.mul_right_comm, Nat.mul_le_mul_right_iff hU]

theorem Stands.div (h : Stands (k + 1) x d s) : Stands k (x / 1024.0) d (s * 1024) := by
  obtain ⟨m, e, hx, hlow, hhigh, hunits⟩ := h
  have hdiv := full_div_power hx full_thousand (by omega) (by omega)
  refine ⟨m, _, hdiv, by omega, by omega, ?_⟩
  have he : (e + 1074).toNat = (e - -42 - 52 + 1074).toNat + 10 := by omega
  rw [← hunits, units, units, he, Nat.pow_add]
  ring

end Division

section Measures

theorem roundDiv_brim {k s : ℕ} (hlow : 20479 * s ≤ 20 * k) (hhigh : k < 1024 * s) :
    roundDiv (10 * k) s = 10240 := by
  have hq : 10 * k / s = 10239 := Nat.div_eq_of_lt_le (by omega) (by omega)
  have hr := Nat.div_add_mod' (10 * k) s
  rw [hq] at hr
  simp only [roundDiv, hq]
  exact if_neg (by omega)

theorem roundDiv_lt_of_lt {k s : ℕ} (h : 20 * k < 20479 * s) : roundDiv (10 * k) s < 10240 := by
  have hs : 0 < s := by omega
  have hle : 2 * (roundDiv (10 * k) s * s) ≤ 2 * (10 * k) + s := roundDiv_le hs
  by_contra hge
  have hmul := Nat.mul_le_mul_right s (Nat.le_of_not_lt hge)
  omega

theorem mantissa_lt_iff (n : UInt64) (h : (ofBytes n).unit ≠ .tebi) :
    ((ofBytes n).mantissa < 10 * 1024 ↔ 20 * n.toNat < 20479 * (ofBytes n).unit.size) ∧
      (20479 * (ofBytes n).unit.size ≤ 20 * n.toNat → (ofBytes n).figure = "1024.0".toList) := by
  rw [unit_ofBytes] at h ⊢
  have hhigh := ByteUnit.lt_of_holding_ne_tebi h
  have hsize : (ByteUnit.holding n.toNat).size ≤ 2 ^ 40 := by
    generalize ByteUnit.holding n.toNat = u
    cases u <;> decide
  have hnearest : nearest n.toNat = n.toNat := nearest_of_lt (by omega)
  rw [mantissa_ofBytes, hnearest]
  constructor
  · constructor
    · intro hlt
      by_contra hlow
      rw [roundDiv_brim (Nat.le_of_not_lt hlow) hhigh] at hlt
      exact absurd hlt (by decide)
    · exact roundDiv_lt_of_lt
  · intro hlow
    have hbyte : ByteUnit.holding n.toNat ≠ .byte := by
      intro hb
      rw [hb, ByteUnit.size] at hlow hhigh
      omega
    rw [ofBytes_eq, figure_of_ne_byte hbyte, hnearest, roundDiv_brim hlow hhigh]
    rfl

theorem mantissa_lt_iff_brim :
    (ofBytes 1048525).unit ≠ .tebi ∧ ¬ (ofBytes 1048525).mantissa < 10 * 1024 ∧
      (ofBytes 1048525).figure = "1024.0".toList := by
  have hunit : (ofBytes 1048525).unit ≠ .tebi := by decide
  obtain ⟨hiff, hfigure⟩ := mantissa_lt_iff 1048525 hunit
  have hlow : 20479 * (ofBytes 1048525).unit.size ≤ 20 * (1048525 : UInt64).toNat := by decide
  exact ⟨hunit, mt hiff.mp (Nat.not_lt_of_le hlow), hfigure hlow⟩

theorem not_mantissa_lt_brim :
    ¬ ∀ n : UInt64, (ofBytes n).unit ≠ .tebi → (ofBytes n).mantissa < 10 * 1024 := by
  intro h
  exact absurd (h 1048575 (by decide)) (by decide)

end Measures

end Amount

end Headway
