import Headway.Duration
import Headway.Proofs.Binary64.Rounding

namespace Headway.Binary64

open Float.Model (UnpackedFloat Format)
open Float.Model.UnpackedFloat (Accuracy Sign)

structure Full (x : Float) (m : ℕ) (e : ℤ) : Prop where
  pos : 0 < m
  unpack : x.toModel.unpack = .finite .positive m e pos
  lower : 2 ^ 52 ≤ m
  upper : m < 2 ^ 53

variable {x y : Float} {m n : ℕ} {e f : ℤ} {w : UInt64}

theorem full_of_round {u : ℕ} {k : ℕ} (hk : u.log2 = 52 + k) (he : -1074 ≤ e + k)
    (he' : e + k ≤ 970) (acc : Accuracy)
    (hx : x.toModel = .pack (UnpackedFloat.roundWithAccuracy .binary64 .positive u e acc)) :
    ∃ m j, Full x m (e + k + (j : ℕ)) ∧ m * 2 ^ j = rounded u k acc ∧ j ≤ 1 := by
  obtain ⟨m, j, hpos, hr, hlo, hhi, hm, hj⟩ := roundWithAccuracy_eq hk he .positive acc
  refine ⟨m, j, ⟨hpos, ?_, hlo, hhi⟩, hm, hj⟩
  rw [hx, hr]
  exact unpack_pack hlo hhi (by omega) (by omega) _ _

theorem log2_mul_two_pow {n c k : ℕ} (hn : n ≠ 0) (h : n.log2 + c = k) :
    (n * 2 ^ c).log2 = k := by
  have hlo := Nat.log2_self_le hn
  have hhi := Nat.lt_log2_self (n := n)
  rw [Nat.log2_eq_iff (Nat.mul_ne_zero hn (Nat.two_pow_pos c).ne'), ← h, Nat.pow_add,
    show n.log2 + c + 1 = n.log2 + 1 + c by omega, Nat.pow_add 2 (n.log2 + 1)]
  exact ⟨Nat.mul_le_mul_right _ hlo, Nat.mul_lt_mul_of_pos_right hhi (Nat.two_pow_pos c)⟩

theorem ofNat_eq {n : ℕ} (hn : n ≠ 0) :
    UnpackedFloat.ofNat .binary64 n =
      UnpackedFloat.roundWithAccuracy .binary64 .positive (n * 2 ^ (52 - n.log2))
        (-((52 - n.log2 : ℕ) : ℤ)) .exact := by
  have hc : compare (n : ℤ) 0 = .gt := by
    rw [Int.compare_eq_gt]
    omega
  have ht : Format.targetExponent .binary64 (Float.Model.totalExponent n 0) =
      (n.log2 : ℤ) - 52 := by
    rw [targetExponent_eq, Float.Model.totalExponent]
    omega
  have hs : ((0 : ℤ) - ((n.log2 : ℤ) - 52)).toNat = 52 - n.log2 := by omega
  rw [UnpackedFloat.ofNat, UnpackedFloat.ofInt, UnpackedFloat.normalize, hc]
  simp only
  rw [UnpackedFloat.round, Int.toNat_natCast, ht, UnpackedFloat.decreaseExponent, hs,
    Nat.shiftLeft_eq, Int.zero_sub]

theorem full_toFloat (hw : w ≠ 0) :
    ∃ m j : ℕ, Full w.toFloat m ((w.toNat.log2 : ℤ) - 52 + j) ∧
      m * 2 ^ j = rounded (w.toNat * 2 ^ (52 - w.toNat.log2)) (w.toNat.log2 - 52) .exact ∧
      j ≤ 1 := by
  have hn := (Count.toNat_pos hw).ne'
  have hl : w.toNat.log2 < 64 := (Nat.log2_lt hn).mpr w.toNat_lt
  have hk : (w.toNat * 2 ^ (52 - w.toNat.log2)).log2 = 52 + (w.toNat.log2 - 52) :=
    log2_mul_two_pow hn (by omega)
  obtain ⟨m, j, h, hm, hj⟩ := full_of_round (x := w.toFloat) hk
    (e := -((52 - w.toNat.log2 : ℕ) : ℤ)) (by omega) (by omega) .exact
    (congrArg Float.Model.pack (ofNat_eq hn))
  refine ⟨m, j, ?_, hm, hj⟩
  rw [show (w.toNat.log2 : ℤ) - 52 + j = -((52 - w.toNat.log2 : ℕ) : ℤ) +
    ((w.toNat.log2 - 52 : ℕ) : ℤ) + j by omega]
  exact h

theorem rounded_eleven_lt (h : n < 2 ^ 64 - 1024) : rounded n 11 .exact < 2 ^ 53 := by
  -- Of 64 bits, eleven are rounded away; from the last 1024 words on, that carries out of the
  -- rest.
  have hb := rounded_bounds n 11 .exact
  by_cases hd : n / 2 ^ 11 + 1 < 2 ^ 53
  · omega
  · rw [rounded_succ_of_even (k := 10) (by omega)]
    omega

theorem rounded_eleven_top (h : 2 ^ 64 - 1024 ≤ n) (h' : n < 2 ^ 64) :
    rounded n 11 .exact = 2 ^ 53 := by
  rw [rounded_succ_of_odd (k := 10) (by omega) (by omega)]
  omega

theorem full_toFloat_cases (hw : w ≠ 0) :
    ∃ m e, Full w.toFloat m e ∧ -52 ≤ e ∧ (w ≠ 1 → -51 ≤ e) ∧
      (e < 12 ∧ w.toNat < 2 ^ 64 - 1024 ∨ e = 12 ∧ m = 2 ^ 52 ∧ 2 ^ 64 - 1024 ≤ w.toNat) := by
  obtain ⟨m, j, h, hm, hj⟩ := full_toFloat hw
  have hn := (Count.toNat_pos hw).ne'
  have hlt := w.toNat_lt
  have hlo := h.lower
  have hl : w.toNat.log2 < 64 := (Nat.log2_lt hn).mpr hlt
  have hone : w ≠ 1 → 1 ≤ w.toNat.log2 := by
    intro hw'
    rw [Nat.le_log2 hn]
    have : w.toNat ≠ 1 := fun h => hw' (UInt64.toNat.inj h)
    omega
  refine ⟨m, _, h, by omega, fun hw' => by have := hone hw'; omega, ?_⟩
  by_cases htop : w.toNat.log2 = 63
  · rw [htop] at hm ⊢
    change m * 2 ^ j = rounded (w.toNat * 1) 11 .exact at hm
    rw [Nat.mul_one] at hm
    by_cases hend : w.toNat < 2 ^ 64 - 1024
    · left
      have hr := rounded_eleven_lt hend
      have hj' : j ≠ 1 := by
        rintro rfl
        omega
      exact ⟨by omega, hend⟩
    · right
      have hr := rounded_eleven_top (Nat.le_of_not_lt hend) hlt
      have hj' : j ≠ 0 := by
        rintro rfl
        have := h.upper
        omega
      obtain rfl : j = 1 := by omega
      exact ⟨by omega, by omega, by omega⟩
  · left
    have hup : w.toNat < 2 ^ 63 := (Nat.log2_lt hn).mp (by omega)
    exact ⟨by omega, by omega⟩

section Division

theorem full_div (hx : Full x m e) (hy : Full y n f) (he : -1021 ≤ e - f) (he' : e - f ≤ 1021)
    {k : ℕ} (hk : (m * 2 ^ 53 / n).log2 = 52 + k) (hk' : k ≤ 1) :
    ∃ q j : ℕ, Full (x / y) q (e - f - 53 + k + j) ∧
      q * 2 ^ j = rounded (m * 2 ^ 53 / n) k
        (UnpackedFloat.accuracyOfFraction (m * 2 ^ 53 % n) n) ∧ j ≤ 1 := by
  have ht : min (e - f) (Format.targetExponent .binary64
      (Float.Model.totalExponent m e - Float.Model.totalExponent n f)) = e - f - 53 := by
    have hm : m.log2 = 52 := (Nat.log2_eq_iff hx.pos.ne').mpr ⟨hx.lower, hx.upper⟩
    have hn : n.log2 = 52 := (Nat.log2_eq_iff hy.pos.ne').mpr ⟨hy.lower, hy.upper⟩
    rw [targetExponent_eq, Float.Model.totalExponent, Float.Model.totalExponent, hm, hn]
    omega
  have hs : (e - f - (e - f - 53)).toNat = 53 := by omega
  have hd : UnpackedFloat.divCore .binary64 m e n f = (m * 2 ^ 53 / n, e - f - 53,
      UnpackedFloat.accuracyOfFraction (m * 2 ^ 53 % n) n) := by
    rw [UnpackedFloat.divCore, ht, hs, Nat.shiftLeft_eq]
  apply full_of_round hk (by omega) (by omega)
  change Float.Model.pack (UnpackedFloat.div .binary64 x.toModel.unpack y.toModel.unpack) = _
  rw [hx.unpack, hy.unpack, UnpackedFloat.div, hd]
  rfl

theorem exists_log2_quotient (hx : Full x m e) (hy : Full y n f) :
    ∃ k, (m * 2 ^ 53 / n).log2 = 52 + k ∧ k ≤ 1 := by
  have hlo : 2 ^ 52 ≤ m * 2 ^ 53 / n := by
    rw [Nat.le_div_iff_mul_le hy.pos]
    have := hx.lower
    have := hy.upper
    omega
  have hhi : m * 2 ^ 53 / n < 2 ^ 54 := by
    rw [Nat.div_lt_iff_lt_mul hy.pos]
    have := hx.upper
    have := hy.lower
    omega
  by_cases h : m * 2 ^ 53 / n < 2 ^ 53
  · exact ⟨0, (Nat.log2_eq_iff (by omega)).mpr ⟨hlo, h⟩, by omega⟩
  · exact ⟨1, (Nat.log2_eq_iff (by omega)).mpr ⟨by omega, hhi⟩, by omega⟩

theorem full_div_le (hx : Full x m e) (hy : Full y n f) (he : -1021 ≤ e - f)
    (he' : e - f ≤ 1021) :
    ∃ q g, Full (x / y) q g ∧ -1074 ≤ g ∧
      q * 2 ^ (g + 1074).toNat ≤ (m * 2 ^ 53 / n + 2) * 2 ^ (e - f + 1021).toNat := by
  obtain ⟨k, hk, hk'⟩ := exists_log2_quotient hx hy
  obtain ⟨q, j, h, hq, hj⟩ := full_div hx hy he he' hk hk'
  refine ⟨q, _, h, by omega, ?_⟩
  have hb := (rounded_bounds (m * 2 ^ 53 / n) k
    (UnpackedFloat.accuracyOfFraction (m * 2 ^ 53 % n) n)).2
  have hle : rounded (m * 2 ^ 53 / n) k
      (UnpackedFloat.accuracyOfFraction (m * 2 ^ 53 % n) n) * 2 ^ k ≤ m * 2 ^ 53 / n + 2 := by
    rcases Nat.le_one_iff_eq_zero_or_eq_one.mp hk' with rfl | rfl
    · omega
    · omega
  have hg : (e - f - 53 + k + j + 1074).toNat = j + k + (e - f + 1021).toNat := by omega
  rw [hg, Nat.pow_add, Nat.pow_add, ← Nat.mul_assoc, ← Nat.mul_assoc, hq]
  exact Nat.mul_le_mul_right _ hle

theorem full_div_power (hx : Full x m e) (hy : Full y (2 ^ 52) f) (he : -1021 ≤ e - f)
    (he' : e - f ≤ 1021) : Full (x / y) m (e - f - 52) := by
  have hlo := hx.lower
  have hhi := hx.upper
  have hu : m * 2 ^ 53 / 2 ^ 52 = m * 2 := by omega
  have hk : (m * 2 ^ 53 / 2 ^ 52).log2 = 52 + 1 := by
    rw [hu]
    exact (Nat.log2_eq_iff (by omega)).mpr ⟨by omega, by omega⟩
  obtain ⟨q, j, h, hq, hj⟩ := full_div hx hy he he' hk (by omega)
  have hr := rounded_succ_of_even (m := m * 2 ^ 53 / 2 ^ 52) (k := 0) (by omega)
    (UnpackedFloat.accuracyOfFraction (m * 2 ^ 53 % 2 ^ 52) (2 ^ 52))
  rw [hr] at hq
  have := h.lower
  obtain rfl : j = 0 := by
    rcases Nat.le_one_iff_eq_zero_or_eq_one.mp hj with rfl | rfl
    · rfl
    · omega
  obtain rfl : q = m := by omega
  rw [show e - f - 52 = e - f - 53 + (1 : ℕ) + (0 : ℕ) by omega]
  exact h

theorem full_one : Full (1 : UInt64).toFloat (2 ^ 52) (-52) :=
  ⟨by decide, by rfl, by decide, by decide⟩

theorem full_div_one (hx : Full x m e) (he : -1000 ≤ e) (he' : e ≤ 900) :
    Full (x / (1 : UInt64).toFloat) m e := by
  have h := full_div_power hx full_one (by omega) (by omega)
  rwa [show e - -52 - 52 = e by omega] at h

end Division

section Seconds

open Duration

theorem ofFloat?_eq (hx : Full x m e) :
    ofFloat? x = ofNanos? (Rounding.roundDiv (m * 2 ^ (e + 1074).toNat * perSecond)
      Magnitude.unitsPerOne) := by
  rw [ofFloat?, shape_eq, hx.unpack]
  rfl

theorem unitsPerOne_pos : 0 < Magnitude.unitsPerOne := by
  unfold Magnitude.unitsPerOne
  apply Nat.two_pow_pos

theorem two_pow_eq_mul_unitsPerOne (k : ℕ) : 2 ^ (k + 1074) = 2 ^ k * Magnitude.unitsPerOne := by
  unfold Magnitude.unitsPerOne
  generalize 1074 = n
  exact Nat.pow_add 2 k n

theorem mul_two_pow_le {a b g k : ℕ} (hg : g ≤ k + 1074) (h : a * 2 ^ k ≤ b) :
    a * 2 ^ g ≤ b * Magnitude.unitsPerOne := by
  calc a * 2 ^ g ≤ a * 2 ^ (k + 1074) := Nat.mul_le_mul_left a (Nat.pow_le_pow_right (by omega) hg)
    _ = a * 2 ^ k * Magnitude.unitsPerOne := by
      rw [two_pow_eq_mul_unitsPerOne, Nat.mul_assoc]
    _ ≤ b * Magnitude.unitsPerOne := Nat.mul_le_mul_right _ h

theorem ofFloat?_ne_none (hx : Full x m e)
    (h : m * 2 ^ (e + 1074).toNat ≤ (2 ^ 64 - 2048) * Magnitude.unitsPerOne) :
    ofFloat? x ≠ none := by
  have hU := unitsPerOne_pos
  have hr := @Rounding.roundDiv_le (m * 2 ^ (e + 1074).toNat * perSecond) _ hU
  rw [ofFloat?_eq hx, Ne, ofNanos?_eq_none_iff, Nat.not_le]
  generalize Rounding.roundDiv (m * 2 ^ (e + 1074).toNat * perSecond) Magnitude.unitsPerOne = r
    at hr ⊢
  generalize Magnitude.unitsPerOne = U at h hU hr
  have hle : 2 * r * U ≤ (2 * ((2 ^ 64 - 2048) * perSecond) + 1) * U := by
    calc 2 * r * U ≤ 2 * (m * 2 ^ (e + 1074).toNat * perSecond) + U := by
          rw [Nat.mul_assoc]
          exact hr
      _ ≤ 2 * ((2 ^ 64 - 2048) * U * perSecond) + U := by
          have := Nat.mul_le_mul_right perSecond h
          omega
      _ = (2 * ((2 ^ 64 - 2048) * perSecond) + 1) * U := by ring
  have hr' := Nat.le_of_mul_le_mul_right hle hU
  simp only [perSecond, limit] at hr' ⊢
  omega

theorem ofFloat?_eq_none (hx : Full x (2 ^ 52) 12) : ofFloat? x = none := by
  have hu : 2 ^ 52 * 2 ^ ((12 : ℤ) + 1074).toNat * perSecond =
      2 ^ 64 * perSecond * Magnitude.unitsPerOne := by
    have hg : ((12 : ℤ) + 1074).toNat = 12 + 1074 := rfl
    rw [hg, two_pow_eq_mul_unitsPerOne 12]
    ring
  rw [ofFloat?_eq hx, hu, Rounding.roundDiv_mul _ unitsPerOne_pos, ofNanos?_eq_none_iff]
  decide

theorem ofFloat?_zero_div (hy : Full y n f) : ofFloat? ((0 : UInt64).toFloat / y) ≠ none := by
  have hz : (0 : UInt64).toFloat.toModel.unpack = .zero .positive := by rfl
  have hq : (0 : UInt64).toFloat / y = .ofModel (Float.Model.pack (.zero .positive)) := by
    change Float.ofModel (Float.Model.pack (UnpackedFloat.div .binary64
      (0 : UInt64).toFloat.toModel.unpack y.toModel.unpack)) = _
    rw [hz, hy.unpack]
    rfl
  rw [hq]
  decide +kernel

theorem ofFloat?_div_ne_none (hx : Full x m e) (hy : Full y n f) (he : -52 ≤ e)
    (he' : e < 12 ∨ e = 12 ∧ m = 2 ^ 52) (hf : -51 ≤ f) (hf' : f ≤ 12) : ofFloat? (x / y) ≠ none := by
  have hm := hx.upper
  have hn := hy.lower
  obtain ⟨q, g, h, -, hle⟩ := full_div_le hx hy (by omega) (by omega)
  apply ofFloat?_ne_none h
  apply hle.trans
  rcases he' with he' | ⟨rfl, rfl⟩
  · have hu : m * 2 ^ 53 / n < 2 ^ 54 := by
      rw [Nat.div_lt_iff_lt_mul hy.pos]
      omega
    exact mul_two_pow_le (k := 9) (by omega) (by omega)
  · have hu : 2 ^ 52 * 2 ^ 53 / n ≤ 2 ^ 53 := by
      rw [Nat.div_le_iff_le_mul_add_pred hy.pos]
      omega
    exact mul_two_pow_le (k := 10) (by omega) (by omega)

theorem ofFloat?_div_eq_none_iff {w r : UInt64} (hr : r ≠ 0) :
    ofFloat? (w.toFloat / r.toFloat) = none ↔ r = 1 ∧ 2 ^ 64 - 1024 ≤ w.toNat := by
  obtain ⟨n, f, hf, -, hf₁, hf₂⟩ := full_toFloat_cases hr
  by_cases hw : w = 0
  · rw [hw]
    constructor
    · intro h
      exact absurd h (ofFloat?_zero_div hf)
    · rintro ⟨-, h⟩
      contradiction
  · obtain ⟨m, e, he, he₁, -, he₂⟩ := full_toFloat_cases hw
    have hm := he.upper
    by_cases hone : r = 1
    · have hq := full_div_one he (by omega) (by omega)
      rw [hone]
      rcases he₂ with ⟨hlt, hsmall⟩ | ⟨rfl, rfl, hlarge⟩
      · constructor
        · intro h
          exact absurd h (ofFloat?_ne_none hq (mul_two_pow_le (k := 11) (by omega) (by omega)))
        · rintro ⟨-, h⟩
          omega
      · constructor
        · intro _
          exact ⟨rfl, hlarge⟩
        · intro _
          exact ofFloat?_eq_none hq
    · constructor
      · intro h
        exact absurd h (ofFloat?_div_ne_none he hf he₁ (by omega) (hf₁ hone) (by omega))
      · rintro ⟨h, -⟩
        exact absurd h hone

end Seconds

end Headway.Binary64
