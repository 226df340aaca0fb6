import Mathlib
import Headway.Binary64

namespace Headway.Binary64

open Float.Model (UnpackedFloat Format)
open Float.Model.UnpackedFloat (Accuracy ExtendedMantissa Sign)

section Shift

variable (em : ExtendedMantissa) (k : ℕ)

theorem mantissa_shift : (em >>> k).mantissa = em.mantissa / 2 ^ k := by
  induction k with
  | zero => simp [HShiftRight.hShiftRight, Nat.repeat]
  | succ k ih =>
    change (em >>> k).mantissa / 2 = _
    rw [ih, Nat.div_div_eq_div_mul, Nat.pow_succ]

theorem roundBit_shift_succ :
    (em >>> (k + 1)).roundBit = (em.mantissa / 2 ^ k % 2 != 0) := by
  change ((em >>> k).mantissa % 2 != 0) = _
  rw [mantissa_shift]

theorem le_roundedMantissa : em.mantissa ≤ em.roundedMantissa := by
  rcases em with ⟨m, _ | _, _ | _⟩
  all_goals simp [ExtendedMantissa.roundedMantissa, ExtendedMantissa.accuracy,
    Accuracy.roundToNearestEven]

theorem roundedMantissa_le : em.roundedMantissa ≤ em.mantissa + 1 := by
  rcases em with ⟨m, _ | _, _ | _⟩
  all_goals simp [ExtendedMantissa.roundedMantissa, ExtendedMantissa.accuracy,
    Accuracy.roundToNearestEven]
  omega

variable {em}

theorem roundedMantissa_of_not_roundBit (h : em.roundBit = false) :
    em.roundedMantissa = em.mantissa := by
  rcases em with ⟨m, _ | _, _ | _⟩
  · rfl
  · rfl
  · cases h
  · cases h

theorem roundedMantissa_of_odd (h : em.roundBit = true) (ho : em.mantissa % 2 = 1) :
    em.roundedMantissa = em.mantissa + 1 := by
  rcases em with ⟨m, _ | _, _ | _⟩
  · cases h
  · cases h
  · exact congrArg (m + ·) ho
  · rfl

end Shift

section Round

variable {m k : ℕ} {e : ℤ}

def rounded (m k : ℕ) (acc : Accuracy) : ℕ :=
  (ExtendedMantissa.ofMantissaAndAccuracy m acc >>> k).roundedMantissa

theorem mantissa_ofMantissaAndAccuracy (m : ℕ) (acc : Accuracy) :
    (ExtendedMantissa.ofMantissaAndAccuracy m acc).mantissa = m := by
  rcases acc with _ | o
  · rfl
  · cases o <;> rfl

theorem mantissa_rounded (m k : ℕ) (acc : Accuracy) :
    (ExtendedMantissa.ofMantissaAndAccuracy m acc >>> k).mantissa = m / 2 ^ k := by
  rw [mantissa_shift, mantissa_ofMantissaAndAccuracy]

theorem roundBit_rounded (m k : ℕ) (acc : Accuracy) :
    (ExtendedMantissa.ofMantissaAndAccuracy m acc >>> (k + 1)).roundBit = (m / 2 ^ k % 2 != 0) := by
  rw [roundBit_shift_succ, mantissa_ofMantissaAndAccuracy]

theorem rounded_bounds (m k : ℕ) (acc : Accuracy) :
    m / 2 ^ k ≤ rounded m k acc ∧ rounded m k acc ≤ m / 2 ^ k + 1 := by
  rw [← mantissa_rounded m k acc]
  exact ⟨le_roundedMantissa _, roundedMantissa_le _⟩

theorem rounded_succ_of_even (h : m / 2 ^ k % 2 = 0) (acc : Accuracy) :
    rounded m (k + 1) acc = m / 2 ^ (k + 1) := by
  have hb := roundBit_rounded m k acc
  rw [h] at hb
  rw [← mantissa_rounded m (k + 1) acc]
  exact roundedMantissa_of_not_roundBit hb

theorem rounded_succ_of_odd (h : m / 2 ^ k % 2 = 1) (ho : m / 2 ^ (k + 1) % 2 = 1)
    (acc : Accuracy) : rounded m (k + 1) acc = m / 2 ^ (k + 1) + 1 := by
  have hb := roundBit_rounded m k acc
  rw [h] at hb
  rw [← mantissa_rounded m (k + 1) acc] at ho ⊢
  exact roundedMantissa_of_odd hb ho

theorem div_lt_of_log2 (hk : m.log2 = 52 + k) : m / 2 ^ k < 2 ^ 53 := by
  rw [Nat.div_lt_iff_lt_mul (Nat.two_pow_pos k), ← Nat.pow_add]
  have h := Nat.lt_log2_self (n := m)
  rw [hk] at h
  rw [show 53 + k = 52 + k + 1 by omega]
  exact h

theorem le_div_of_log2 (hk : m.log2 = 52 + k) : 2 ^ 52 ≤ m / 2 ^ k := by
  rw [Nat.le_div_iff_mul_le (Nat.two_pow_pos k), ← Nat.pow_add, ← hk]
  apply Nat.log2_self_le
  intro hm
  rw [hm, Nat.log2_zero] at hk
  omega

theorem targetExponent_eq (t : ℤ) :
    Format.targetExponent .binary64 t = max (t - 53) (-1074) := rfl

theorem shiftToTargetExponent_eq (hk : m.log2 = 52 + k) (he : -1074 ≤ e + k) (acc : Accuracy) :
    UnpackedFloat.shiftToTargetExponent .binary64 m e acc =
      (ExtendedMantissa.ofMantissaAndAccuracy m acc >>> k, e + k) := by
  have ht : Format.targetExponent .binary64 (Float.Model.totalExponent m e) = e + k := by
    rw [targetExponent_eq, Float.Model.totalExponent, hk]
    push_cast
    omega
  have hs : (e + (k : ℤ) - e).toNat = k := by omega
  rw [UnpackedFloat.shiftToTargetExponent, ht, UnpackedFloat.shiftToExponent, hs]

theorem roundWithAccuracy_of_shift {s : Sign} {acc : Accuracy} {em fm : ExtendedMantissa} {f g : ℤ}
    (h : UnpackedFloat.shiftToTargetExponent .binary64 m e acc = (em, f))
    (h' : UnpackedFloat.shiftToTargetExponent .binary64 em.roundedMantissa f .exact = (fm, g))
    (hm : 0 < fm.mantissa) :
    UnpackedFloat.roundWithAccuracy .binary64 s m e acc = .finite s fm.mantissa g hm := by
  rw [UnpackedFloat.roundWithAccuracy, h]
  simp only
  rw [h']
  exact dif_neg (Nat.ne_of_gt hm)

theorem roundWithAccuracy_eq (hk : m.log2 = 52 + k) (he : -1074 ≤ e + k) (s : Sign)
    (acc : Accuracy) :
    ∃ n j h, UnpackedFloat.roundWithAccuracy .binary64 s m e acc = .finite s n (e + k + (j : ℕ)) h ∧
      2 ^ 52 ≤ n ∧ n < 2 ^ 53 ∧ n * 2 ^ j = rounded m k acc ∧ j ≤ 1 := by
  have hb := rounded_bounds m k acc
  have hlo := le_div_of_log2 hk
  have hhi := div_lt_of_log2 hk
  by_cases hlt : rounded m k acc < 2 ^ 53
  · have hlog : (rounded m k acc).log2 = 52 + 0 :=
      (Nat.log2_eq_iff (by omega)).mpr ⟨by omega, by omega⟩
    have hpos : 0 < rounded m k acc := by omega
    refine ⟨rounded m k acc, 0, hpos, ?_, by omega, hlt, Nat.mul_one _, by omega⟩
    have hf := shiftToTargetExponent_eq hlog (e := e + k) (by omega) .exact
    exact roundWithAccuracy_of_shift (shiftToTargetExponent_eq hk he acc) hf hpos
  · have htop : rounded m k acc = 2 ^ 53 := by omega
    have hlog : (rounded m k acc).log2 = 52 + 1 := by
      rw [htop]
      exact Nat.log2_two_pow
    have hf : (ExtendedMantissa.ofMantissaAndAccuracy (rounded m k acc) .exact >>> 1).mantissa =
        2 ^ 52 := by
      rw [mantissa_shift, htop]
      rfl
    refine ⟨2 ^ 52, 1, by decide, ?_, by omega, by omega, by omega, by omega⟩
    have hg := shiftToTargetExponent_eq hlog (e := e + k) (by omega) .exact
    rw [roundWithAccuracy_of_shift (shiftToTargetExponent_eq hk he acc) hg (by rw [hf]; decide)]
    simp only [hf]

end Round

section Pack

variable {m : ℕ} {e : ℤ}

theorem toNat_unpackMantissa (b : BitVec 64) :
    (@UnpackedFloat.unpackMantissa .binary64 b).toNat = b.toNat % 2 ^ 52 := by
  rw [UnpackedFloat.unpackMantissa, BitVec.toNat_cast, BitVec.extractLsb_toNat, Nat.shiftRight_zero]
  rfl

theorem toNat_unpackExponent (b : BitVec 64) :
    (@UnpackedFloat.unpackExponent .binary64 b).toNat = b.toNat / 2 ^ 52 % 2048 := by
  rw [UnpackedFloat.unpackExponent, BitVec.toNat_cast, BitVec.extractLsb_toNat,
    Nat.shiftRight_eq_div_pow]
  rfl

theorem toNat_unpackSign (b : BitVec 64) :
    (@UnpackedFloat.unpackSign .binary64 b).toNat = b.toNat / 2 ^ 63 % 2 := by
  rw [UnpackedFloat.unpackSign, BitVec.toNat_cast, BitVec.extractLsb_toNat,
    Nat.shiftRight_eq_div_pow]
  rfl

def shapeOf : UnpackedFloat → Shape
  | .notANumber => .notANumber
  | .infinity s => .infinite (s == .negative)
  | .zero s => .finite (s == .negative) ⟨0, 0⟩
  | .finite s m e _ => .finite (s == .negative) ⟨m, (e + 1074).toNat⟩

theorem sign_ofBitVec (b : BitVec 1) :
    (Sign.ofBitVec b == .negative) = decide (b.toNat = 1) := by
  revert b
  decide

theorem toNat_one_append (b : BitVec 52) : (1#1 ++ b).toNat = 2 ^ 52 + b.toNat := by
  rw [BitVec.toNat_append, Nat.shiftLeft_eq, Nat.mul_comm]
  exact (Nat.two_pow_add_eq_or_of_lt b.isLt 1).symm

theorem ofBits_eq (b : BitVec 64) :
    Shape.ofBits b.toNat = shapeOf (UnpackedFloat.unpack .binary64 b) := by
  have hE : (@UnpackedFloat.unpackExponent .binary64 b).toNat = 2047 ↔
      @UnpackedFloat.unpackExponent .binary64 b = -1#11 := BitVec.toNat_inj (y := -1#11)
  have hE' : (@UnpackedFloat.unpackExponent .binary64 b).toNat = 0 ↔
      @UnpackedFloat.unpackExponent .binary64 b = 0#11 := BitVec.toNat_inj (y := 0#11)
  have hM : (@UnpackedFloat.unpackMantissa .binary64 b).toNat = 0 ↔
      @UnpackedFloat.unpackMantissa .binary64 b = 0#52 := BitVec.toNat_inj (y := 0#52)
  rw [Shape.ofBits, UnpackedFloat.unpack]
  simp only [Magnitude.leadingBit, Nat.pow_eq, ← toNat_unpackMantissa, ← toNat_unpackExponent,
    ← toNat_unpackSign]
  rw [← sign_ofBitVec]
  by_cases h : @UnpackedFloat.unpackExponent .binary64 b = -1#11
  · rw [if_pos h, if_pos (hE.mpr h)]
    by_cases hz : @UnpackedFloat.unpackMantissa .binary64 b = 0#52
    · rw [if_pos hz, if_pos (hM.mpr hz)]
      rfl
    · rw [if_neg hz, if_neg (mt hM.mp hz)]
      rfl
  · rw [if_neg h, if_neg (mt hE.mp h)]
    by_cases h' : @UnpackedFloat.unpackExponent .binary64 b = 0#11
    · rw [if_pos h', if_pos (hE'.mpr h'), h']
      by_cases hz : @UnpackedFloat.unpackMantissa .binary64 b = 0#52
      · rw [dif_pos hz, hz]
        rfl
      · rw [dif_neg hz]
        rfl
    · rw [if_neg h', if_neg (mt hE'.mp h'), shapeOf]
      have hm := toNat_one_append (@UnpackedFloat.unpackMantissa .binary64 b)
      rw [← hm]
      have hbias : (Format.binary64.exponentBias : ℤ) = 1023 := rfl
      have := mt hE'.mp h'
      congr
      rw [hbias]
      omega

theorem shape_eq (x : Float) : shape x = shapeOf x.toModel.unpack := ofBits_eq _

theorem unpackSign_packComponents (s : Sign) (E : BitVec 11) (M : BitVec 52) :
    UnpackedFloat.unpackSign (UnpackedFloat.packComponents .binary64 s E M) = s.toBitVec := by
  apply BitVec.eq_of_toNat_eq
  have hE := E.isLt
  have hM := M.isLt
  have hn : (UnpackedFloat.packComponents .binary64 s E M).toNat =
      s.toBitVec.toNat * 2 ^ 63 + E.toNat * 2 ^ 52 + M.toNat := by
    rw [UnpackedFloat.packComponents, BitVec.toNat_append, BitVec.toNat_append,
      ← Nat.shiftLeft_add_eq_or_of_lt hM, ← Nat.shiftLeft_add_eq_or_of_lt hE,
      Nat.shiftLeft_eq, Nat.shiftLeft_eq]
    ring
  rw [toNat_unpackSign, hn]
  cases s with
  | positive =>
    change (0 * 2 ^ 63 + E.toNat * 2 ^ 52 + M.toNat) / 2 ^ 63 % 2 = 0
    omega
  | negative =>
    change (1 * 2 ^ 63 + E.toNat * 2 ^ 52 + M.toNat) / 2 ^ 63 % 2 = 1
    omega

theorem pack_eq (hm : 2 ^ 52 ≤ m) (hm' : m < 2 ^ 53) (he : e ≤ 971) (s : Sign) (h : 0 < m) :
    UnpackedFloat.pack .binary64 (.finite s m e h) =
      UnpackedFloat.packComponents .binary64 s (BitVec.ofNat 11 (e + 1075).toNat)
        (BitVec.ofNat 52 m) := by
  have hlog : m.log2 = 52 := (Nat.log2_eq_iff (by omega)).mpr ⟨hm, hm'⟩
  have hb : (e + Format.binary64.exponentBias + (52 : ℕ)).toNat = (e + 1075).toNat := by
    have hbias : (Format.binary64.exponentBias : ℤ) = 1023 := rfl
    rw [hbias]
    omega
  have hfit : ¬ 2 ^ 11 ≤ (e + 1075).toNat + 1 := by omega
  rw [UnpackedFloat.pack]
  simp only
  rw [hb, if_neg, if_pos]
  · rw [hlog]
    rfl
  · exact hfit

theorem unpack_pack (hm : 2 ^ 52 ≤ m) (hm' : m < 2 ^ 53) (he : -1074 ≤ e) (he' : e ≤ 971)
    (s : Sign) (h : 0 < m) :
    (Float.Model.pack (.finite s m e h)).unpack = .finite s m e h := by
  have hbias : (Format.binary64.exponentBias : ℤ) = 1023 := rfl
  change UnpackedFloat.unpack .binary64 (UnpackedFloat.pack .binary64 (.finite s m e h)) = _
  have hE : (BitVec.ofNat 11 (e + 1075).toNat).toNat = (e + 1075).toNat := by
    rw [BitVec.toNat_ofNat]
    exact Nat.mod_eq_of_lt (by omega)
  have hM : (1#1 ++ BitVec.ofNat 52 m).toNat = m := by
    rw [toNat_one_append, BitVec.toNat_ofNat]
    omega
  have hs : Sign.ofBitVec s.toBitVec = s := by
    cases s <;> rfl
  rw [pack_eq hm hm' he' s h, UnpackedFloat.unpack]
  simp only [UnpackedFloat.unpackExponent_packComponents,
    UnpackedFloat.unpackMantissa_packComponents, unpackSign_packComponents, hs]
  have hzero : BitVec.ofNat 11 (e + 1075).toNat ≠ 0#11 := by
    intro hz
    have hn : (e + 1075).toNat = 0 := hE.symm.trans (congrArg BitVec.toNat hz)
    omega
  have hones : BitVec.ofNat 11 (e + 1075).toNat ≠ -1#11 := by
    intro hz
    have hn : (e + 1075).toNat = 2047 := hE.symm.trans (congrArg BitVec.toNat hz)
    omega
  rw [if_neg hones, if_neg hzero]
  congr
  rw [hE, hbias]
  omega

end Pack

end Headway.Binary64
