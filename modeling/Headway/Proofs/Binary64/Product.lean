import Headway.Proofs.Binary64.Order
import Headway.Proofs.Binary64.Quotient

namespace Headway.Rounding

variable {a b c : ℕ}

theorem roundDiv_mono (d : ℕ) (h : a ≤ b) : roundDiv a d ≤ roundDiv b d := by
  have hq : a / d ≤ b / d := Nat.div_le_div_right h
  rcases Nat.eq_or_lt_of_le hq with he | hl
  · have hr : a % d ≤ b % d := by
      have ha := Nat.div_add_mod a d
      have hb := Nat.div_add_mod b d
      rw [he] at ha
      omega
    simp only [roundDiv, he]
    split
    · split <;> omega
    · split <;> omega
  · simp only [roundDiv]
    split
    · split <;> omega
    · split <;> omega

theorem roundDiv_one (n : ℕ) : roundDiv n 1 = n := by
  have h := roundDiv_mul n Nat.one_pos
  rwa [Nat.mul_one] at h

theorem roundDiv_mul_mul (a d : ℕ) (hc : 0 < c) : roundDiv (a * c) (d * c) = roundDiv a d := by
  have hlt : 2 * (a % d * c) < d * c ↔ 2 * (a % d) < d := by
    rw [← Nat.mul_assoc]
    exact Nat.mul_lt_mul_right hc
  have heq : 2 * (a % d * c) = d * c ↔ 2 * (a % d) = d := by
    rw [← Nat.mul_assoc]
    exact Nat.mul_left_inj hc.ne'
  simp only [roundDiv, Nat.mul_div_mul_right _ _ hc, Nat.mul_mod_mul_right, hlt, heq]

def nearest (n : ℕ) : ℕ := roundDiv n (2 ^ (n.log2 - 52)) * 2 ^ (n.log2 - 52)

theorem nearest_le (n : ℕ) : nearest n ≤ 2 ^ (n.log2 + 1) := by
  have hn : n ≤ 2 ^ (n.log2 + 1) := Nat.le_of_lt Nat.lt_log2_self
  have hp : 2 ^ (n.log2 + 1) = 2 ^ (n.log2 + 1 - (n.log2 - 52)) * 2 ^ (n.log2 - 52) := by
    rw [← Nat.pow_add]
    congr 1
    omega
  rw [hp] at hn
  have hr := roundDiv_mono (2 ^ (n.log2 - 52)) hn
  rw [roundDiv_mul _ (Nat.two_pow_pos _)] at hr
  rw [nearest, hp]
  exact Nat.mul_le_mul_right _ hr

theorem le_nearest {n : ℕ} (h : n ≠ 0) : 2 ^ n.log2 ≤ nearest n := by
  have hn := Nat.log2_self_le h
  have hp : 2 ^ n.log2 = 2 ^ (n.log2 - (n.log2 - 52)) * 2 ^ (n.log2 - 52) := by
    rw [← Nat.pow_add]
    congr 1
    omega
  rw [hp] at hn
  have hr := roundDiv_mono (2 ^ (n.log2 - 52)) hn
  rw [roundDiv_mul _ (Nat.two_pow_pos _)] at hr
  rw [nearest, hp]
  exact Nat.mul_le_mul_right _ hr

theorem nearest_mono (h : a ≤ b) : nearest a ≤ nearest b := by
  by_cases hz : a = 0
  · have hn : nearest 0 = 0 := by decide
    rw [hz, hn]
    exact Nat.zero_le _
  · have hl : a.log2 ≤ b.log2 :=
      (Nat.le_log2 (by omega)).mpr (Nat.le_trans (Nat.log2_self_le hz) h)
    rcases Nat.eq_or_lt_of_le hl with he | hl
    · rw [nearest, nearest, he]
      exact Nat.mul_le_mul_right _ (roundDiv_mono _ h)
    · -- Between numbers of different lengths lies a power of two.
      calc nearest a ≤ 2 ^ (a.log2 + 1) := nearest_le a
        _ ≤ 2 ^ b.log2 := Nat.pow_le_pow_right (by omega) hl
        _ ≤ nearest b := le_nearest (by omega)

theorem nearest_of_lt {n : ℕ} (h : n < 2 ^ 53) : nearest n = n := by
  have hl : n.log2 - 52 = 0 := by
    by_cases hz : n = 0
    · rw [hz]
      rfl
    · have := (Nat.log2_lt hz).mpr h
      omega
  rw [nearest, hl, Nat.pow_zero, roundDiv_one, Nat.mul_one]

end Headway.Rounding

namespace Headway.Binary64

open Float.Model (UnpackedFloat Format)
open Float.Model.UnpackedFloat (Accuracy ExtendedMantissa Sign)

section Exact

variable (m k : ℕ)

theorem stickyBit_rounded :
    (ExtendedMantissa.ofMantissaAndAccuracy m .exact >>> (k + 1)).stickyBit =
      (m % 2 ^ k != 0) := by
  induction k with
  | zero =>
    rw [Nat.pow_zero, Nat.mod_one]
    rfl
  | succ k ih =>
    change ((ExtendedMantissa.ofMantissaAndAccuracy m .exact >>> (k + 1)).roundBit ||
      (ExtendedMantissa.ofMantissaAndAccuracy m .exact >>> (k + 1)).stickyBit) = _
    have hp := Nat.two_pow_pos k
    rw [ih, roundBit_rounded, Nat.mod_pow_succ]
    rcases Nat.mod_two_eq_zero_or_one (m / 2 ^ k) with h | h
    · simp [h]
    · simp [h]

theorem rounded_exact : rounded m k .exact = Rounding.roundDiv m (2 ^ k) := by
  -- The two bits that are kept of those shifted out tell which way is nearest.
  cases k with
  | zero =>
    rw [Nat.pow_zero, Rounding.roundDiv_one]
    rfl
  | succ k =>
    have hm := mantissa_rounded m (k + 1) .exact
    have hb := roundBit_rounded m k .exact
    have hs := stickyBit_rounded m k
    have hr : m % 2 ^ (k + 1) = m % 2 ^ k + 2 ^ k * (m / 2 ^ k % 2) := Nat.mod_pow_succ
    have hlt := Nat.mod_lt m (Nat.two_pow_pos k)
    have hp : 2 ^ (k + 1) = 2 * 2 ^ k := Nat.pow_succ'
    rw [rounded]
    generalize ExtendedMantissa.ofMantissaAndAccuracy m .exact >>> (k + 1) = em at hm hb hs ⊢
    obtain ⟨q, up, rest⟩ := em
    simp only [Rounding.roundDiv, ← hm, hr]
    cases up with
    | false =>
      have hbit : m / 2 ^ k % 2 = 0 := by simpa using hb
      rw [hbit, if_pos (by omega)]
      cases rest <;> rfl
    | true =>
      have hbit : m / 2 ^ k % 2 = 1 := by simpa using hb
      rw [hbit]
      cases rest with
      | false =>
        have hrest : m % 2 ^ k = 0 := by simpa using hs
        change q + q % 2 = _
        split
        · omega
        · omega
      | true =>
        have hrest : m % 2 ^ k ≠ 0 := by simpa using hs
        rw [if_neg (by omega)]
        rfl

end Exact

section Subnormal

variable {m : ℕ}

theorem unpack_pack_of_lt (hm : m < 2 ^ 52) (s : Sign) (h : 0 < m) :
    (Float.Model.pack (.finite s m (-1074) h)).unpack = .finite s m (-1074) h := by
  have hlog : m.log2 < 52 := (Nat.log2_lt h.ne').mpr hm
  have hM : (BitVec.ofNat 52 m).toNat = m := by
    rw [BitVec.toNat_ofNat]
    exact Nat.mod_eq_of_lt hm
  have hzero : BitVec.ofNat 52 m ≠ 0#52 := by
    intro hz
    have hn : m = 0 := hM.symm.trans (congrArg BitVec.toNat hz)
    omega
  have hs : Sign.ofBitVec s.toBitVec = s := by
    cases s <;> rfl
  have hp : UnpackedFloat.pack .binary64 (.finite s m (-1074) h) =
      UnpackedFloat.packComponents .binary64 s 0#11 (BitVec.ofNat 52 m) := by
    rw [UnpackedFloat.pack]
    simp only
    rw [if_neg (by decide), if_neg]
    change m.log2 + 1 ≠ 53
    omega
  change UnpackedFloat.unpack .binary64 (UnpackedFloat.pack .binary64 (.finite s m (-1074) h)) = _
  rw [hp, UnpackedFloat.unpack]
  simp only [UnpackedFloat.unpackExponent_packComponents,
    UnpackedFloat.unpackMantissa_packComponents, unpackSign_packComponents, hs]
  rw [if_neg (by decide), if_pos trivial, dif_neg hzero]
  congr

theorem shiftToTargetExponent_of_lt (hm : m ≠ 0) (hm' : m < 2 ^ 52) (k : ℕ) :
    UnpackedFloat.shiftToTargetExponent .binary64 (m * 2 ^ k) (-1074 - k) .exact =
      (ExtendedMantissa.ofMantissaAndAccuracy (m * 2 ^ k) .exact >>> k, -1074) := by
  have hlog : m.log2 < 52 := (Nat.log2_lt hm).mpr hm'
  have ht : Format.targetExponent .binary64 (Float.Model.totalExponent (m * 2 ^ k) (-1074 - k)) =
      -1074 := by
    rw [targetExponent_eq, Float.Model.totalExponent, log2_mul_two_pow hm rfl]
    push_cast
    omega
  have hs : ((-1074 : ℤ) - (-1074 - k)).toNat = k := by omega
  rw [UnpackedFloat.shiftToTargetExponent, ht, UnpackedFloat.shiftToExponent, hs]
  congr
  omega

theorem roundWithAccuracy_of_lt (hm : 0 < m) (hm' : m < 2 ^ 52) (k : ℕ) (s : Sign) :
    UnpackedFloat.roundWithAccuracy .binary64 s (m * 2 ^ k) (-1074 - k) .exact =
      .finite s m (-1074) hm := by
  have hr : (ExtendedMantissa.ofMantissaAndAccuracy (m * 2 ^ k) .exact >>> k).roundedMantissa =
      m := by
    rw [← rounded, rounded_exact, Rounding.roundDiv_mul _ (Nat.two_pow_pos k)]
  have hfirst := shiftToTargetExponent_of_lt hm.ne' hm' k
  have hsecond : UnpackedFloat.shiftToTargetExponent .binary64 m (-1074) .exact =
      (⟨m, false, false⟩, -1074) := by
    have h := shiftToTargetExponent_of_lt hm.ne' hm' 0
    rw [Nat.pow_zero, Nat.mul_one, Int.natCast_zero, Int.sub_zero] at h
    exact h
  rw [UnpackedFloat.roundWithAccuracy, hfirst]
  simp only [hr, hsecond]
  exact dif_neg hm.ne'

end Subnormal

structure Above (x : Float) (m : ℕ) (e : ℤ) : Prop where
  pos : 0 < m
  unpack : x.toModel.unpack = .finite .positive m e pos
  upper : m < 2 ^ 53
  least : -1074 ≤ e
  lower : 2 ^ 52 ≤ m ∨ e = -1074

def units (m : ℕ) (e : ℤ) : ℕ := m * 2 ^ (e + 1074).toNat

variable {x y : Float} {m n : ℕ} {e f : ℤ}

theorem Full.above (h : Full x m e) (he : -1074 ≤ e) : Above x m e :=
  ⟨h.pos, h.unpack, h.upper, he, .inl h.lower⟩

theorem above_of_unpack {h : 0 < m} (hx : x.toModel.unpack = .finite .positive m e h) :
    Above x m e := by
  have hu : UnpackedFloat.unpack .binary64 x.toModel.toBits.toBitVec = .finite .positive m e h := hx
  generalize x.toModel.toBits.toBitVec = b at hu
  have hM := (@UnpackedFloat.unpackMantissa .binary64 b).isLt
  change _ < 2 ^ 52 at hM
  rw [UnpackedFloat.unpack] at hu
  split at hu
  · split at hu
    · cases hu
    · cases hu
  · split at hu
    next hz =>
      split at hu
      · cases hu
      · obtain ⟨-, hm, he⟩ := UnpackedFloat.finite.inj hu
        rw [hz] at he
        change (0 : ℤ) - (1023 + 52) + 1 = e at he
        exact ⟨h, hx, by omega, by omega, .inr (by omega)⟩
    next hz =>
      obtain ⟨-, hm, he⟩ := UnpackedFloat.finite.inj hu
      have hlo := toNat_one_append (@UnpackedFloat.unpackMantissa .binary64 b)
      have hE : (@UnpackedFloat.unpackExponent .binary64 b).toNat ≠ 0 :=
        fun h => hz (BitVec.eq_of_toNat_eq h)
      change _ - ((1023 : ℤ) + 52) = e at he
      change (1#1 ++ @UnpackedFloat.unpackMantissa .binary64 b).toNat = m at hm
      exact ⟨h, hx, by omega, by omega, .inl (by omega)⟩

theorem mul_two_pow_lt {j k : ℕ} (hm : m < 2 ^ 53) (hn : 2 ^ 52 ≤ n) (h : j < k) :
    m * 2 ^ j < n * 2 ^ k := by
  calc m * 2 ^ j < 2 * n * 2 ^ j := Nat.mul_lt_mul_of_pos_right (by omega) (Nat.two_pow_pos j)
    _ = n * 2 ^ (j + 1) := by ring
    _ ≤ n * 2 ^ k := Nat.mul_le_mul_left n (Nat.pow_le_pow_right (by omega) h)

theorem Above.units_lt (hx : Above x m e) (hy : Above y n f) (h : e < f) :
    units m e < units n f := by
  have he := hx.least
  exact mul_two_pow_lt hx.upper (hy.lower.resolve_right (by omega)) (by omega)

theorem Above.isNaN (h : Above x m e) : x.isNaN = false := by
  change x.toModel.unpack.isNaN = false
  rw [h.unpack]
  rfl

theorem Above.place_eq (h : Above x m e) : place x = toLex (1, toLex (e, (m : ℤ))) := by
  rw [place, h.unpack]
  rfl

theorem Above.le_iff (hx : Above x m e) (hy : Above y n f) :
    x ≤ y ↔ units m e ≤ units n f := by
  have hplace : place x ≤ place y ↔ e < f ∨ e = f ∧ m ≤ n := by
    rw [hx.place_eq, hy.place_eq]
    simp [Prod.Lex.toLex_le_toLex]
  rw [Binary64.le_iff, hplace]
  simp only [hx.isNaN, hy.isNaN, true_and]
  rcases Int.lt_trichotomy e f with h | rfl | h
  · have hu := hx.units_lt hy h
    simp [h, hu.le]
  · simp [units]
  · have hu := hy.units_lt hx h
    simp [h.ne', h.not_gt, hu.not_ge]

section Hundred

theorem zero_or_above (hx : 0.0 ≤ x) (hx' : x ≤ 1.0) :
    (∃ s, x.toModel.unpack = .zero s) ∨ ∃ m e, Above x m e ∧ e ≤ -52 := by
  obtain ⟨-, hnan, hlo⟩ := Binary64.le_iff.mp hx
  obtain ⟨-, -, hhi⟩ := Binary64.le_iff.mp hx'
  have hzero : place 0.0 = toLex (0, toLex (0, 0)) := rfl
  have hone : place 1.0 = toLex (1, toLex (-52, 4503599627370496)) := by rfl
  change x.toModel.unpack.isNaN = false at hnan
  rw [hzero, place] at hlo
  rw [hone, place] at hhi
  cases hu : x.toModel.unpack with
  | notANumber =>
    rw [hu] at hnan
    cases hnan
  | infinity s =>
    rw [hu] at hlo hhi
    cases s <;> simp [unpackedPlace, Prod.Lex.toLex_le_toLex] at hlo hhi
  | zero s => exact .inl ⟨s, rfl⟩
  | finite s m e h =>
    rw [hu] at hlo hhi
    cases s with
    | negative => simp [unpackedPlace, Prod.Lex.toLex_le_toLex] at hlo
    | positive =>
      refine .inr ⟨m, e, above_of_unpack hu, ?_⟩
      simp only [unpackedPlace, Prod.Lex.toLex_le_toLex] at hhi
      omega

theorem unpack_hundred : (100.0 : Float).toModel.unpack =
    .finite .positive (100 * 2 ^ 46) (-46) (by decide) := by rfl

theorem unpack_hundred_mul_zero {s : Sign} (hx : x.toModel.unpack = .zero s) :
    ∃ s, (100.0 * x).toModel.unpack = .zero s := by
  change ∃ s, (Float.Model.pack (UnpackedFloat.mul .binary64 (100.0 : Float).toModel.unpack
    x.toModel.unpack)).unpack = .zero s
  rw [unpack_hundred, hx]
  cases s with
  | positive => exact ⟨.positive, rfl⟩
  | negative => exact ⟨.negative, rfl⟩

theorem hundred_mul_eq (hx : Above x m e) :
    (100.0 * x).toModel = .pack (UnpackedFloat.roundWithAccuracy .binary64 .positive
      (100 * m * 2 ^ 46) (-46 + e) .exact) := by
  change Float.Model.pack (UnpackedFloat.mul .binary64 (100.0 : Float).toModel.unpack
    x.toModel.unpack) = _
  rw [unpack_hundred, hx.unpack, show 100 * m * 2 ^ 46 = 100 * 2 ^ 46 * m by omega]
  rfl

theorem above_hundred_mul (hx : Above x m e) (he : e ≤ -52) :
    ∃ n g, Above (100.0 * x) n g ∧ units n g = Rounding.nearest (100 * units m e) := by
  have hpos := hx.pos
  have hm := hx.upper
  have hleast := hx.least
  have hmul := hundred_mul_eq hx
  by_cases hlt : 100 * m < 2 ^ 52
  · obtain rfl : e = -1074 := hx.lower.resolve_left (by omega)
    rw [show (-46 + -1074 : ℤ) = -1074 - (46 : ℕ) by rfl,
      roundWithAccuracy_of_lt (by omega) hlt 46] at hmul
    have hu : (100.0 * x).toModel.unpack = .finite .positive (100 * m) (-1074) (by omega) := by
      rw [hmul]
      exact unpack_pack_of_lt hlt _ _
    refine ⟨100 * m, -1074, above_of_unpack hu, ?_⟩
    have hone : ((-1074 : ℤ) + 1074).toNat = 0 := rfl
    rw [units, units, hone, Nat.pow_zero, Nat.mul_one, Nat.mul_one,
      Rounding.nearest_of_lt (by omega)]
  · have hne : 100 * m ≠ 0 := by omega
    obtain ⟨d, hd⟩ : ∃ d, (100 * m).log2 = 52 + d := by
      have hl : 52 ≤ (100 * m).log2 := (Nat.le_log2 hne).mpr (by omega)
      exact ⟨(100 * m).log2 - 52, by omega⟩
    have hd' : 52 + d < 60 := by
      rw [← hd]
      exact (Nat.log2_lt hne).mpr (by omega)
    have hk : (100 * m * 2 ^ 46).log2 = 52 + (d + 46) := log2_mul_two_pow hne (by omega)
    obtain ⟨n, j, hfull, hn, hj⟩ := full_of_round hk (by omega) (by omega) .exact hmul
    refine ⟨n, _, hfull.above (by omega), ?_⟩
    rw [rounded_exact, Nat.pow_add, Rounding.roundDiv_mul_mul _ _ (by decide)] at hn
    have hl : (100 * units m e).log2 - 52 = d + (e + 1074).toNat := by
      rw [units, ← Nat.mul_assoc, log2_mul_two_pow hne rfl]
      omega
    have hg : (-46 + e + ((d + 46 : ℕ) : ℤ) + (j : ℕ) + 1074).toNat =
        j + (d + (e + 1074).toNat) := by omega
    rw [Rounding.nearest, hl, units, hg, Nat.pow_add 2 j, ← Nat.mul_assoc, hn]
    congr 1
    rw [units, ← Nat.mul_assoc, Nat.pow_add, Rounding.roundDiv_mul_mul _ _ (Nat.two_pow_pos _)]

theorem le_zero_of_zero {s : Sign} (hx : x.toModel.unpack = .zero s) : 0.0 ≤ x ∧ x ≤ 0.0 := by
  have hz : (0.0 : Float).isNaN = false := rfl
  have hn : x.isNaN = false := by
    change x.toModel.unpack.isNaN = false
    rw [hx]
    rfl
  have hp : place x = place 0.0 := by
    rw [place, hx]
    rfl
  exact ⟨Binary64.le_iff.mpr ⟨hz, hn, hp.ge⟩, Binary64.le_iff.mpr ⟨hn, hz, hp.le⟩⟩

theorem Above.zero_lt (h : Above x m e) : 0.0 < x := by
  have hp : place 0.0 < place x := by
    rw [h.place_eq]
    change toLex (0, toLex (0, 0)) < _
    simp [Prod.Lex.toLex_lt_toLex]
  exact Binary64.lt_iff.mpr ⟨rfl, h.isNaN, hp⟩

theorem hundred_mul_le_hundred_mul (hx : 0.0 ≤ x) (hxy : x ≤ y) (hy : y ≤ 1.0) :
    100.0 * x ≤ 100.0 * y := by
  rcases zero_or_above hx (le_trans hxy hy) with ⟨s, hs⟩ | ⟨m, e, hm, he⟩
  · obtain ⟨s', hzero⟩ := unpack_hundred_mul_zero hs
    apply le_trans (le_zero_of_zero hzero).2
    rcases zero_or_above (le_trans hx hxy) hy with ⟨t, ht⟩ | ⟨n, f, hn, hf⟩
    · obtain ⟨t', ht'⟩ := unpack_hundred_mul_zero ht
      exact (le_zero_of_zero ht').1
    · obtain ⟨n', f', hn', -⟩ := above_hundred_mul hn hf
      exact le_of_lt hn'.zero_lt
  · rcases zero_or_above (le_trans hx hxy) hy with ⟨t, ht⟩ | ⟨n, f, hn, hf⟩
    · exact absurd hm.zero_lt (not_lt_of_le (le_trans hxy (le_zero_of_zero ht).2))
    · obtain ⟨m', e', hm', hx'⟩ := above_hundred_mul hm he
      obtain ⟨n', f', hn', hy'⟩ := above_hundred_mul hn hf
      rw [hm'.le_iff hn', hx', hy']
      exact Rounding.nearest_mono (Nat.mul_le_mul_left 100 ((hm.le_iff hn).mp hxy))

theorem hundred_mul_mem (hx : 0.0 ≤ x) (hx' : x ≤ 1.0) :
    0.0 ≤ 100.0 * x ∧ 100.0 * x ≤ 100.0 := by
  have hzero : (100.0 : Float) * 0.0 = 0.0 := by decide
  have hone : (100.0 : Float) * 1.0 = 100.0 := by decide
  constructor
  · rw [← hzero]
    exact hundred_mul_le_hundred_mul (le_refl rfl) hx hx'
  · rw [← hone]
    exact hundred_mul_le_hundred_mul hx hx' (le_refl rfl)

end Hundred

end Headway.Binary64
