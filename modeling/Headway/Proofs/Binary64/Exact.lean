import Headway.Proofs.Binary64.Product

namespace Headway.Binary64

open Float.Model (UnpackedFloat)

section Shape

variable {x y : Float} {negative : Bool} {a : Magnitude}

structure Magnitude.IsDouble (a : Magnitude) : Prop where
  upper : a.mantissa < 2 ^ 53
  lower : 2 ^ 52 ≤ a.mantissa ∨ a.scale = 0
  top : a.scale ≤ 2045

theorem ofBits_eq_finite {b : ℕ} (hb : b < 2 ^ 64) (h : Shape.ofBits b = .finite negative a) :
    b = (if negative then 2 ^ 63 else 0) + a.scale * 2 ^ 52 + a.mantissa ∧ a.IsDouble := by
  -- The written mantissa and exponent add up, as the leading bit carries into the exponent.
  have hleading : Magnitude.leadingBit = 2 ^ 52 := rfl
  have hsign : Nat.pow 2 63 = 2 ^ 63 := rfl
  simp only [Shape.ofBits, hleading, hsign] at h
  split at h
  · split at h <;> cases h
  · split at h
    · obtain ⟨rfl, rfl⟩ := Shape.finite.inj h
      refine ⟨?_, ?_, .inr rfl, Nat.zero_le _⟩
      all_goals simp only [decide_eq_true_eq]
      · split <;> omega
      · omega
    · obtain ⟨rfl, rfl⟩ := Shape.finite.inj h
      refine ⟨?_, ?_, .inl (Nat.le_add_right _ _), ?_⟩
      all_goals simp only [decide_eq_true_eq]
      · split <;> omega
      · omega
      · omega

theorem isDouble_of_shape (h : shape x = .finite negative a) : a.IsDouble :=
  (ofBits_eq_finite x.toBits.toNat_lt h).2

theorem eq_of_shape (hx : shape x = .finite negative a) (hy : shape y = .finite negative a) :
    x = y := by
  have hbits : x.toBits.toNat = y.toBits.toNat := by
    rw [(ofBits_eq_finite x.toBits.toNat_lt hx).1, (ofBits_eq_finite y.toBits.toNat_lt hy).1]
  have hmodel : x.toModel.toBits = y.toModel.toBits := UInt64.toNat.inj hbits
  obtain ⟨⟨b, hb⟩⟩ := x
  obtain ⟨⟨c, hc⟩⟩ := y
  cases hmodel
  rfl

theorem isFinite_iff : x.isFinite = true ↔ ∃ negative a, shape x = .finite negative a := by
  change x.toModel.unpack.isFinite = true ↔ _
  rw [shape_eq]
  cases x.toModel.unpack <;> simp [UnpackedFloat.isFinite, shapeOf]

theorem isFinite_eq_false_iff : x.isFinite = false ↔ x.isNaN = true ∨ x.isInf = true := by
  change x.toModel.unpack.isFinite = false ↔
    x.toModel.unpack.isNaN = true ∨ x.toModel.unpack.isInf = true
  cases x.toModel.unpack <;> simp [UnpackedFloat.isFinite,
    UnpackedFloat.isNaN, UnpackedFloat.isInf]

end Shape

section Above

variable {x y : Float} {m : ℕ} {e : ℤ}

theorem Above.shape_eq (h : Above x m e) : shape x = .finite false ⟨m, (e + 1074).toNat⟩ := by
  rw [Binary64.shape_eq, h.unpack]
  rfl

theorem Above.eq (hx : Above x m e) (hy : Above y m e) : x = y :=
  eq_of_shape hx.shape_eq hy.shape_eq

theorem Above.ofModel_pack (h : Above x m e) :
    Float.ofModel (Float.Model.pack (.finite .positive m e h.pos)) = x := by
  have htop : (e + 1074).toNat ≤ 2045 := (isDouble_of_shape h.shape_eq).top
  have hleast := h.least
  have hunpack : (Float.Model.pack (.finite .positive m e h.pos)).unpack =
      .finite .positive m e h.pos := by
    by_cases hm : 2 ^ 52 ≤ m
    · exact unpack_pack hm h.upper hleast (by omega) _ _
    · obtain rfl : e = -1074 := h.lower.resolve_left hm
      exact unpack_pack_of_lt (Nat.lt_of_not_le hm) _ _
  exact (above_of_unpack hunpack).eq h

theorem unpack_zero : (0 : Float).toModel.unpack = .zero .positive := by rfl

theorem Above.sub_zero (h : Above x m e) : x - 0 = x := by
  change Float.ofModel (Float.Model.pack (UnpackedFloat.sub .binary64 x.toModel.unpack
    (0 : Float).toModel.unpack)) = x
  rw [h.unpack, unpack_zero]
  exact h.ofModel_pack

theorem Above.zero_add (h : Above x m e) : 0 + x = x := by
  change Float.ofModel (Float.Model.pack (UnpackedFloat.add .binary64 (0 : Float).toModel.unpack
    x.toModel.unpack)) = x
  rw [h.unpack, unpack_zero]
  exact h.ofModel_pack

theorem Above.add_zero (h : Above x m e) : x + 0 = x := by
  change Float.ofModel (Float.Model.pack (UnpackedFloat.add .binary64 x.toModel.unpack
    (0 : Float).toModel.unpack)) = x
  rw [h.unpack, unpack_zero]
  exact h.ofModel_pack

theorem Above.sub_self (h : Above x m e) : x - x = 0 := by
  change Float.ofModel (Float.Model.pack (UnpackedFloat.sub .binary64 x.toModel.unpack
    x.toModel.unpack)) = 0
  rw [h.unpack, UnpackedFloat.sub]
  simp only [Int.sub_self]
  rfl

theorem Above.mul_zero (h : Above x m e) : x * 0 = 0 := by
  change Float.ofModel (Float.Model.pack (UnpackedFloat.mul .binary64 x.toModel.unpack
    (0 : Float).toModel.unpack)) = 0
  rw [h.unpack, unpack_zero]
  rfl

theorem Above.zero_div (h : Above x m e) : 0 / x = 0 := by
  change Float.ofModel (Float.Model.pack (UnpackedFloat.div .binary64 (0 : Float).toModel.unpack
    x.toModel.unpack)) = 0
  rw [h.unpack, unpack_zero]
  rfl

theorem Above.ne_zero (h : Above x m e) : x ≠ 0 := by
  rintro rfl
  have hu := h.unpack
  rw [unpack_zero] at hu
  cases hu

end Above

section Ratio

def IsRatio (x : Float) : Prop := x = 0 ∨ ∃ m e, Full x m e ∧ -1000 ≤ e ∧ e ≤ 900

theorem full_toFloat_div {w v : UInt64} (hw : w ≠ 0) (hv : v ≠ 0) :
    ∃ m e, Full (w.toFloat / v.toFloat) m e ∧ -1000 ≤ e ∧ e ≤ 900 := by
  obtain ⟨m, e, hx, he, -, he'⟩ := full_toFloat_cases hw
  obtain ⟨n, f, hy, hf, -, hf'⟩ := full_toFloat_cases hv
  obtain ⟨k, hk, hk'⟩ := exists_log2_quotient hx hy
  obtain ⟨q, j, h, -, hj⟩ := full_div hx hy (by omega) (by omega) hk hk'
  exact ⟨q, _, h, by omega, by omega⟩

theorem zero_toFloat_div {v : UInt64} (hv : v ≠ 0) : (0 : UInt64).toFloat / v.toFloat = 0 := by
  obtain ⟨n, f, hy, hf, -⟩ := full_toFloat_cases hv
  exact (hy.above (by omega)).zero_div

theorem toFloat_div_eq_zero_iff {w v : UInt64} (hv : v ≠ 0) :
    w.toFloat / v.toFloat = 0 ↔ w = 0 := by
  constructor
  · intro hzero
    by_contra hw
    obtain ⟨m, e, h, he, -⟩ := full_toFloat_div hw hv
    exact (h.above (by omega)).ne_zero hzero
  · rintro rfl
    exact zero_toFloat_div hv

theorem isRatio_toFloat_div (w : UInt64) {v : UInt64} (hv : v ≠ 0) :
    IsRatio (w.toFloat / v.toFloat) := by
  by_cases hw : w = 0
  · exact .inl ((toFloat_div_eq_zero_iff hv).mpr hw)
  · exact .inr (full_toFloat_div hw hv)

namespace IsRatio

variable {x : Float} (h : IsRatio x)
include h

theorem sub_zero : x - 0 = x := by
  rcases h with rfl | ⟨m, e, h, he, -⟩
  · decide
  · exact (h.above (by omega)).sub_zero

theorem zero_add : 0 + x = x := by
  rcases h with rfl | ⟨m, e, h, he, -⟩
  · decide
  · exact (h.above (by omega)).zero_add

theorem add_zero : x + 0 = x := by
  rcases h with rfl | ⟨m, e, h, he, -⟩
  · decide
  · exact (h.above (by omega)).add_zero

theorem sub_self : x - x = 0 := by
  rcases h with rfl | ⟨m, e, h, he, -⟩
  · decide
  · exact (h.above (by omega)).sub_self

theorem mul_zero : x * 0 = 0 := by
  rcases h with rfl | ⟨m, e, h, he, -⟩
  · decide
  · exact (h.above (by omega)).mul_zero

theorem div_one : x / (1 : UInt64).toFloat = x := by
  rcases h with rfl | ⟨m, e, h, he, he'⟩
  · exact zero_toFloat_div (by decide)
  · exact ((full_div_one h he he').above (by omega)).eq (h.above (by omega))

end IsRatio

end Ratio

end Headway.Binary64
