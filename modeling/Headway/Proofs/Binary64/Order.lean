import Mathlib
import Headway.Binary64

namespace Headway.Binary64

open Float.Model (UnpackedFloat)

section Unpacked

theorem isNaN_notANumber : UnpackedFloat.notANumber.isNaN = true := rfl

theorem isNaN_infinity (s : UnpackedFloat.Sign) : (UnpackedFloat.infinity s).isNaN = false := rfl

theorem isNaN_zero (s : UnpackedFloat.Sign) : (UnpackedFloat.zero s).isNaN = false := rfl

theorem isNaN_finite (s : UnpackedFloat.Sign) (m : Nat) (e : Int) (h : 0 < m) :
    (UnpackedFloat.finite s m e h).isNaN = false := rfl

def unpackedPlace : UnpackedFloat → ℤ ×ₗ ℤ ×ₗ ℤ
  | .infinity .negative => toLex (-2, toLex (0, 0))
  | .finite .negative m e _ => toLex (-1, toLex (-e, -(m : ℤ)))
  | .zero _ | .notANumber => toLex (0, toLex (0, 0))
  | .finite .positive m e _ => toLex (1, toLex (e, (m : ℤ)))
  | .infinity .positive => toLex (2, toLex (0, 0))

theorem unpacked_lt_iff (a b : UnpackedFloat) :
    a.compare b = some .lt ↔
      a.isNaN = false ∧ b.isNaN = false ∧ unpackedPlace a < unpackedPlace b := by
  rcases a with (_ | _) | _ | _ | ⟨_ | _, m, e, hm⟩ <;>
    rcases b with (_ | _) | _ | _ | ⟨_ | _, n, f, hn⟩ <;>
    simp [UnpackedFloat.compare, isNaN_notANumber, isNaN_infinity, isNaN_zero, isNaN_finite,
      unpackedPlace, Prod.Lex.toLex_lt_toLex, Int.compare_eq_lt, Int.compare_eq_gt,
      Nat.compare_eq_lt, Nat.compare_eq_gt, Ordering.then_eq_lt, Ordering.then_eq_gt]
  rfl

theorem unpacked_eq_iff (a b : UnpackedFloat) :
    a.compare b = some .eq ↔
      a.isNaN = false ∧ b.isNaN = false ∧ unpackedPlace a = unpackedPlace b := by
  rcases a with (_ | _) | _ | _ | ⟨_ | _, m, e, hm⟩ <;>
    rcases b with (_ | _) | _ | _ | ⟨_ | _, n, f, hn⟩ <;>
    simp [UnpackedFloat.compare, isNaN_notANumber, isNaN_infinity, isNaN_zero, isNaN_finite,
      unpackedPlace, Ordering.then_eq_eq]
  all_goals rfl

end Unpacked

def place (x : Float) : ℤ ×ₗ ℤ ×ₗ ℤ := unpackedPlace x.toModel.unpack

variable {x y z : Float}

theorem lt_iff : x < y ↔ x.isNaN = false ∧ y.isNaN = false ∧ place x < place y := by
  rw [show x < y ↔ x.toModel.unpack.lt y.toModel.unpack = true from decide_eq_true_iff]
  rw [UnpackedFloat.lt, beq_iff_eq]
  exact unpacked_lt_iff _ _

theorem le_iff : x ≤ y ↔ x.isNaN = false ∧ y.isNaN = false ∧ place x ≤ place y := by
  have h : x ≤ y ↔ x.toModel.unpack.compare y.toModel.unpack = some .lt ∨
      x.toModel.unpack.compare y.toModel.unpack = some .eq := by
    rw [show x ≤ y ↔ x.toModel.unpack.le y.toModel.unpack = true from decide_eq_true_iff]
    rw [UnpackedFloat.le]
    cases x.toModel.unpack.compare y.toModel.unpack with
    | none => simp
    | some o => cases o <;> simp
  rw [h, unpacked_lt_iff, unpacked_eq_iff, ← and_or_left, ← and_or_left, le_iff_lt_or_eq]
  rfl

theorem le_refl (h : x.isNaN = false) : x ≤ x := le_iff.mpr ⟨h, h, le_rfl⟩

theorem le_refl_of_le (h : x ≤ y) : y ≤ y := le_refl (le_iff.mp h).2.1

theorem le_trans (hxy : x ≤ y) (hyz : y ≤ z) : x ≤ z := by
  obtain ⟨hx, _, hxy⟩ := le_iff.mp hxy
  obtain ⟨_, hz, hyz⟩ := le_iff.mp hyz
  exact le_iff.mpr ⟨hx, hz, hxy.trans hyz⟩

theorem le_of_lt (h : x < y) : x ≤ y := by
  obtain ⟨hx, hy, h⟩ := lt_iff.mp h
  exact le_iff.mpr ⟨hx, hy, h.le⟩

theorem le_of_not_lt (hx : x.isNaN = false) (hy : y.isNaN = false) (h : ¬ x < y) : y ≤ x := by
  refine le_iff.mpr ⟨hy, hx, not_lt.mp fun hp => h ?_⟩
  exact lt_iff.mpr ⟨hx, hy, hp⟩

theorem not_lt_of_le (h : x ≤ y) : ¬ y < x := by
  intro hl
  exact not_le_of_gt (lt_iff.mp hl).2.2 (le_iff.mp h).2.2

theorem unpacked_zero_mul (a : UnpackedFloat) :
    UnpackedFloat.mul .binary64 (.zero .positive) a = .notANumber ∨
      ∃ s, UnpackedFloat.mul .binary64 (.zero .positive) a = .zero s := by
  cases a <;> simp [UnpackedFloat.mul]

theorem toUInt64_zero_mul (x : Float) : (0.0 * x).toUInt64 = 0 := by
  have hz : (0.0 : Float).toModel.unpack = .zero .positive := by rfl
  change (Float.Model.pack (UnpackedFloat.mul .binary64 (0.0 : Float).toModel.unpack
    x.toModel.unpack)).toUInt64 = 0
  rw [hz]
  obtain h | ⟨s, h⟩ := unpacked_zero_mul x.toModel.unpack
  · rw [h]; rfl
  · rw [h]; cases s <;> rfl

end Headway.Binary64
