namespace Headway.Count

def largest : Nat := 18446744073709551615

def clamp (n : Nat) : UInt64 := UInt64.ofNat (min n largest)

def addSat (a b : UInt64) : UInt64 := clamp (a.toNat + b.toNat)

def subSat (a b : UInt64) : UInt64 := clamp (a.toNat - b.toNat)

def add? (a b : UInt64) : Option UInt64 :=
  if a.toNat + b.toNat ≤ largest then some (a + b) else none

theorem toNat_clamp (n : Nat) : (clamp n).toNat = min n largest := by
  have h : min n largest < 2 ^ 64 := by simp only [largest]; omega
  simpa [clamp] using Nat.mod_eq_of_lt h

theorem toNat_le_largest (a : UInt64) : a.toNat ≤ largest := by
  have := a.toNat_lt
  simp only [largest]; omega

theorem toNat_addSat (a b : UInt64) : (addSat a b).toNat = min (a.toNat + b.toNat) largest :=
  toNat_clamp _

theorem toNat_subSat (a b : UInt64) : (subSat a b).toNat = a.toNat - b.toNat := by
  have := toNat_le_largest a
  rw [subSat, toNat_clamp]; omega

theorem toNat_pos {a : UInt64} (h : a ≠ 0) : 0 < a.toNat :=
  UInt64.lt_iff_toNat_lt.mp (UInt64.pos_iff_ne_zero.mpr h)

theorem toNat_add_of_le {a b : UInt64} (h : a.toNat + b.toNat ≤ largest) :
    (a + b).toNat = a.toNat + b.toNat := by
  rw [UInt64.toNat_add]
  apply Nat.mod_eq_of_lt
  simp only [largest] at h
  omega

theorem addSat_zero (a : UInt64) : addSat a 0 = a := by
  apply UInt64.toNat.inj
  rw [toNat_addSat]
  exact Nat.min_eq_left (toNat_le_largest a)

theorem addSat_ne_zero {a b : UInt64} (h : a ≠ 0 ∨ b ≠ 0) : addSat a b ≠ 0 := by
  intro hz
  have hs := toNat_addSat a b
  have hpos : 0 < a.toNat + b.toNat := by
    rcases h with h | h
    · exact Nat.add_pos_left (toNat_pos h) _
    · exact Nat.add_pos_right _ (toNat_pos h)
  rw [hz, UInt64.toNat_zero] at hs
  simp only [largest] at hs
  omega

theorem subSat_of_le {a b : UInt64} (h : b ≤ a) : subSat a b = a - b := by
  apply UInt64.toNat.inj
  rw [toNat_subSat, UInt64.toNat_sub_of_le _ _ h]

theorem subSat_add_left {a b : UInt64} (h : a.toNat + b.toNat ≤ largest) :
    subSat (a + b) a = b := by
  apply UInt64.toNat.inj
  rw [toNat_subSat, toNat_add_of_le h, Nat.add_sub_cancel_left]

end Headway.Count
