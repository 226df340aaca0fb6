namespace Headway.Rounding

def roundDiv (num den : Nat) : Nat :=
  let q := num / den
  let r := num % den
  if 2 * r < den ∨ (2 * r = den ∧ q % 2 = 0) then q else q + 1

theorem roundDiv_le {num den : Nat} (h : 0 < den) :
    2 * (roundDiv num den * den) ≤ 2 * num + den := by
  have hd := Nat.div_add_mod' num den
  have hr := Nat.mod_lt num h
  simp only [roundDiv]
  split
  · omega
  · rw [Nat.add_mul]; omega

theorem roundDiv_mul (n : Nat) {den : Nat} (h : 0 < den) : roundDiv (n * den) den = n := by
  simp [roundDiv, Nat.mul_div_cancel _ h, h]

end Headway.Rounding
