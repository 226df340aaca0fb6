import Mathlib.Data.List.Basic
import Headway.Decimal.Digits

namespace Headway

open Headway.Decimal

section Numeral

def Numeral (cs : List Char) : Prop := cs ≠ [] ∧ ∀ c ∈ cs, c.isDigit = true

theorem numeral_digits (n : ℕ) : Numeral (digits n) :=
  ⟨digits_ne_nil n, fun _ => isDigit_of_mem_digits⟩

theorem numeral_padded (width n : ℕ) : Numeral (padded width n) :=
  ⟨List.append_ne_nil_of_right_ne_nil _ (digits_ne_nil n), fun _ => isDigit_of_mem_padded⟩

variable {a b s t : List Char} {c d : Char}

theorem isDigit_of_mem_zeros {k : ℕ} (h : c ∈ List.replicate k '0') : c.isDigit = true := by
  rw [List.eq_of_mem_replicate h]
  rfl

theorem Numeral.append_zeros (ha : Numeral a) (k : ℕ) : Numeral (a ++ List.replicate k '0') := by
  refine ⟨List.append_ne_nil_of_left_ne_nil ha.1 _, fun c hc => ?_⟩
  rcases List.mem_append.mp hc with hc | hc
  · exact ha.2 c hc
  · exact isDigit_of_mem_zeros hc

theorem takeWhile_numeral (ha : Numeral a) (hc : c.isDigit = false) :
    (a ++ c :: s).takeWhile Char.isDigit = a := by
  rw [List.takeWhile_append_of_pos ha.2, List.takeWhile_cons, hc]
  exact List.append_nil a

theorem append_cons_inj (ha : Numeral a) (hb : Numeral b) (hc : c.isDigit = false)
    (hd : d.isDigit = false) (h : a ++ c :: s = b ++ d :: t) : a = b ∧ c = d ∧ s = t := by
  have hab : a = b := by rw [← takeWhile_numeral ha hc, h, takeWhile_numeral hb hd]
  rw [hab] at h
  exact ⟨hab, List.cons.inj (List.append_cancel_left h)⟩

theorem append_cons_ne (ha : Numeral a) (hb : Numeral b) (hc : c.isDigit = false)
    (hd : d.isDigit = false) (hcd : c ≠ d) : a ++ c :: s ≠ b ++ d :: t :=
  fun h => hcd (append_cons_inj ha hb hc hd h).2.1

end Numeral

theorem Decimal.head?_digits {n : ℕ} (h : n ≠ 0) : (digits n).head? ≠ some '0' := by
  induction n using Nat.strongRecOn with
  | ind n ih =>
    by_cases hn : n < 10
    · have hone : ∀ k < 10, k ≠ 0 → [k.digitChar].head? ≠ some '0' := by decide
      rw [digits, Nat.toDigits_of_lt_base hn]
      exact hone n hn h
    · have hq : n / 10 ≠ 0 := by omega
      rw [digits, Nat.toDigits_of_base_le (by omega) (by omega),
        List.head?_append_of_ne_nil _ Nat.toDigits_ne_nil]
      exact ih (n / 10) (by omega) hq

end Headway
