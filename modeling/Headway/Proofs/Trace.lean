import Mathlib.Data.List.Induction

namespace Headway

variable {S A B : Type} (next : S → A → S) (f : S → A → List B)

def trace : S → List A → List B
  | _, [] => []
  | s, a :: as => f s a ++ trace (next s a) as

@[simp] theorem trace_singleton (s : S) (a : A) : trace next f s [a] = f s a := List.append_nil _

theorem trace_append (s : S) (as bs : List A) :
    trace next f s (as ++ bs) = trace next f s as ++ trace next f (as.foldl next s) bs := by
  induction as generalizing s with
  | nil => rfl
  | cons a as ih => rw [List.cons_append, trace, ih, trace, List.foldl_cons, List.append_assoc]

variable {next f} in
theorem mem_trace {s : S} {as : List A} {b : B} (h : b ∈ trace next f s as) :
    ∃ before a later, as = before ++ a :: later ∧ b ∈ f (before.foldl next s) a := by
  induction as generalizing s with
  | nil => cases h
  | cons a as ih =>
    rw [trace, List.mem_append] at h
    rcases h with h | h
    · exact ⟨[], a, as, rfl, h⟩
    · obtain ⟨before, a', later, rfl, hb⟩ := ih h
      exact ⟨a :: before, a', later, rfl, hb⟩

end Headway
