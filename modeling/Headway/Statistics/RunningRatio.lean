/-!
The arithmetic is a parameter, so that the same definition runs on machine floats and can be read
over exact fractions.
-/

namespace Headway.Statistics

/-- Numbers of observations are exact as floats below `2 ^ 53`, and rounded above. -/
instance natCastFloat : NatCast Float := ⟨fun n => n.toUInt64.toFloat⟩

structure RunningRatio (F : Type) where
  mean : F
  scatter : F
  samples : Nat
  deriving DecidableEq

namespace RunningRatio

variable {F : Type} [Add F] [Sub F] [Mul F] [Div F] [NatCast F] [OfNat F 0]

def empty : RunningRatio F := ⟨0, 0, 0⟩

/-- The deviation from the old mean times the deviation from the new one is what the new value adds
to the scatter. -/
def push (r : RunningRatio F) (x : F) : RunningRatio F :=
  let n := r.samples + 1
  let d := x - r.mean
  let mean := r.mean + d / (n : F)
  ⟨mean, r.scatter + d * (x - mean), n⟩

def ofList (xs : List F) : RunningRatio F := xs.foldl push empty

/-- Population variance; zero before the first value.  Rounding can leave the scatter below zero,
so its magnitude counts. -/
def variance (magnitude : F → F) (r : RunningRatio F) : F :=
  if r.samples = 0 then 0 else magnitude r.scatter / (r.samples : F)

def sigma (r : RunningRatio Float) : Float := (r.variance Float.abs).sqrt

omit [OfNat F 0] in
@[simp] theorem samples_push (r : RunningRatio F) (x : F) :
    (r.push x).samples = r.samples + 1 := rfl

theorem ofList_append_singleton (xs : List F) (x : F) :
    ofList (xs ++ [x]) = (ofList xs).push x := by
  rw [ofList, List.foldl_append]
  rfl

theorem samples_ofList (xs : List F) : (ofList xs).samples = xs.length := by
  suffices h : ∀ r : RunningRatio F, (xs.foldl push r).samples = r.samples + xs.length by
    simpa [ofList, empty] using h empty
  induction xs with
  | nil => intro r; rfl
  | cons x xs ih => intro r; rw [List.foldl_cons, ih]; simp; omega

end RunningRatio

end Headway.Statistics
