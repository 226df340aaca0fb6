namespace Headway.Statistics

structure RateWindow (F : Type) where
  capacity : Nat
  rates : List F
  deriving DecidableEq

namespace RateWindow

variable {F : Type}

def empty (capacity : Nat) : RateWindow F := ⟨max capacity 1, []⟩

def newest (n : Nat) (xs : List F) : List F := xs.drop (xs.length - n)

def push (w : RateWindow F) (rate : F) : RateWindow F :=
  { w with rates := newest w.capacity (w.rates ++ [rate]) }

def length (w : RateWindow F) : Nat := w.rates.length

section Average

variable [Add F] [Sub F] [Mul F] [OfNat F 0] [OfScientific F]

def weight : F := 0.3

def smooth (speed rate : F) : F := weight * rate + (1.0 - weight) * speed

def average (w : RateWindow F) : F := w.rates.foldl smooth 0

end Average

end RateWindow

end Headway.Statistics
