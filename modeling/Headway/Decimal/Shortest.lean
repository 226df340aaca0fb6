import Headway.Binary64
import Headway.Decimal.Digits

/-!
The decimal number with the fewest digits that reads back as a given double.

A double owns the reals that round to it: those up to half way to its neighbours, the half-way
points included when its mantissa is even.  The grids of multiples of `10 ^ k` are tried from coarse
to fine; the first that has a point in the interval gives the digits, and of two such points the
nearer wins, a tie going to the even one.
-/

namespace Headway.Decimal

open Headway.Binary64

structure Scientific where
  digits : Nat
  exponent : Int
  deriving DecidableEq

namespace Scientific

/-- Quarter units of a scientific number, times `10 ^ -exponent` where the exponent is negative. -/
def quarters (s : Scientific) : Nat :=
  4 * Magnitude.unitsPerOne * s.digits * Nat.pow 10 s.exponent.toNat

def divisor (s : Scientific) : Nat := Nat.pow 10 (-s.exponent).toNat

end Scientific

/-- Quarter units from a magnitude down to the half-way point below it; the gap below a power of two
is half the gap above. -/
def slackBelow (a : Magnitude) : Nat :=
  if a.mantissa = Magnitude.leadingBit ∧ 0 < a.scale then Nat.pow 2 a.scale
  else 2 * Nat.pow 2 a.scale

def slackAbove (a : Magnitude) : Nat := 2 * Nat.pow 2 a.scale

def readsAs (a : Magnitude) (s : Scientific) : Bool :=
  let low := (4 * a.units - slackBelow a) * s.divisor
  let high := (4 * a.units + slackAbove a) * s.divisor
  if a.mantissa % 2 = 0 then decide (low ≤ s.quarters) && decide (s.quarters ≤ high)
  else decide (low < s.quarters) && decide (s.quarters < high)

def floorOn (a : Magnitude) (exponent : Int) : Scientific :=
  ⟨a.units * Nat.pow 10 (-exponent).toNat /
    (Magnitude.unitsPerOne * Nat.pow 10 exponent.toNat), exponent⟩

def prefersUpper (a : Magnitude) (lower : Scientific) : Bool :=
  let twice := 8 * a.units * lower.divisor
  let middle := 2 * lower.quarters + 4 * Magnitude.unitsPerOne * Nat.pow 10 lower.exponent.toNat
  decide (middle < twice) || (decide (middle = twice) && lower.digits % 2 == 1)

def onGrid (a : Magnitude) (exponent : Int) : Option Scientific :=
  let lower := floorOn a exponent
  let upper : Scientific := ⟨lower.digits + 1, exponent⟩
  match readsAs a lower, readsAs a upper with
  | true, true => some (if prefersUpper a lower then upper else lower)
  | true, false => some lower
  | false, true => some upper
  | false, false => none

def search (a : Magnitude) (exponent : Int) : Nat → Option Scientific
  | 0 => none
  | steps + 1 =>
    match onGrid a exponent with
    | some s => some s
    | none => search a (exponent - 1) steps

/-- The coarsest grid that needs trying: its first point above zero lies above the magnitude. -/
def coarsest (a : Magnitude) : Nat := (digits (a.units / Magnitude.unitsPerOne)).length

/-- Every magnitude lies on the grid of multiples of `10 ^ -1074`, so the search ends there. -/
def shortest (a : Magnitude) : Scientific :=
  if a.mantissa = 0 then ⟨0, 0⟩
  else (search a (coarsest a) (coarsest a + 1075)).getD ⟨0, 0⟩

end Headway.Decimal
