namespace Headway.Binary64

/-- The magnitude of a finite double is `mantissa * 2 ^ scale` units of `2 ^ -1074`. -/
structure Magnitude where
  mantissa : Nat
  scale : Nat
  deriving DecidableEq

inductive Shape where
  | notANumber
  | infinite (negative : Bool)
  | finite (negative : Bool) (magnitude : Magnitude)
  deriving DecidableEq

namespace Magnitude

def units (a : Magnitude) : Nat := a.mantissa * Nat.pow 2 a.scale

def unitsPerOne : Nat := Nat.pow 2 1074

def leadingBit : Nat := Nat.pow 2 52

end Magnitude

/-- Eleven bits of exponent over 52 of fraction; the leading bit of the mantissa is written only by
an exponent above zero. -/
def Shape.ofBits (bits : Nat) : Shape :=
  let negative := decide (bits / Nat.pow 2 63 % 2 = 1)
  let exponent := bits / Magnitude.leadingBit % 2048
  let fraction := bits % Magnitude.leadingBit
  if exponent = 2047 then
    if fraction = 0 then .infinite negative else .notANumber
  else if exponent = 0 then .finite negative ⟨fraction, 0⟩
  else .finite negative ⟨Magnitude.leadingBit + fraction, exponent - 1⟩

def shape (x : Float) : Shape := .ofBits x.toBits.toNat

end Headway.Binary64
