import Headway.Binary64
import Headway.Decimal.Digits
import Headway.Rounding

namespace Headway.Decimal

open Headway.Binary64 Headway.Rounding

def tenths (n : Nat) : List Char := digits (n / 10) ++ '.' :: digits (n % 10)

def nearestTenths (a : Magnitude) : Nat := roundDiv (10 * a.units) Magnitude.unitsPerOne

def oneDecimal (x : Float) : List Char :=
  match shape x with
  | .notANumber => "NaN".toList
  | .infinite negative => sign negative ++ "inf".toList
  | .finite negative a => sign negative ++ tenths (nearestTenths a)

end Headway.Decimal
