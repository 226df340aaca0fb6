import Headway.Decimal.Shortest

namespace Headway.Decimal

open Headway.Binary64

def pointed : List Char → List Char
  | [] => []
  | [d] => [d]
  | d :: rest => d :: '.' :: rest

def powerOfTen (exponent : Int) : List Char :=
  'e' :: (if exponent < 0 then '-' else '+') :: digits exponent.natAbs

def positional (ds : List Char) (exponent : Int) : List Char :=
  let place := ds.length + exponent
  if 0 ≤ exponent ∧ place ≤ 16 then ds ++ List.replicate exponent.toNat '0' ++ ['.', '0']
  else if 0 < place ∧ place ≤ 16 then ds.take place.toNat ++ '.' :: ds.drop place.toNat
  else if -5 < place ∧ place ≤ 0 then
    '0' :: '.' :: List.replicate (-place).toNat '0' ++ ds
  else pointed ds ++ powerOfTen (place - 1)

def magnitudeText (a : Magnitude) : List Char :=
  if a.mantissa = 0 then ['0', '.', '0']
  else
    let s := shortest a
    positional (digits s.digits) s.exponent

def jsonNumber (x : Float) : List Char :=
  match shape x with
  | .notANumber | .infinite _ => "null".toList
  | .finite negative a => sign negative ++ magnitudeText a

end Headway.Decimal
