import Headway.Decimal.Digits
import Headway.Report.Event

namespace Headway.CommandLine

open Headway.Decimal

def allDigits (cs : List Char) : Bool := !cs.isEmpty && cs.all Char.isDigit

def word? (cs : List Char) : Option UInt64 :=
  let ds := match cs with
    | '+' :: rest => rest
    | _ => cs
  if allDigits ds ∧ value ds < UInt64.size then some (value ds).toUInt64 else none

def halfWord? (cs : List Char) : Option UInt32 :=
  let (negative, ds) := match cs with
    | '+' :: rest => (false, rest)
    | '-' :: rest => (true, rest)
    | _ => (false, cs)
  if allDigits ds ∧ value ds < UInt32.size ∧ (negative → value ds = 0) then
    some (value ds).toUInt32
  else none

/-- The double nearest to `n * 10 ^ e`.  Where the first digit is out of reach of every double, the
power is not worked out. -/
def nearest (n : Nat) (e : Int) : Float :=
  let place := (digits n).length + e
  if n = 0 ∨ place < -400 then 0.0
  else if 400 < place then Float.ofBits 0x7ff0000000000000
  else if e < 0 then Float.ofScientific n true e.natAbs
  else Float.ofScientific n false e.natAbs

def power? : List Char → Option Int
  | [] => some 0
  | c :: rest =>
    if c = 'e' ∨ c = 'E' then
      match rest with
      | '+' :: ds => if allDigits ds then some (value ds) else none
      | '-' :: ds => if allDigits ds then some (-(value ds : Int)) else none
      | ds => if allDigits ds then some (value ds) else none
    else none

def unsigned? (cs : List Char) : Option Float :=
  let whole := cs.takeWhile Char.isDigit
  let rest := cs.dropWhile Char.isDigit
  let (part, rest) := match rest with
    | '.' :: after => (after.takeWhile Char.isDigit, after.dropWhile Char.isDigit)
    | _ => ([], rest)
  if whole.isEmpty && part.isEmpty then none
  else (power? rest).map fun e => nearest (value (whole ++ part)) (e - part.length)

def special? (cs : List Char) : Option Float :=
  let name := cs.map Char.toLower
  if name = "inf".toList ∨ name = "infinity".toList then some (Float.ofBits 0x7ff0000000000000)
  else if name = "nan".toList then some (Float.ofBits 0x7ff8000000000000)
  else none

def float? (cs : List Char) : Option Float :=
  let (negative, body) := match cs with
    | '+' :: rest => (false, rest)
    | '-' :: rest => (true, rest)
    | _ => (false, cs)
  let x := match special? body with
    | some x => some x
    | none => unsigned? body
  x.map fun x => if negative then -x else x

def format? (cs : List Char) : Option Format :=
  if cs = "text".toList then some .text
  else if cs = "json".toList then some .json
  else none

end Headway.CommandLine
