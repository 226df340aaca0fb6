import Headway.Decimal.Digits
import Headway.Toml.Node
import Headway.Toml.Text

namespace Headway.Toml

open Headway.Decimal

def moreDigits (isDigit : Char → Bool) : List Char → List Char × List Char
  | [] => ([], [])
  | [c] => if isDigit c then ([c], []) else ([], [c])
  | c :: d :: rest =>
    if isDigit c then
      let (ds, after) := moreDigits isDigit (d :: rest)
      (c :: ds, after)
    else if c = '_' && isDigit d then moreDigits isDigit (d :: rest)
    else ([], c :: d :: rest)

def digitRun (isDigit : Char → Bool) : Reader (List Char)
  | c :: rest => if isDigit c then some (moreDigits isDigit (c :: rest)) else none
  | [] => none

def optionalSign : List Char → Bool × List Char
  | '+' :: rest => (false, rest)
  | '-' :: rest => (true, rest)
  | s => (false, s)

def plainDigits : Reader (List Char)
  | '0' :: rest => some (['0'], rest)
  | s => digitRun Char.isDigit s

def signed (negative : Bool) (n : Nat) : Int := if negative then -(n : Int) else n

def wordEnd : Nat := 9223372036854775808

def fitsWord (n : Int) : Bool := decide (-(wordEnd : Int) ≤ n) && decide (n < wordEnd)

def integerIn (base : Nat) (isDigit : Char → Bool) (s : List Char) : Option (Int × List Char) :=
  match digitRun isDigit s with
  | some (ds, rest) =>
    let n : Int := ds.foldl (fun n c => base * n + (hexDigit? c).getD 0) 0
    if fitsWord n then some (n, rest) else none
  | none => none

def integer : Reader Int
  | '0' :: 'x' :: rest => integerIn 16 (fun c => (hexDigit? c).isSome) rest
  | '0' :: 'o' :: rest => integerIn 8 (fun c => '0' ≤ c && c ≤ '7') rest
  | '0' :: 'b' :: rest => integerIn 2 (fun c => c = '0' || c = '1') rest
  | s =>
    let (negative, s) := optionalSign s
    match plainDigits s with
    | some (ds, rest) =>
      let n := signed negative (value ds)
      if fitsWord n then some (n, rest) else none
    | none => none

def exponent : Reader Int
  | c :: rest =>
    if c = 'e' || c = 'E' then
      let (negative, s) := optionalSign rest
      (digitRun Char.isDigit s).map fun (ds, rest) => (signed negative (value ds), rest)
    else none
  | [] => none

def fraction : Reader (List Char)
  | '.' :: rest => digitRun Char.isDigit rest
  | _ => none

/-- Numbers from here on round to infinity: half way between the largest finite double and the next
power of two. -/
def beyondDoubles : Nat := Nat.pow 2 1024 - Nat.pow 2 970

def overflows (digitsNumber : Nat) (e : Int) : Bool :=
  if digitsNumber = 0 then false
  else
    let place := (digits digitsNumber).length + e
    if place < 300 then false
    else if 320 < place then true
    else decide (beyondDoubles * Nat.pow 10 (-e).toNat ≤ digitsNumber * Nat.pow 10 e.toNat)

def realTail (s : List Char) : Option ((List Char × Int) × List Char) :=
  match fraction s with
  | some (fs, rest) =>
    match exponent rest with
    | some (e, rest) => some ((fs, e), rest)
    | none => some ((fs, 0), rest)
  | none => (exponent s).map fun (e, rest) => (([], e), rest)

def real (s : List Char) : Option (Real × List Char) :=
  let (negative, s) := optionalSign s
  match s with
  | 'i' :: 'n' :: 'f' :: rest => some (.infinite negative, rest)
  | 'n' :: 'a' :: 'n' :: rest => some (.notANumber, rest)
  | s =>
    match plainDigits s with
    | none => none
    | some (ds, rest) =>
      match realTail rest with
      | none => none
      | some ((fs, e), rest) =>
        let n := value (ds ++ fs)
        let e := e - fs.length
        if overflows n e && !negative then none else some (.decimal negative n e, rest)

def fixedDigits (width : Nat) (s : List Char) : Option (Nat × List Char) :=
  let ds := s.take width
  if ds.length = width && ds.all Char.isDigit then some (value ds, s.drop width) else none

def expect (c : Char) : List Char → Option (List Char)
  | d :: rest => if c = d then some rest else none
  | [] => none

def daysIn (year month : Nat) : Nat :=
  if month = 2 then
    if year % 4 = 0 ∧ (year % 100 ≠ 0 ∨ year % 400 = 0) then 29 else 28
  else if month ∈ [4, 6, 9, 11] then 30
  else 31

def date (s : List Char) : Option (Date × List Char) := do
  let (year, s) ← fixedDigits 4 s
  let s ← expect '-' s
  let (month, s) ← fixedDigits 2 s
  let s ← expect '-' s
  let (day, s) ← fixedDigits 2 s
  if 1 ≤ month ∧ month ≤ 12 ∧ 1 ≤ day ∧ day ≤ daysIn year month then
    some (⟨year, month, day⟩, s)
  else none

def time (s : List Char) : Option (Time × List Char) := do
  let (hour, s) ← fixedDigits 2 s
  let s ← expect ':' s
  let (minute, s) ← fixedDigits 2 s
  let s ← expect ':' s
  let (second, s) ← fixedDigits 2 s
  if hour ≤ 23 ∧ minute ≤ 59 ∧ second ≤ 60 then
    match s with
    | '.' :: c :: rest =>
      if c.isDigit then
        some (⟨hour, minute, second, (c :: rest).takeWhile Char.isDigit⟩,
          (c :: rest).dropWhile Char.isDigit)
      else some (⟨hour, minute, second, []⟩, s)
    | _ => some (⟨hour, minute, second, []⟩, s)
  else none

def hoursMinutes (s : List Char) : Option ((Nat × Nat) × List Char) := do
  let (hours, s) ← fixedDigits 2 s
  let s ← expect ':' s
  let (minutes, s) ← fixedDigits 2 s
  if hours ≤ 23 ∧ minutes ≤ 59 then some ((hours, minutes), s) else none

def offset : Reader Offset
  | c :: rest =>
    if c = 'Z' || c = 'z' then some (.utc, rest)
    else if c = '+' then (hoursMinutes rest).map fun ((h, m), rest) => (.ahead h m, rest)
    else if c = '-' then (hoursMinutes rest).map fun ((h, m), rest) => (.behind h m, rest)
    else none
  | [] => none

def isDelimiter (c : Char) : Bool := c = 'T' || c = 't' || c = ' '

def datetime (s : List Char) : Option (Datetime × List Char) :=
  match date s with
  | none => (time s).map fun (t, rest) => (⟨none, some t, none⟩, rest)
  | some (d, rest) =>
    match rest with
    | [] => some (⟨some d, none, none⟩, [])
    | c :: after =>
      if isDelimiter c then
        match time after with
        | none => some (⟨some d, none, none⟩, rest)
        | some (t, rest) =>
          match offset rest with
          | some (o, rest) => some (⟨some d, some t, some o⟩, rest)
          | none => some (⟨some d, some t, none⟩, rest)
      else some (⟨some d, none, none⟩, rest)

def number (s : List Char) : Option (Scalar × List Char) :=
  match datetime s with
  | some (d, rest) => some (.datetime d, rest)
  | none =>
    match real s with
    | some (x, rest) => some (.real x, rest)
    | none => (integer s).map fun (n, rest) => (.integer n, rest)

end Headway.Toml
