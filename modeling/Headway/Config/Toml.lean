import Headway.Config
import Headway.Toml.Document

namespace Headway.Config

open Headway.Toml

def field {α : Type} (entries : Entries) (k : String) (default : α) (read : Node → Option α) :
    Option α :=
  match entries.lookup k.toList with
  | none => some default
  | some n => read n

def readBool : Node → Option Bool
  | .scalar (.boolean b) => some b
  | _ => none

def readCount (bound : Nat) : Node → Option Nat
  | .scalar (.integer n) => if 0 ≤ n ∧ n < bound then some n.toNat else none
  | _ => none

def formatNamed (s : List Char) : Option Format :=
  if s = "text".toList then some .text
  else if s = "json".toList then some .json
  else none

def isEmpty : Node → Bool
  | .array [] | .table _ [] | .tables [] => true
  | _ => false

/-- The name of a format, or a table whose only key is that name and holds nothing. -/
def readFormat : Node → Option Format
  | .scalar (.text s) => formatNamed s
  | .table _ [(k, v)] => if isEmpty v then formatNamed k else none
  | _ => none

def ofNode? : Node → Option Config
  | .table _ entries => do
    let enabled ← field entries "enabled" standard.enabled readBool
    let interval ← field entries "interval_secs" standard.intervalSecs.toNat (readCount UInt32.size)
    let dryRun ← field entries "dry_run" standard.dryRun readBool
    let format ← field entries "format" standard.format readFormat
    let floor ←
      field entries "stall_floor_secs" standard.stallFloorSecs.toNat (readCount wordEnd)
    let window ← field entries "rate_window" standard.rateWindow.toNat (readCount wordEnd)
    some ⟨enabled, interval.toUInt32, dryRun, format, floor.toUInt64, window.toUInt64⟩
  | _ => none

def ofToml? (s : List Char) : Option Config :=
  match Node.ofText? s with
  | some n => ofNode? n
  | none => none

def tomlBool (b : Bool) : List Char := (if b then "true" else "false").toList

def formatName : Format → List Char
  | .text => "text".toList
  | .json => "json".toList

def line (k : String) (v : List Char) : List Char :=
  k.toList ++ ' ' :: '=' :: ' ' :: v ++ ['\n']

def lines (c : Config) : List Char :=
  line "enabled" (tomlBool c.enabled) ++
    line "interval_secs" (Decimal.digits c.intervalSecs.toNat) ++
    line "dry_run" (tomlBool c.dryRun) ++
    line "format" ('"' :: formatName c.format ++ ['"']) ++
    line "stall_floor_secs" (Decimal.digits c.stallFloorSecs.toNat) ++
    line "rate_window" (Decimal.digits c.rateWindow.toNat)

def toToml? (c : Config) : Option (List Char) :=
  if c.stallFloorSecs.toNat < wordEnd ∧ c.rateWindow.toNat < wordEnd then some c.lines else none

end Headway.Config
