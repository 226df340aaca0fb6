import Headway.Decimal.Notation
import Headway.Report

namespace Headway.Report

open Headway.Decimal

def jsonBool (b : Bool) : List Char := (if b then "true" else "false").toList

def fields (r : Report) : List (String × List Char) :=
  [("percent_complete", jsonNumber r.percent),
   ("eta_seconds", digits r.eta.toNat),
   ("total_bytes", digits r.total.toNat),
   ("elapsed_seconds", digits r.elapsed.toNat),
   ("speed_bytes_per_sec", jsonNumber r.speed),
   ("stalled", jsonBool r.stalled)]

def member (field : String × List Char) : List Char :=
  '"' :: field.1.toList ++ '"' :: ':' :: field.2

def members : List (String × List Char) → List Char
  | [] => []
  | [m] => member m
  | m :: ms => member m ++ ',' :: members ms

def json (r : Report) : String := String.ofList ('\x7b' :: members r.fields ++ ['\x7d'])

end Headway.Report
