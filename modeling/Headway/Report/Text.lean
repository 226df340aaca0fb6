import Headway.Decimal.Fixed
import Headway.Report

namespace Headway

open Headway.Rounding Headway.Decimal

inductive ByteUnit where
  | byte
  | kibi
  | mebi
  | gibi
  | tebi
  deriving DecidableEq

namespace ByteUnit

def size : ByteUnit → Nat
  | byte => 1
  | kibi => 1024
  | mebi => 1024 * 1024
  | gibi => 1024 * 1024 * 1024
  | tebi => 1024 * 1024 * 1024 * 1024

def symbol : ByteUnit → List Char
  | byte => "B".toList
  | kibi => "KiB".toList
  | mebi => "MiB".toList
  | gibi => "GiB".toList
  | tebi => "TiB".toList

def holding (n : Nat) : ByteUnit :=
  if n < kibi.size then byte
  else if n < mebi.size then kibi
  else if n < gibi.size then mebi
  else if n < tebi.size then gibi
  else tebi

end ByteUnit

structure Amount where
  figure : List Char
  unit : ByteUnit

namespace Amount

def nearestDouble (n : Nat) : Nat :=
  let spare := n.log2 - 52
  roundDiv n (Nat.pow 2 spare) * Nat.pow 2 spare

def ofBytes (n : UInt64) : Amount :=
  let d := nearestDouble n.toNat
  let unit := ByteUnit.holding d
  match unit with
  | .byte => ⟨digits n.toNat, unit⟩
  | _ => ⟨tenths (roundDiv (10 * d) unit.size), unit⟩

def text (a : Amount) : List Char := a.figure ++ ' ' :: a.unit.symbol

end Amount

structure Clock where
  hours : Nat
  minutes : Nat
  seconds : Nat

namespace Clock

def ofSeconds (n : UInt64) : Clock :=
  ⟨n.toNat / 3600, n.toNat / 60 % 60, n.toNat % 60⟩

def face (c : Clock) : List Char :=
  padded 2 c.hours ++ ':' :: padded 2 c.minutes ++ ':' :: padded 2 c.seconds

def brief (c : Clock) : List Char :=
  let seconds := digits c.seconds ++ ['s']
  let minutes := digits c.minutes ++ ['m']
  if 0 < c.hours then digits c.hours ++ 'h' :: (minutes ++ seconds)
  else if 0 < c.minutes then minutes ++ seconds
  else seconds

end Clock

def spaced : List (List Char) → List Char
  | [] => []
  | [w] => w
  | w :: ws => w ++ ' ' :: spaced ws

namespace Report

def speedBytes (r : Report) : UInt64 := r.speed.toUInt64

def words (r : Report) : List (List Char) :=
  let total := Amount.ofBytes r.total
  let speed := Amount.ofBytes r.speedBytes
  [total.figure, total.unit.symbol, (Clock.ofSeconds r.elapsed).face,
    '[' :: speed.figure, speed.unit.symbol ++ "/s]".toList,
    oneDecimal r.percent ++ ['%'], "ETA".toList, (Clock.ofSeconds r.eta).brief] ++
  if r.stalled then ["(stalled)".toList] else []

def text (r : Report) : String := String.ofList (spaced r.words)

end Report

end Headway
