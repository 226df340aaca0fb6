import Headway.Binary64
import Headway.Count
import Headway.Decimal.Digits
import Headway.Rounding

namespace Headway

def Duration.limit : Nat := 18446744073709551616000000000

structure Duration where
  nanos : Nat
  bounded : nanos < Duration.limit
  deriving DecidableEq

namespace Duration

def perSecond : Nat := 1000000000

def perMilli : Nat := 1000000

def ofNanos? (n : Nat) : Option Duration :=
  if h : n < limit then some ⟨n, h⟩ else none

def clamp (n : Nat) : Duration := ⟨min n (limit - 1), by simp only [limit]; omega⟩

def zero : Duration := ⟨0, by decide⟩

def ofSeconds (s : UInt64) : Duration :=
  ⟨s.toNat * perSecond, by have := s.toNat_lt; simp only [perSecond, limit]; omega⟩

def ofMillis (ms : UInt64) : Duration :=
  ⟨ms.toNat * perMilli, by have := ms.toNat_lt; simp only [perMilli, limit]; omega⟩

def seconds (d : Duration) : Nat := d.nanos / perSecond

def subsecond (d : Duration) : Nat := d.nanos % perSecond

def add? (a b : Duration) : Option Duration := ofNanos? (a.nanos + b.nanos)

def double? (a : Duration) : Option Duration := ofNanos? (2 * a.nanos)

def longer (a b : Duration) : Duration := if a.nanos ≤ b.nanos then b else a

def shorter (a b : Duration) : Duration := if a.nanos ≤ b.nanos then a else b

def longestSleep : Duration := ⟨30 * 365 * 24 * 60 * 60 * perSecond, by decide⟩

def toMillis (d : Duration) : Nat := (d.nanos + (perMilli - 1)) / perMilli

/-- How long a sleep takes that is meant to take `d`: timers count in milliseconds. -/
def slept (d : Duration) : Duration := clamp ((d.shorter longestSleep).toMillis * perMilli)

def toFloat (d : Duration) : Float :=
  d.seconds.toUInt64.toFloat + d.subsecond.toUInt64.toFloat / 1e9

def ofFloat? (x : Float) : Option Duration :=
  match Binary64.shape x with
  | .finite _ a =>
    ofNanos? (Rounding.roundDiv (a.units * perSecond) Binary64.Magnitude.unitsPerOne)
  | _ => none

def decimal (n width : Nat) : List Char :=
  let fraction := Decimal.dropTrailingZeros (Decimal.padded width (n % Nat.pow 10 width))
  Decimal.digits (n / Nat.pow 10 width) ++
    if fraction = [] then [] else '.' :: fraction

def text (d : Duration) : List Char :=
  if perSecond ≤ d.nanos then decimal d.nanos 9 ++ ['s']
  else if perMilli ≤ d.nanos then decimal d.nanos 6 ++ ['m', 's']
  else if 1000 ≤ d.nanos then decimal d.nanos 3 ++ ['µ', 's']
  else decimal d.nanos 0 ++ ['n', 's']

theorem nanos_ofNanos? {n : Nat} {d : Duration} (h : ofNanos? n = some d) : d.nanos = n := by
  rw [ofNanos?] at h
  split at h
  · cases h; rfl
  · cases h

theorem ofNanos?_eq_none_iff {n : Nat} : ofNanos? n = none ↔ limit ≤ n := by
  simp [ofNanos?]

theorem ofNanos?_nanos (d : Duration) : ofNanos? d.nanos = some d := dif_pos d.bounded

theorem nanos_longer (a b : Duration) : (longer a b).nanos = max a.nanos b.nanos := by
  rw [longer]; split <;> omega

theorem nanos_shorter (a b : Duration) : (shorter a b).nanos = min a.nanos b.nanos := by
  rw [shorter]; split <;> omega

theorem nanos_slept (d : Duration) :
    d.slept.nanos =
      (min d.nanos (946080000 * perSecond) + (perMilli - 1)) / perMilli * perMilli := by
  have hs : (d.shorter longestSleep).nanos = min d.nanos (946080000 * perSecond) :=
    nanos_shorter d longestSleep
  simp only [slept, clamp, toMillis, hs]
  simp only [perMilli, perSecond, limit]
  omega

theorem min_le_nanos_slept (d : Duration) :
    min d.nanos (946080000 * perSecond) ≤ d.slept.nanos := by
  rw [nanos_slept]
  simp only [perMilli]
  omega

theorem perMilli_dvd_nanos_slept (d : Duration) : perMilli ∣ d.slept.nanos := by
  rw [nanos_slept]
  exact Nat.dvd_mul_left _ _

theorem nanos_slept_of_dvd {d : Duration} (h : perMilli ∣ d.nanos) :
    d.slept.nanos = min d.nanos (946080000 * perSecond) := by
  rw [nanos_slept]
  simp only [perMilli, perSecond] at h ⊢
  omega

end Duration

structure Instant where
  nanos : Int
  deriving DecidableEq

namespace Instant

def since (t start : Instant) : Duration := .clamp (t.nanos - start.nanos).toNat

def later (t : Instant) (d : Duration) : Instant := ⟨t.nanos + d.nanos⟩

def earlier (t : Instant) (d : Duration) : Instant := ⟨t.nanos - d.nanos⟩

end Instant

end Headway
