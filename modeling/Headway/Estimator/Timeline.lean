import Headway.Duration

namespace Headway

structure Timeline where
  origin : Instant
  first : Option Instant
  last : Option Instant
  activity : Option Nat
  deriving DecidableEq

namespace Timeline

def starting (now : Instant) : Timeline := ⟨now, none, none, none⟩

def latestStamp : Nat := 18446744073709551614

def stamp (t : Timeline) (now : Instant) : Nat :=
  min (now.nanos - t.origin.nanos).toNat latestStamp

def activate (t : Timeline) (now : Instant) : Timeline := { t with activity := some (t.stamp now) }

/-- Asked for the first time, the estimator starts its clock and, if no bytes have moved, counts the
question itself as activity. -/
def visit (t : Timeline) (now : Instant) : Timeline :=
  { t with
    first := some (t.first.getD now)
    last := some now
    activity := some (t.activity.getD (t.stamp now)) }

def elapsed (t : Timeline) (now : Instant) : Duration :=
  match t.last with
  | some last => now.since last
  | none => .zero

def running (t : Timeline) (now : Instant) : UInt64 :=
  match t.first with
  | some first => (now.since first).seconds.toUInt64
  | none => 0

def idle (t : Timeline) (now : Instant) : Nat :=
  match t.activity with
  | some activity => t.stamp now - activity
  | none => 0

end Timeline

end Headway
