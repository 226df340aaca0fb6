import Headway.Count

namespace Headway

structure Evidence where
  newBytes : UInt64
  changedBytes : UInt64
  deriving DecidableEq

def Evidence.total (e : Evidence) : UInt64 := Count.addSat e.newBytes e.changedBytes

structure LiveTotals where
  raw : UInt64
  changed : UInt64
  deriving DecidableEq

namespace LiveTotals

def zero : LiveTotals := ⟨0, 0⟩

def setRaw (t : LiveTotals) (n : UInt64) : LiveTotals := { t with raw := n }

def addRaw (t : LiveTotals) (n : UInt64) : LiveTotals := { t with raw := Count.addSat t.raw n }

def setChanged (t : LiveTotals) (n : UInt64) : LiveTotals := { t with changed := n }

def addChanged (t : LiveTotals) (n : UInt64) : LiveTotals :=
  { t with changed := Count.addSat t.changed n }

end LiveTotals

theorem Evidence.toNat_total (e : Evidence) :
    e.total.toNat = min (e.newBytes.toNat + e.changedBytes.toNat) Count.largest :=
  Count.toNat_addSat _ _

end Headway
