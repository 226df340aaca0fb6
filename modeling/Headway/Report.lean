namespace Headway

structure Report where
  percent : Float
  eta : UInt64
  total : UInt64
  elapsed : UInt64
  speed : Float
  stalled : Bool
  deriving DecidableEq

def Report.completed (total elapsed : UInt64) (speed : Float) : Report :=
  ⟨100.0, 0, total, elapsed, speed, false⟩

end Headway
