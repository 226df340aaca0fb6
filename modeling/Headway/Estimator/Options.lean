import Headway.Config

namespace Headway

structure EstimatorOptions where
  enabled : Bool
  interval : Duration
  stallFloor : Duration
  rateWindow : Nat
  deriving DecidableEq

namespace EstimatorOptions

def ofConfig (c : Config) : EstimatorOptions :=
  ⟨c.enabled, c.interval, .ofSeconds c.stallFloorSecs, c.rateWindow.toNat⟩

def standard : EstimatorOptions := ofConfig .standard

def stallThreshold (o : EstimatorOptions) : Except Fault Duration :=
  match o.interval.double? with
  | some twice => .ok (o.stallFloor.longer twice)
  | none => .error .durationProduct

def text (o : EstimatorOptions) : List Char :=
  "EstimatorOptions \x7b enabled: ".toList ++ (if o.enabled then "true" else "false").toList ++
    ", interval: ".toList ++ o.interval.text ++ ", stall_floor: ".toList ++ o.stallFloor.text ++
    ", rate_window: ".toList ++ Decimal.digits o.rateWindow ++ " \x7d".toList

end EstimatorOptions

end Headway
