import Headway.Duration
import Headway.Refusal
import Headway.Report.Event

namespace Headway

structure Config where
  enabled : Bool
  intervalSecs : UInt32
  dryRun : Bool
  format : Format
  stallFloorSecs : UInt64
  rateWindow : UInt64
  deriving DecidableEq

namespace Config

def standard : Config := ⟨true, 3, false, .text, 5, 30⟩

def validate (c : Config) : Except Refusal Unit :=
  if c.intervalSecs = 0 then .error .zeroInterval
  else if c.rateWindow = 0 then .error .zeroRateWindow
  else .ok ()

def interval (c : Config) : Duration := .ofSeconds c.intervalSecs.toUInt64

def stallThreshold (c : Config) : Duration :=
  (Duration.ofSeconds c.stallFloorSecs).longer (.ofSeconds (2 * c.intervalSecs.toUInt64))

theorem validate_eq_ok_iff (c : Config) :
    c.validate = .ok () ↔ c.intervalSecs ≠ 0 ∧ c.rateWindow ≠ 0 := by
  rw [validate]
  by_cases hi : c.intervalSecs = 0 <;> by_cases hw : c.rateWindow = 0 <;> simp [hi, hw]

end Config

end Headway
