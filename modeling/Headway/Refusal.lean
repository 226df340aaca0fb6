namespace Headway

inductive Refusal where
  | zeroInterval
  | zeroRateWindow
  | evidenceAlreadySet
  | reporterAlreadyStarted
  deriving DecidableEq

def Refusal.message : Refusal → String
  | .zeroInterval => "reporting interval must be greater than zero"
  | .zeroRateWindow => "rate window must hold at least one sample"
  | .evidenceAlreadySet => "size evidence was already collected for this operation"
  | .reporterAlreadyStarted => "progress reporter was already started"

inductive Fault where
  | durationProduct
  | durationSum
  | countSum
  | secondsRange
  deriving DecidableEq

def Fault.message : Fault → String
  | .durationProduct => "overflow when multiplying duration by scalar"
  | .durationSum => "overflow when adding durations"
  | .countSum => "attempt to add with overflow"
  | .secondsRange =>
    "cannot convert float seconds to Duration: value is either too big or NaN"

end Headway
