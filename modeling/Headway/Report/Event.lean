import Headway.Report.Json
import Headway.Report.Text

namespace Headway

inductive Format where
  | text
  | json
  deriving DecidableEq

def Report.render (r : Report) : Format → String
  | .text => r.text
  | .json => r.json

inductive LogLevel where
  | info
  deriving DecidableEq

structure LogEvent where
  target : String
  level : LogLevel
  report : Report
  message : String
  deriving DecidableEq

def Report.logEvent (r : Report) (f : Format) : LogEvent :=
  ⟨"progest::progress", .info, r, r.render f⟩

end Headway
