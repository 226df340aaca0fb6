import Headway.Config.Toml
import Headway.Storage

namespace Headway

inductive LoadError where
  | read (path : String) (cause : FileError)
  | parse (path : String)
  | refused (reason : Refusal)
  deriving DecidableEq

namespace LoadError

def message : LoadError → String
  | .read path _ => "read config: " ++ path
  | .parse path => "parse config: " ++ path
  | .refused reason => reason.message

def chain : LoadError → String
  | .read path cause => "read config: " ++ path ++ ": " ++ cause.message
  | e => e.message

end LoadError

namespace Config

def load (path : String) (content : Except FileError String) : Except LoadError Config :=
  match content with
  | .error cause => .error (.read path cause)
  | .ok text =>
    match ofToml? text.toList with
    | none => .error (.parse path)
    | some c =>
      match c.validate with
      | .ok () => .ok c
      | .error reason => .error (.refused reason)

end Config

end Headway
