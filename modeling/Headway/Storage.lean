/-!
The monad is a parameter, so that the same program runs on a machine's files and on a tree of files
held in memory.
-/

namespace Headway

inductive FileError where
  | missing
  | alreadyThere
  | notADirectory
  | isADirectory
  | notText
  | nameTooLong
  | other (text : String)
  deriving DecidableEq

def FileError.message : FileError → String
  | .missing => "No such file or directory (os error 2)"
  | .alreadyThere => "File exists (os error 17)"
  | .notADirectory => "Not a directory (os error 20)"
  | .isADirectory => "Is a directory (os error 21)"
  | .notText => "stream did not contain valid UTF-8"
  | .nameTooLong => "File name too long (os error 36)"
  | .other text => text

structure Storage (m : Type → Type) where
  read (path : String) : m (Except FileError String)
  makeDirectories (path : String) : m (Except FileError Unit)
  write (path text : String) : m (Except FileError Unit)
  append (path text : String) : m (Except FileError Unit)

end Headway
