import Headway.Program

namespace Headway.Main

open Headway.Program

def fileError : IO.Error → FileError
  | .noFileOrDirectory .. => .missing
  | .alreadyExists .. => .alreadyThere
  | .inappropriateType _ code _ => if code = 20 then .notADirectory else .isADirectory
  | .invalidArgument _ 36 _ => .nameTooLong
  | .userError _ => .notText
  | e => .other (toString e)

def attempt {α : Type} (action : IO α) : IO (Except FileError α) := do
  try
    pure (.ok (← action))
  catch e =>
    pure (.error (fileError e))

def machineStorage : Storage IO where
  read path := attempt (IO.FS.readFile path)
  makeDirectories path := attempt (IO.FS.createDirAll path)
  write path text := attempt (IO.FS.writeFile path text)
  append path text := attempt do
    let file ← IO.FS.Handle.mk path .append
    file.putStr text

def directory (variableName below : String) : IO String := do
  match ← IO.getEnv variableName with
  | some path => if path.startsWith "/" then pure path else fallback
  | none => fallback
where
  fallback : IO String := do pure ((← IO.getEnv "HOME").getD "" ++ below)

def printAll (begin : Nat) (outputs : List Output) : IO Unit := do
  let out ← IO.getStdout
  for o in outputs do
    let due := o.time.nanos.toNat / Duration.perMilli
    let now := (← IO.monoMsNow) - begin
    IO.sleep (due - now).toUInt32
    out.putStr o.text
    out.flush

def explain : Ending → IO Unit
  | .done => pure ()
  | .failed message => IO.eprintln ("progest error: " ++ message)
  | .usage .help =>
    IO.println "Usage: progest [OPTIONS] <COMMAND>\n\nCommands: simulate, config, help"
  | .usage _ => IO.eprintln "error: the arguments make no command; try --help"
  | .broken fault => IO.eprintln fault.message

end Headway.Main

def main (words : List String) : IO UInt32 := do
  let begin ← IO.monoMsNow
  let home : Headway.Program.Home :=
    ⟨← Headway.Main.directory "XDG_CONFIG_HOME" "/.config",
      ← Headway.Main.directory "XDG_STATE_HOME" "/.local/state"⟩
  let outcome ← Headway.Program.run Headway.Main.machineStorage home words
  Headway.Main.printAll begin outcome.outputs
  Headway.Main.explain outcome.ending
  pure outcome.ending.code
