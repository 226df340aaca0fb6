import Headway.CommandLine
import Headway.Config.Load
import Headway.FileTree
import Headway.Simulation

namespace Headway.Program

open CommandLine

structure Home where
  config : String
  state : String

namespace Home

def configDirectory (h : Home) : String := h.config ++ "/progest"

def configPath (h : Home) : String := h.configDirectory ++ "/config.toml"

def stateDirectory (h : Home) : String := h.state ++ "/progest"

def logPath (h : Home) : String := h.stateDirectory ++ "/progest.log"

end Home

structure Output where
  time : Instant
  text : String
  deriving DecidableEq

inductive Ending where
  | done
  | failed (message : String)
  | usage (e : UsageError)
  | broken (f : Fault)
  deriving DecidableEq

def Ending.code : Ending → UInt32
  | .done => 0
  | .failed _ => 1
  | .usage .help => 0
  | .usage _ => 2
  | .broken _ => 101

structure Outcome where
  outputs : List Output
  ending : Ending

namespace Outcome

def failed (message : String) : Outcome := ⟨[], .failed message⟩

def text (o : Outcome) : String := String.join (o.outputs.map Output.text)

end Outcome

variable {m : Type → Type} [Monad m]

def openLog (files : Storage m) (home : Home) : m Unit := do
  match ← files.makeDirectories home.stateDirectory with
  | .ok () =>
    let _ ← files.append home.logPath ("progest logging initialized at " ++ home.logPath ++ "\n")
    pure ()
  | .error _ => pure ()

def storedConfig (files : Storage m) (home : Home) : m (Except String Config) := do
  match ← files.makeDirectories home.configDirectory with
  | .error e => pure (.error e.message)
  | .ok () =>
    match ← files.read home.configPath with
    | .error .missing | .error .nameTooLong =>
      match ← files.write home.configPath (String.ofList Config.standard.lines) with
      | .error e => pure (.error e.message)
      | .ok () => pure (.ok Config.standard)
    | content => pure ((Config.load home.configPath content).mapError LoadError.chain)

def baseConfig (files : Storage m) (home : Home) (i : Invocation) :
    m (Except String (Config × String)) := do
  match i.config with
  | some path =>
    let path := String.ofList path
    let content ← files.read path
    pure (((Config.load path content).mapError LoadError.chain).map fun c => (c, path))
  | none => pure ((← storedConfig files home).map fun c => (c, home.configPath))

def start : Instant := ⟨0⟩

def showConfig (c : Config) (source : String) : Outcome :=
  match c.toToml? with
  | some toml => ⟨[⟨start, "# " ++ source ++ "\n" ++ String.ofList toml⟩], .done⟩
  | none => .failed "serialize config"

def offNotice : String := "progress reporting is off (disabled, dry run, or no evidence)\n"

def showSimulation (c : Config) (a : Simulation.Arguments) : Outcome :=
  match Simulation.simulate c a with
  | .error u => .failed u.message
  | .ok r =>
    let notice : List Output := if r.started then [] else [⟨start, offNotice⟩]
    let reports := r.shown.map fun e => Output.mk e.time (e.report.render c.format ++ "\n")
    ⟨notice ++ reports, match r.ending with
      | .ok () => .done
      | .error f => .broken f⟩

def execute (c : Config) (source : String) : Command → Outcome
  | .config => showConfig c source
  | .simulate a => showSimulation c a

def run (files : Storage m) (home : Home) (words : List String) : m Outcome := do
  openLog files home
  match parse words with
  | .error e => pure ⟨[], .usage e⟩
  | .ok i =>
    match ← baseConfig files home i with
    | .error message => pure (.failed message)
    | .ok (base, source) =>
      let c := i.apply base
      match c.validate with
      | .error reason => pure (.failed reason.message)
      | .ok () => pure (execute c source i.command)

end Headway.Program
