import Headway.CommandLine.Value
import Headway.Config
import Headway.Simulation.Arguments

namespace Headway.CommandLine

inductive UsageError where
  | unknownCommand
  | unknownArgument
  | badValue
  | badChoice
  | repeated
  | needlessValue
  | missingCommand
  | missingArguments
  | help
  deriving DecidableEq

inductive Switch where
  | noProgress
  | dryRun
  | help
  deriving DecidableEq

inductive Setting where
  | config
  | interval
  | format
  | newBytes
  | changedBytes
  | deltaRatio
  | compressRatio
  | rate
  | chunk
  | volume
  | pauseSecs
  deriving DecidableEq

inductive Name where
  | switch (s : Switch)
  | setting (s : Setting)
  deriving DecidableEq

inductive Level where
  | top
  | simulate
  | config
  deriving DecidableEq

def names : List (String × Name) :=
  [("no-progress", .switch .noProgress), ("dry-run", .switch .dryRun), ("help", .switch .help),
   ("config", .setting .config), ("interval", .setting .interval), ("format", .setting .format),
   ("new-bytes", .setting .newBytes), ("changed-bytes", .setting .changedBytes),
   ("delta-ratio", .setting .deltaRatio), ("compress-ratio", .setting .compressRatio),
   ("rate", .setting .rate), ("chunk", .setting .chunk), ("volume", .setting .volume),
   ("pause-secs", .setting .pauseSecs)]

def Name.isGlobal : Name → Bool
  | .switch _ | .setting .config | .setting .interval | .setting .format => true
  | .setting _ => false

def Level.knows (l : Level) (n : Name) : Bool := n.isGlobal || decide (l = .simulate)

def Level.name? (l : Level) (s : List Char) : Option Name :=
  match names.find? fun e => decide (e.1.toList = s) with
  | some (_, n) => if l.knows n then some n else none
  | none => none

structure Given where
  noProgress : Bool
  dryRun : Bool
  config : Option (List Char)
  interval : Option UInt32
  format : Option Format
  newBytes : Option UInt64
  changedBytes : Option UInt64
  deltaRatio : Option Float
  compressRatio : Option Float
  rate : Option UInt64
  chunk : Option UInt64
  volume : Option UInt64
  pauseSecs : Option UInt64
  deriving DecidableEq

namespace Given

def nothing : Given :=
  ⟨false, false, none, none, none, none, none, none, none, none, none, none, none⟩

def has (g : Given) : Setting → Bool
  | .config => g.config.isSome
  | .interval => g.interval.isSome
  | .format => g.format.isSome
  | .newBytes => g.newBytes.isSome
  | .changedBytes => g.changedBytes.isSome
  | .deltaRatio => g.deltaRatio.isSome
  | .compressRatio => g.compressRatio.isSome
  | .rate => g.rate.isSome
  | .chunk => g.chunk.isSome
  | .volume => g.volume.isSome
  | .pauseSecs => g.pauseSecs.isSome

def path? (v : List Char) : Option (List Char) := if v.isEmpty then none else some v

def take {α : Type} (read : List Char → Option α) (e : UsageError) (put : α → Given)
    (v : List Char) : Except UsageError Given :=
  match read v with
  | some y => .ok (put y)
  | none => .error e

/-- An option that is already there is refused before its value is looked at. -/
def store (g : Given) (s : Setting) (v : List Char) : Except UsageError Given :=
  if g.has s then .error .repeated
  else match s with
    | .config => take path? .badChoice (fun p => { g with config := some p }) v
    | .interval => take halfWord? .badValue (fun n => { g with interval := some n }) v
    | .format => take format? .badChoice (fun f => { g with format := some f }) v
    | .newBytes => take word? .badValue (fun n => { g with newBytes := some n }) v
    | .changedBytes => take word? .badValue (fun n => { g with changedBytes := some n }) v
    | .deltaRatio => take float? .badValue (fun x => { g with deltaRatio := some x }) v
    | .compressRatio => take float? .badValue (fun x => { g with compressRatio := some x }) v
    | .rate => take word? .badValue (fun n => { g with rate := some n }) v
    | .chunk => take word? .badValue (fun n => { g with chunk := some n }) v
    | .volume => take word? .badValue (fun n => { g with volume := some n }) v
    | .pauseSecs => take word? .badValue (fun n => { g with pauseSecs := some n }) v

def turnOn (g : Given) : Switch → Except UsageError Given
  | .help => .error .help
  | .noProgress => if g.noProgress then .error .repeated else .ok { g with noProgress := true }
  | .dryRun => if g.dryRun then .error .repeated else .ok { g with dryRun := true }

end Given

inductive Pending where
  | nothing
  | awaiting (s : Setting)
  | value (s : Setting) (v : List Char)
  deriving DecidableEq

structure Reading where
  given : Given
  pending : Pending
  trailing : Bool
  deriving DecidableEq

namespace Reading

def fresh : Reading := ⟨.nothing, .nothing, false⟩

def settle (r : Reading) : Except UsageError Given :=
  match r.pending with
  | .nothing => .ok r.given
  | .awaiting _ => .error .badChoice
  | .value s v => r.given.store s v

def isAwaiting (r : Reading) : Bool :=
  match r.pending with
  | .awaiting _ => true
  | _ => false

def isBlank (r : Reading) : Bool := decide (r.given = .nothing) && decide (r.pending = .nothing)

def option (r : Reading) (n : Name) (attached : Option (List Char)) : Except UsageError Reading :=
  match n, attached with
  | .switch _, some _ => .error .needlessValue
  | .switch s, none => do
    let g ← r.settle
    let g ← g.turnOn s
    pure { r with given := g, pending := .nothing }
  | .setting s, some v => do
    let g ← r.settle
    let g ← g.store s v
    pure { r with given := g, pending := .nothing }
  | .setting s, none => do
    let g ← r.settle
    pure { r with given := g, pending := .awaiting s }

end Reading

inductive Word where
  | doubleDash
  | long (name : List Char) (attached : Option (List Char))
  | short (letters : List Char)
  | plain (text : List Char)
  deriving DecidableEq

def splitEquals (cs : List Char) : List Char × Option (List Char) :=
  match cs.dropWhile (· ≠ '=') with
  | _ :: v => (cs.takeWhile (· ≠ '='), some v)
  | [] => (cs, none)

def Word.ofText : List Char → Word
  | ['-', '-'] => .doubleDash
  | '-' :: '-' :: rest =>
    let (name, attached) := splitEquals rest
    .long name attached
  | ['-'] => .plain ['-']
  | '-' :: letters => .short letters
  | cs => .plain cs

inductive CommandWord where
  | simulate
  | config
  | help
  deriving DecidableEq

def CommandWord.ofText? (cs : List Char) : Option CommandWord :=
  if cs = "simulate".toList then some .simulate
  else if cs = "config".toList then some .config
  else if cs = "help".toList then some .help
  else none

def Level.strayWord (l : Level) (trailing : Bool) (cs : List Char) : UsageError :=
  match l with
  | .top =>
    if trailing && (CommandWord.ofText? cs).isSome then .unknownArgument else .unknownCommand
  | _ => .unknownArgument

def Level.read (l : Level) (r : Reading) (cs : List Char) : Except UsageError Reading :=
  if r.trailing then .error (l.strayWord true cs)
  else match Word.ofText cs with
    | .doubleDash => .ok { r with trailing := true }
    | .long name attached =>
      match l.name? name with
      | some n => r.option n attached
      | none => .error .unknownArgument
    | .short ('h' :: _) => r.option (.switch .help) none
    | .short _ => .error .unknownArgument
    | .plain v =>
      match r.pending with
      | .awaiting s => .ok { r with pending := .value s v }
      | _ => .error (l.strayWord false v)

def Level.readAll (l : Level) (words : List (List Char)) : Except UsageError Given := do
  let r ← words.foldlM l.read .fresh
  r.settle

def helpOn : List (List Char) → UsageError
  | [] => .help
  | [cs] => if (CommandWord.ofText? cs).isSome then .help else .unknownCommand
  | _ => .unknownCommand

inductive Command where
  | simulate (arguments : Simulation.Arguments)
  | config
  deriving DecidableEq

structure Invocation where
  config : Option (List Char)
  noProgress : Bool
  interval : Option UInt32
  dryRun : Bool
  format : Option Format
  command : Command
  deriving DecidableEq

namespace Given

def arguments (g : Given) : Simulation.Arguments :=
  let d := Simulation.Arguments.standard
  { newBytes := g.newBytes.getD d.newBytes
    changedBytes := g.changedBytes.getD d.changedBytes
    deltaRatio := g.deltaRatio.getD d.deltaRatio
    compressRatio := g.compressRatio.getD d.compressRatio
    rate := g.rate.getD d.rate
    chunk := g.chunk.getD d.chunk
    volume := g.volume.getD d.volume
    pauseSecs := g.pauseSecs }

end Given

def Invocation.join (before after : Given) (command : Command) : Invocation where
  config := after.config.or before.config
  noProgress := before.noProgress || after.noProgress
  interval := after.interval.or before.interval
  dryRun := before.dryRun || after.dryRun
  format := after.format.or before.format
  command := command

/-- The words after a command are read before the value that is still pending in front of it. -/
def Reading.command (r : Reading) (w : CommandWord) (rest : List (List Char)) :
    Except UsageError Invocation :=
  match w with
  | .help => .error (helpOn rest)
  | .config => do
    let after ← Level.config.readAll rest
    let before ← r.settle
    pure (.join before after .config)
  | .simulate => do
    let after ← Level.simulate.readAll rest
    let before ← r.settle
    pure (.join before after (.simulate after.arguments))

def Reading.noCommand (r : Reading) : UsageError :=
  match r.settle with
  | .error e => e
  | .ok _ => if r.isBlank then .missingArguments else .missingCommand

def parseFrom (r : Reading) : List (List Char) → Except UsageError Invocation
  | [] => .error r.noCommand
  | w :: rest =>
    match if r.trailing || r.isAwaiting then none else CommandWord.ofText? w with
    | some c => r.command c rest
    | none =>
      match Level.top.read r w with
      | .ok r => parseFrom r rest
      | .error e => .error e

def parse (words : List String) : Except UsageError Invocation :=
  parseFrom .fresh (words.map String.toList)

def Invocation.apply (i : Invocation) (c : Config) : Config :=
  { c with
    enabled := c.enabled && !i.noProgress
    intervalSecs := i.interval.getD c.intervalSecs
    dryRun := c.dryRun || i.dryRun
    format := i.format.getD c.format }

end Headway.CommandLine
