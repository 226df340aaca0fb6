import Headway.Proofs.CommandLine.Placement
import Headway.Proofs.Program.Run

namespace Headway.Program

open CommandLine FileTree

open Toml (Node Origin Entries wordEnd)

variable {home : Home} {t : FileTree} {words : List String} {i : Invocation} {x : Line}
  {base : Config} {entries : Entries}

section Layers

end Layers

section Understood

def crowded : Line :=
  ⟨[.apart .interval "5", .switch .dryRun, .attached .format "json"], .simulate,
    [.attached .rate "100", .apart .interval "+007", .apart .format "text"]⟩

end Understood

end Headway.Program
