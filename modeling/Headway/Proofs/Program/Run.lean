import Headway.Program
import Headway.Proofs.Config.Written
import Headway.Proofs.FileTree.Growth

namespace Headway.Program

open CommandLine FileTree

variable {home : Home} {t t' : FileTree} {words : List String} {i : Invocation} {s : String}

def opened (home : Home) (t : FileTree) : FileTree := (openLog storage home t).2

def found (home : Home) (t : FileTree) (i : Invocation) : Except String (Config × String) :=
  (baseConfig storage home i (opened home t)).1

def conclude (i : Invocation) : Except String (Config × String) → Outcome
  | .error message => .failed message
  | .ok (base, source) =>
    match (i.apply base).validate with
    | .error reason => .failed reason.message
    | .ok () => execute (i.apply base) source i.command

def source (home : Home) (i : Invocation) : String := i.config.elim home.configPath String.ofList

theorem opened_eq (home : Home) (t : FileTree) :
    opened home t = match t.makeDirectories home.stateDirectory with
      | (t, .ok ()) => (t.append home.logPath
          ("progest logging initialized at " ++ home.logPath ++ "\n")).1
      | (t, .error _) => t := by
  simp only [opened, openLog, bind, StateT.bind, storage]
  rcases t.makeDirectories home.stateDirectory with ⟨t₁, _ | _⟩ <;> rfl

theorem run_of_error {e : UsageError} (h : parse words = .error e) (home : Home) (t : FileTree) :
    run storage home words t = (⟨[], .usage e⟩, opened home t) := by
  unfold run
  rw [h]
  rfl

theorem run_of_ok (h : parse words = .ok i) (home : Home) (t : FileTree) :
    run storage home words t =
      (conclude i (found home t i), (baseConfig storage home i (opened home t)).2) := by
  have hrun : run storage home words t =
      (match found home t i with
      | .error message => (pure (.failed message) : StateM FileTree Outcome)
      | .ok (base, source) =>
        match (i.apply base).validate with
        | .error reason => pure (.failed reason.message)
        | .ok () => pure (execute (i.apply base) source i.command))
        (baseConfig storage home i (opened home t)).2 := by
    unfold run
    rw [h]
    rfl
  rw [hrun]
  cases found home t i with
  | error message => rfl
  | ok b =>
    simp only [conclude]
    cases (i.apply b.1).validate <;> rfl

def standardText : String := String.ofList Config.standard.lines

theorem load_standardText (path : String) :
    Config.load path (.ok standardText) = .ok .standard := by
  apply Config.load_eq_ok_iff.mpr
  refine ⟨?_, rfl⟩
  have hw : Config.standard.Writable := ⟨by decide, by decide⟩
  rw [standardText, String.toList_ofList]
  exact Config.ofToml?_lines hw

theorem storedConfig_of_error {e : FileError}
    (h : t.makeDirectories home.configDirectory = (t', .error e)) :
    storedConfig storage home t = (.error e.message, t') := by
  simp only [storedConfig, bind, StateT.bind, storage, h]
  rfl

theorem storedConfig_of_present (h : t.makeDirectories home.configDirectory = (t', .ok ()))
    (hp : ¬t'.Absent home.configPath) :
    storedConfig storage home t =
      ((Config.load home.configPath (t'.read home.configPath)).mapError LoadError.chain, t') := by
  simp only [storedConfig, bind, StateT.bind, storage, h]
  rw [Absent] at hp
  cases hr : t'.read home.configPath with
  | ok s => rfl
  | error e =>
    cases e with
    | missing => exact absurd (.inl hr) hp
    | nameTooLong => exact absurd (.inr hr) hp
    | alreadyThere | notADirectory | isADirectory | notText | other => rfl

theorem storedConfig_of_absent (h : t.makeDirectories home.configDirectory = (t', .ok ()))
    (ha : t'.Absent home.configPath) :
    storedConfig storage home t =
      (((t'.write home.configPath standardText).2.mapError FileError.message).map
        fun _ => .standard, (t'.write home.configPath standardText).1) := by
  have hwrite : ∃ t'' r, t'.write home.configPath standardText = (t'', r) := ⟨_, _, rfl⟩
  obtain ⟨t'', r, hw⟩ := hwrite
  rw [hw]
  rw [standardText] at hw
  simp only [storedConfig, bind, StateT.bind, storage, h]
  rcases ha with ha | ha <;> rw [ha] <;> simp only [StateT.bind, hw] <;> cases r <;> rfl

theorem baseConfig_of_some {path : List Char} (h : i.config = some path) (home : Home)
    (t : FileTree) :
    baseConfig storage home i t =
      (((Config.load (String.ofList path) (t.read (String.ofList path))).mapError
        LoadError.chain).map fun c => (c, String.ofList path), t) := by
  unfold baseConfig
  rw [h]
  rfl

theorem baseConfig_of_none (h : i.config = none) (home : Home) (t : FileTree) :
    baseConfig storage home i t =
      ((storedConfig storage home t).1.map fun c => (c, home.configPath),
        (storedConfig storage home t).2) := by
  unfold baseConfig
  rw [h]
  rfl

theorem configPath_eq (home : Home) :
    home.configPath = home.configDirectory ++ "/" ++ "config.toml" := by
  rw [String.append_assoc]
  rfl

theorem logPath_eq (home : Home) : home.logPath = home.stateDirectory ++ "/" ++ "progest.log" := by
  rw [String.append_assoc]
  rfl

theorem toList_append_ne_nil {s t : String} (h : t.toList ≠ []) : (s ++ t).toList ≠ [] := by
  simp [String.toList_append, h]

theorem baseConfig_of_read (h : t.read (source home i) = .ok s) :
    baseConfig storage home i t =
      (((Config.load (source home i) (.ok s)).mapError LoadError.chain).map
        fun c => (c, source home i), t) := by
  rw [source] at h ⊢
  cases hi : i.config with
  | some path =>
    rw [hi, Option.elim_some] at h
    rw [baseConfig_of_some hi, Option.elim_some, h]
  | none =>
    rw [hi, Option.elim_none] at h
    have hdir : t.makeDirectories home.configDirectory = (t, .ok ()) := by
      rw [configPath_eq] at h
      exact makeDirectories_of_read (toList_append_ne_nil (by decide)) (by decide) h
    have hp : ¬t.Absent home.configPath := by
      rw [Absent, h]
      simp
    rw [baseConfig_of_none hi, storedConfig_of_present hdir hp, h, Option.elim_none]

end Headway.Program
