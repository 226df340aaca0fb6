import Headway.Proofs.CommandLine.Placement
import Headway.Proofs.Program.Run

namespace Headway.Program

open CommandLine FileTree

open Toml (isPlain)

variable {home : Home} {t : FileTree} {words : List String} {i : Invocation} {text q : String}
  {base c : Config}

def shown (path : String) (c : Config) : String :=
  "# " ++ path ++ "\n" ++ String.ofList c.lines

structure RoundTrip (c : Config) : Prop where
  back : ∀ toml, c.toToml? = some toml → Config.ofToml? toml = some c
  refused : c.toToml? = none ↔
    9223372036854775807 < c.stallFloorSecs.toNat ∨ 9223372036854775807 < c.rateWindow.toNat

theorem roundTrip (c : Config) : RoundTrip c := by
  constructor
  · intro toml h
    obtain ⟨hw, rfl⟩ := Config.toToml?_eq_some_iff.mp h
    exact Config.ofToml?_lines hw
  · rw [Config.toToml?]
    split_ifs with h
    · simp only [false_iff, Toml.wordEnd] at h ⊢
      omega
    · simp only [true_iff, Toml.wordEnd] at h ⊢
      omega

theorem showConfig_eq (h : c.Writable) (path : String) :
    showConfig c path = ⟨[⟨start, shown path c⟩], .done⟩ := by
  rw [showConfig, Config.toToml?_eq_some_iff.mpr ⟨h, rfl⟩]
  rfl

theorem load_shown {path : String} (hw : c.Writable) (hvalid : c.validate = .ok ())
    (hpath : ∀ x ∈ path.toList, isPlain x = true) (q : String) :
    Config.load q (.ok (shown path c)) = .ok c := by
  apply Config.load_eq_ok_iff.mpr
  refine ⟨?_, hvalid⟩
  have hnotes : ∀ cs ∈ [' ' :: path.toList], ∀ x ∈ cs, isPlain x = true := by
    simp only [List.forall_mem_cons, List.not_mem_nil, false_implies, implies_true, and_true]
    exact ⟨rfl, hpath⟩
  have htext : (shown path c).toList =
      [' ' :: path.toList].flatMap (fun cs => '#' :: cs ++ ['\n']) ++ c.lines := by
    simp [shown, String.toList_append]
  rw [htext]
  exact Config.ofToml?_written hw hnotes

theorem run_config (hparse : parse words = .ok i) (hcommand : i.command = .config)
    (hread : (opened home t).read (source home i) = .ok text)
    (hload : Config.load (source home i) (.ok text) = .ok base)
    (hvalid : (i.apply base).validate = .ok ()) :
    (run storage home words t).1 =
      ⟨[⟨start, shown (source home i) (i.apply base)⟩], .done⟩ := by
  -- the command line leaves both large numbers as they are in the file
  have hbase : base.Writable := Config.writable_of_load hload
  have hw : (i.apply base).Writable := hbase
  rw [run_of_ok hparse, found, baseConfig_of_read hread, hload]
  simp only [Except.mapError, Except.map, conclude, hvalid, hcommand, execute]
  exact showConfig_eq hw _

def asking (q : String) : Invocation := ⟨some q.toList, false, none, false, none, .config⟩

theorem apply_asking (q : String) (c : Config) : (asking q).apply c = c := by
  simp [Invocation.apply, asking]

theorem ne_nil_of_read (h : t.read q = .ok text) : q.toList ≠ [] := by
  intro hq
  obtain ⟨p, hp, ht⟩ := read_eq_ok_iff.mp h
  -- without a name the working directory itself is meant
  have hwalk : t.walk t.workingDirectory [[]] = .ok p := by
    rw [place, origin, hq] at hp
    exact hp
  rw [walk] at hwalk
  split at hwalk
  next hd =>
    simp only [true_or, if_true, walk] at hwalk
    cases hwalk
    rw [hd] at ht
    cases ht
  next => cases hwalk
  next => cases hwalk

theorem parse_asking {c : Choice} (hc : c = .attached .config q ∨
      c = .apart .config q ∧ Word.ofText q.toList = .plain q.toList) (hq : q.toList ≠ []) :
    parse (Line.words ⟨[c], .config, []⟩) = .ok (asking q) := by
  have hpath : Given.path? q.toList = some q.toList := path?_eq_some_iff.mpr ⟨rfl, hq⟩
  have hname : c.name = .setting .config := by
    obtain rfl | ⟨rfl, -⟩ := hc
    · rfl
    · rfl
  have hproper : Line.Proper ⟨[c], .config, []⟩ := by
    refine ⟨⟨?_, by simp, by simp⟩, ?_⟩
    · intro d hd
      rw [List.mem_singleton.mp hd]
      obtain rfl | ⟨rfl, hplain⟩ := hc
      · trivial
      · exact written_of_plain hplain
    · intro d hd
      rw [List.mem_singleton.mp hd]
      obtain rfl | ⟨rfl, -⟩ := hc
      · exact ⟨q.toList, rfl, hq⟩
      · exact ⟨q.toList, rfl, hq⟩
  have hplaced : ¬Line.Misplaced ⟨[c], .config, []⟩ := by
    simp [Line.Misplaced, hname, Name.isGlobal]
  rw [parse_placed hproper hplaced]
  obtain rfl | ⟨rfl, -⟩ := hc
  · simp [Line.invocation, Line.chosen, Line.turned, value?, Choice.value?, hpath, asking,
      Verb.command]
  · simp [Line.invocation, Line.chosen, Line.turned, value?, Choice.value?, hpath, asking,
      Verb.command]

structure Reproduced (home : Home) (t : FileTree) (words : List String) (path : String)
    (c : Config) : Prop where
  written : c.toToml? = some c.lines
  printed : (run storage home words t).1 = ⟨[⟨start, shown path c⟩], .done⟩
  loaded : (∀ x ∈ path.toList, isPlain x = true) → ∀ q,
    Config.load q (.ok (run storage home words t).1.text) = .ok c
  again : (∀ x ∈ path.toList, isPlain x = true) → ∀ home' t' q,
    (opened home' t').read q = .ok (run storage home words t).1.text →
      (run storage home' ["--config=" ++ q, "config"] t').1 =
          ⟨[⟨start, shown q c⟩], .done⟩ ∧
        (Word.ofText q.toList = .plain q.toList →
          (run storage home' ["--config", q, "config"] t').1 = ⟨[⟨start, shown q c⟩], .done⟩)

theorem reproduced (hparse : parse words = .ok i) (hcommand : i.command = .config)
    (hread : (opened home t).read (source home i) = .ok text)
    (hload : Config.load (source home i) (.ok text) = .ok base)
    (hvalid : (i.apply base).validate = .ok ()) :
    Reproduced home t words (source home i) (i.apply base) := by
  have hbase : base.Writable := Config.writable_of_load hload
  have hw : (i.apply base).Writable := hbase
  have hprinted := run_config hparse hcommand hread hload hvalid
  have htext : (run storage home words t).1.text = shown (source home i) (i.apply base) := by
    rw [hprinted]
    simp [Outcome.text, String.join]
  have hloaded : (∀ x ∈ (source home i).toList, isPlain x = true) → ∀ q,
      Config.load q (.ok (run storage home words t).1.text) = .ok (i.apply base) := by
    intro hpath q
    rw [htext]
    exact load_shown hw hvalid hpath q
  refine ⟨Config.toToml?_eq_some_iff.mpr ⟨hw, rfl⟩, hprinted, hloaded, ?_⟩
  intro hpath home' t' q hread'
  have hq := ne_nil_of_read hread'
  have hsource : source home' (asking q) = q := String.ofList_toList
  have hagain {words' : List String} (h : parse words' = .ok (asking q)) :
      (run storage home' words' t').1 = ⟨[⟨start, shown q (i.apply base)⟩], .done⟩ := by
    rw [← hsource] at hread'
    have hrun := run_config h rfl hread' (hloaded hpath _) (by rw [apply_asking]; exact hvalid)
    rw [hrun, hsource, apply_asking]
  constructor
  · exact hagain (parse_asking (.inl rfl) hq)
  · intro hplain
    exact hagain (parse_asking (.inr ⟨rfl, hplain⟩) hq)

theorem settings_reproduced :
    (∀ c, RoundTrip c) ∧
      ∀ home t words i text base, parse words = .ok i → i.command = .config →
        (opened home t).read (source home i) = .ok text →
          Config.load (source home i) (.ok text) = .ok base →
            (i.apply base).validate = .ok () →
              Reproduced home t words (source home i) (i.apply base) :=
  ⟨roundTrip, fun _ _ _ _ _ _ => reproduced⟩

def house : Home := ⟨"/c", "/s"⟩

def mixedText : String :=
  "rate_window = 1_2 # rates\ninterval_secs = 0x9\ncolour = \"red\"\n[format.json]\n"

def furnished : FileTree :=
  ⟨[], [(["c".toList], .directory), (["c".toList, "progest".toList], .directory),
    (["c".toList, "progest".toList, "config.toml".toList],
      .text mixedText)]⟩

theorem settings_reproduced_furnished :
    Reproduced house furnished ["--interval", "5", "config", "--dry-run"] house.configPath
        ⟨true, 5, true, .json, 5, 12⟩ ∧
      (run storage house ["--interval", "5", "config", "--dry-run"] furnished).1.text =
        "# /c/progest/config.toml\nenabled = true\ninterval_secs = 5\ndry_run = true\n" ++
          "format = \"json\"\nstall_floor_secs = 5\nrate_window = 12\n" := by
  constructor
  · exact settings_reproduced.2 house furnished _ ⟨none, false, some 5, true, none, .config⟩ mixedText
      ⟨true, 9, false, .json, 5, 12⟩ rfl rfl (by decide +kernel) (by decide +kernel) rfl
  · decide +kernel

end Headway.Program
