import Headway.Proofs.Program.Run

namespace Headway.Program

open CommandLine FileTree

variable {home : Home} {t t' : FileTree} {words : List String} {i : Invocation}

section Files

theorem resolve_configPath (home : Home) (t : FileTree) :
    t.resolve home.configPath = t.resolve home.configDirectory ++ ["config.toml".toList] := by
  have hdir : home.configDirectory.toList ≠ [] := toList_append_ne_nil (by decide)
  have hname : split "config.toml".toList = ["config.toml".toList] := by decide
  rw [configPath_eq, resolve_append t hdir hname]
  rfl

theorem resolve_logPath (home : Home) (t : FileTree) :
    t.resolve home.logPath = t.resolve home.stateDirectory ++ ["progest.log".toList] := by
  have hdir : home.stateDirectory.toList ≠ [] := toList_append_ne_nil (by decide)
  have hname : split "progest.log".toList = ["progest.log".toList] := by decide
  rw [logPath_eq, resolve_append t hdir hname]
  rfl

theorem configPath_ne_logPath (home : Home) (t : FileTree) :
    t.resolve home.configPath ≠ t.resolve home.logPath := by
  rw [resolve_configPath, resolve_logPath]
  intro h
  have hlast := (List.append_inj' h (by simp only [List.length_singleton])).2
  revert hlast
  decide

theorem grows_opened (home : Home) (t : FileTree) :
    Grows (t.resolve home.logPath) t (opened home t) ∧
      NewOnly (t.resolve home.logPath) t (opened home t) := by
  have hdir := grows_makeDirectories (t.resolve home.logPath) t home.stateDirectory
  rw [opened_eq]
  rcases hmake : t.makeDirectories home.stateDirectory with ⟨t', e | u⟩
  · rw [hmake] at hdir
    exact hdir
  · rw [hmake] at hdir
    rw [← hdir.1.resolve]
    rw [← hdir.1.resolve] at hdir
    have happend := grows_append t' home.logPath
      ("progest logging initialized at " ++ home.logPath ++ "\n")
    exact ⟨hdir.1.trans happend.1, hdir.2.trans happend.2⟩

def prepared (home : Home) (t : FileTree) : FileTree :=
  ((opened home t).makeDirectories home.configDirectory).1

theorem grows_prepared (home : Home) (t : FileTree) :
    Grows (t.resolve home.logPath) t (prepared home t) ∧
      NewOnly (t.resolve home.logPath) t (prepared home t) := by
  obtain ⟨hg, hn⟩ := grows_opened home t
  obtain ⟨hg', hn'⟩ := grows_makeDirectories (t.resolve home.logPath) (opened home t)
    home.configDirectory
  exact ⟨hg.trans hg', hn.trans hn'⟩

structure Creates (home : Home) (t : FileTree) (words : List String) : Prop where
  parsed : ∃ i, parse words = .ok i ∧ i.config = none
  vacant : t.get (t.resolve home.configPath) = none
  directories : ((opened home t).makeDirectories home.configDirectory).2 = .ok ()
  written : ((prepared home t).write home.configPath standardText).2 = .ok ()

theorem Creates.write_eq (h : Creates home t words) :
    (prepared home t).place home.configPath = .ok (t.resolve home.configPath) ∧
      (prepared home t).get (t.resolve home.configPath) = none ∧
      (prepared home t).write home.configPath standardText =
        ((prepared home t).put (t.resolve home.configPath) (.text standardText), .ok ()) := by
  obtain ⟨hg, hn⟩ := grows_prepared home t
  obtain ⟨e, hw⟩ | ⟨hp, hget⟩ := change_cases (prepared home t) home.configPath
    fun _ => .text standardText
  · have hok := h.written
    rw [write, hw] at hok
    cases hok
  · rw [hg.resolve] at hp hget
    obtain ⟨e, he, hne, -⟩ | ⟨hnone, hw⟩ := hget
    · -- what stands there would be older than the run, a directory, or the log
      rcases hn _ _ he with hold | hdir | hlog
      · rw [h.vacant] at hold
        cases hold
      · exact absurd hdir hne
      · exact absurd hlog (configPath_ne_logPath home t)
    · exact ⟨hp, hnone, hw⟩

theorem Creates.baseConfig_eq (h : Creates home t words) (hi : i.config = none) :
    baseConfig storage home i (opened home t) =
      (.ok (.standard, home.configPath),
        (prepared home t).put (t.resolve home.configPath) (.text standardText)) := by
  obtain ⟨hp, hnone, hw⟩ := h.write_eq
  have habsent : (prepared home t).Absent home.configPath := by
    left
    rw [FileTree.read, hp]
    simp only
    rw [hnone]
  have hdir : (opened home t).makeDirectories home.configDirectory =
      (prepared home t, .ok ()) := Prod.ext rfl h.directories
  rw [baseConfig_of_none hi, storedConfig_of_absent hdir habsent, hw]
  rfl

theorem creates_of_write (hparse : parse words = .ok i) (hi : i.config = none)
    (hmake : (opened home t).makeDirectories home.configDirectory = (prepared home t, .ok ()))
    (hnone : (prepared home t).get (t.resolve home.configPath) = none)
    (hw : ((prepared home t).write home.configPath standardText).2 = .ok ()) :
    Creates home t words := by
  refine ⟨⟨i, hparse, hi⟩, ?_, by rw [hmake], hw⟩
  by_contra hold
  obtain ⟨e, he⟩ := Option.ne_none_iff_exists'.mp hold
  rw [(grows_prepared home t).1.kept _ e he (.inl (configPath_ne_logPath home t))] at hnone
  cases hnone

theorem files_cases (home : Home) (t : FileTree) (words : List String) :
    Creates home t words ∧ (run storage home words t).2 =
        (prepared home t).put (t.resolve home.configPath) (.text standardText) ∨
      ¬Creates home t words ∧ ((run storage home words t).2 = opened home t ∨
        (run storage home words t).2 = prepared home t) := by
  by_cases hc : Creates home t words
  · left
    obtain ⟨i, hparse, hi⟩ := hc.parsed
    rw [run_of_ok hparse, hc.baseConfig_eq hi]
    exact ⟨hc, rfl⟩
  · refine .inr ⟨hc, ?_⟩
    cases hparse : parse words with
    | error e =>
      rw [run_of_error hparse]
      exact .inl rfl
    | ok i =>
      rw [run_of_ok hparse]
      cases hi : i.config with
      | some path =>
        left
        rw [baseConfig_of_some hi]
      | none =>
        right
        rw [baseConfig_of_none hi]
        simp only
        rcases hmake : (opened home t).makeDirectories home.configDirectory with ⟨t', e | u⟩
        · rw [storedConfig_of_error hmake, prepared, hmake]
        · obtain rfl : t' = prepared home t := by rw [prepared, hmake]
          by_cases ha : (prepared home t).Absent home.configPath
          · rw [storedConfig_of_absent hmake ha]
            obtain ⟨e, hw⟩ | ⟨-, hnone, hw⟩ := write_of_absent ha standardText
            · rw [hw]
            · rw [(grows_prepared home t).1.resolve] at hnone
              exact absurd (creates_of_write hparse hi hmake hnone (by rw [hw])) hc
          · rw [storedConfig_of_present hmake ha]

theorem grows_run (home : Home) (t : FileTree) (words : List String) :
    Grows (t.resolve home.logPath) t (run storage home words t).2 := by
  obtain ⟨hg, -⟩ := grows_prepared home t
  obtain ⟨hc, h⟩ | ⟨-, h | h⟩ := files_cases home t words
  · rw [h]
    exact hg.trans (grows_put hc.write_eq.2.1 _ _)
  · rw [h]
    exact (grows_opened home t).1
  · rw [h]
    exact hg

theorem new_run {p : Path} {e : Entry} (he : (run storage home words t).2.get p = some e)
    (hne : e ≠ .directory) (hlog : p ≠ t.resolve home.logPath) :
    t.get p = some e ∨
      p = t.resolve home.configPath ∧ e = .text standardText ∧ Creates home t words := by
  obtain ⟨-, hn⟩ := grows_prepared home t
  have hplain {t' : FileTree} (hn : NewOnly (t.resolve home.logPath) t t')
      (he : t'.get p = some e) : t.get p = some e := by
    rcases hn p e he with hold | hdir | hp
    · exact hold
    · exact absurd hdir hne
    · exact absurd hp hlog
  obtain ⟨hc, h⟩ | ⟨-, h | h⟩ := files_cases home t words
  · rw [h] at he
    by_cases hp : p = t.resolve home.configPath
    · subst hp
      rw [get_put (ne_nil_of_get hc.write_eq.2.1)] at he
      exact .inr ⟨rfl, (Option.some.inj he).symm, hc⟩
    · rw [get_put_of_ne hp] at he
      exact .inl (hplain hn he)
  · rw [h] at he
    exact .inl (hplain (grows_opened home t).2 he)
  · rw [h] at he
    exact .inl (hplain hn he)

theorem Creates.read_run (h : Creates home t words) :
    (run storage home words t).2.read home.configPath = .ok standardText := by
  obtain ⟨-, hrun⟩ | ⟨hc, -⟩ := files_cases home t words
  · obtain ⟨hp, hnone, -⟩ := h.write_eq
    rw [hrun]
    exact read_put hp hnone standardText
  · exact absurd h hc

end Files

section Lasting

def after (home : Home) (t : FileTree) (runs : List (List String)) : FileTree :=
  runs.foldl (fun t words => (run storage home words t).2) t

theorem after_append (home : Home) (t : FileTree) (runs later : List (List String)) :
    after home t (runs ++ later) = after home (after home t runs) later := List.foldl_append

theorem grows_after (home : Home) (t : FileTree) (runs : List (List String)) :
    Grows (t.resolve home.logPath) t (after home t runs) := by
  induction runs generalizing t with
  | nil => exact grows_refl _ t
  | cons words runs ih =>
    have hrun := grows_run home t words
    have hrest := ih (run storage home words t).2
    rw [hrun.resolve] at hrest
    exact hrun.trans hrest

theorem found_of_standard (hi : i.config = none)
    (h : (opened home t).read home.configPath = .ok standardText) :
    found home t i = .ok (.standard, home.configPath) := by
  have hs : source home i = home.configPath := by rw [source, hi, Option.elim_none]
  have h' : (opened home t).read (source home i) = .ok standardText := by rw [hs, h]
  rw [found, baseConfig_of_read h', hs, load_standardText]
  rfl

structure Lasting (home : Home) (t : FileTree) (runs : List (List String)) : Prop where
  kept : ∀ p e, t.get p = some e → p ≠ t.resolve home.logPath →
    (after home t runs).get p = some e
  readable : ∀ path s, t.read path = .ok s → t.resolve path ≠ t.resolve home.logPath →
    (after home t runs).read path = .ok s
  stored : ∀ s, t.read home.configPath = .ok s → (after home t runs).read home.configPath = .ok s
  new : ∀ words p e, (after home t (runs ++ [words])).get p = some e → e ≠ .directory →
    p ≠ t.resolve home.logPath → (after home t runs).get p = some e ∨
      p = t.resolve home.configPath ∧ e = .text standardText ∧ Creates home (after home t runs) words
  created : ∀ words, Creates home (after home t runs) words → ∃ toml,
    Config.standard.toToml? = some toml ∧
      (after home t (runs ++ [words])).read home.configPath = .ok (String.ofList toml)
  idle : ∀ words, (∀ i, parse words = .ok i → i.config ≠ none) → ∀ p e,
    (after home t (runs ++ [words])).get p = some e → e ≠ .directory →
      p ≠ t.resolve home.logPath → (after home t runs).get p = some e
  settled : ∀ before words later, runs = before ++ words :: later →
    Creates home (after home t before) words →
    ∀ words' i, parse words' = .ok i → i.config = none →
      (opened home (after home t runs)).read home.configPath = .ok standardText ∧
      found home (after home t runs) i = .ok (.standard, home.configPath) ∧
      (run storage home words' (after home t runs)).1 =
        (run storage home words' (after home t before)).1

theorem lasting (home : Home) (t : FileTree) (runs : List (List String)) :
    Lasting home t runs := by
  have hg := grows_after home t runs
  have hafter (words : List String) :
      after home t (runs ++ [words]) = (run storage home words (after home t runs)).2 :=
    after_append home t runs [words]
  have hread {t' : FileTree} (runs : List (List String))
      (h : t'.read home.configPath = .ok standardText) :
      (after home t' runs).read home.configPath = .ok standardText :=
    (grows_after home t' runs).read h (configPath_ne_logPath home t')
  have hnew : ∀ words p e, (after home t (runs ++ [words])).get p = some e → e ≠ .directory →
      p ≠ t.resolve home.logPath → (after home t runs).get p = some e ∨
        p = t.resolve home.configPath ∧ e = .text standardText ∧
          Creates home (after home t runs) words := by
    intro words p e he hne hlog
    rw [hafter] at he
    rw [← hg.resolve] at hlog ⊢
    exact new_run he hne hlog
  refine ⟨?_, ?_, ?_, hnew, ?_, ?_, ?_⟩
  · intro p e he hp
    exact hg.kept p e he (.inl hp)
  · intro path s hs hp
    exact hg.read hs hp
  · intro s hs
    exact hg.read hs (configPath_ne_logPath home t)
  · intro words hc
    refine ⟨Config.standard.lines, rfl, ?_⟩
    rw [hafter]
    exact hc.read_run
  · intro words hwords p e he hne hlog
    obtain hold | ⟨-, -, hc⟩ := hnew words p e he hne hlog
    · exact hold
    · obtain ⟨i, hparse, hi⟩ := hc.parsed
      exact absurd hi (hwords i hparse)
  · rintro before words later rfl hc words' i hparse hi
    have hlater : after home t (before ++ words :: later) =
        after home (run storage home words (after home t before)).2 later :=
      after_append home t before (words :: later)
    have hstored : (opened home (after home t (before ++ words :: later))).read home.configPath =
        .ok standardText := by
      rw [hlater]
      exact (grows_opened home _).1.read (hread later hc.read_run) (configPath_ne_logPath home _)
    have hfound := found_of_standard hi hstored
    refine ⟨hstored, hfound, ?_⟩
    have hfirst : found home (after home t before) i = .ok (.standard, home.configPath) := by
      rw [found, hc.baseConfig_eq hi]
    rw [run_of_ok hparse, run_of_ok hparse, hfound, hfirst]

/-- The first run fails for its interval, and leaves the settings behind all the same. -/
example :
    let home : Home := ⟨"/c", "/s"⟩
    let t := after home ⟨[], []⟩ [["--interval", "0", "config"]]
    Creates home ⟨[], []⟩ ["--interval", "0", "config"] ∧
      t.read home.configPath = .ok standardText ∧
      (run storage home ["--interval", "0", "config"] t).1.ending =
        .failed Refusal.zeroInterval.message := by
  refine ⟨⟨⟨_, rfl, rfl⟩, by decide +kernel, by decide +kernel, by decide +kernel⟩,
    by decide +kernel, by decide +kernel⟩

end Lasting

end Headway.Program
