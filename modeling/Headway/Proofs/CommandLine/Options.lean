import Mathlib.Data.List.Perm.Basic
import Headway.Proofs.CommandLine.Values

namespace Headway.CommandLine

def Name.text : Name → String
  | .switch .noProgress => "no-progress"
  | .switch .dryRun => "dry-run"
  | .switch .help => "help"
  | .setting .config => "config"
  | .setting .interval => "interval"
  | .setting .format => "format"
  | .setting .newBytes => "new-bytes"
  | .setting .changedBytes => "changed-bytes"
  | .setting .deltaRatio => "delta-ratio"
  | .setting .compressRatio => "compress-ratio"
  | .setting .rate => "rate"
  | .setting .chunk => "chunk"
  | .setting .volume => "volume"
  | .setting .pauseSecs => "pause-secs"

/-- An option as it is written: alone, with its value after an equals sign, or with its value as the
next word. -/
inductive Choice where
  | switch (s : Switch)
  | attached (s : Setting) (v : String)
  | apart (s : Setting) (v : String)
  deriving DecidableEq

namespace Choice

def name : Choice → Name
  | .switch s => .switch s
  | .attached s _ | .apart s _ => .setting s

def words : Choice → List String
  | .switch s => ["--" ++ (Name.switch s).text]
  | .attached s v => ["--" ++ (Name.setting s).text ++ "=" ++ v]
  | .apart s v => ["--" ++ (Name.setting s).text, v]

def value? (c : Choice) (s : Setting) : Option (List Char) :=
  match c with
  | .switch _ => none
  | .attached s' v | .apart s' v => if s' = s then some v.toList else none

def Written : Choice → Prop
  | .switch s => s ≠ .help
  | .attached _ _ => True
  | .apart _ v => v.toList = ['-'] ∨ v.toList.head? ≠ some '-'

def Acceptable : Choice → Prop
  | .switch _ => True
  | .attached s v | .apart s v => Allowed s v.toList

def refusal : Choice → UsageError
  | .switch _ => .help
  | .attached s _ | .apart s _ => s.refusal

end Choice

def value? (cs : List Choice) (s : Setting) : Option (List Char) := cs.findSome? (·.value? s)

def given (cs : List Choice) : Given where
  noProgress := decide (.switch .noProgress ∈ cs)
  dryRun := decide (.switch .dryRun ∈ cs)
  config := (value? cs .config).bind Given.path?
  interval := (value? cs .interval).bind halfWord?
  format := (value? cs .format).bind format?
  newBytes := (value? cs .newBytes).bind word?
  changedBytes := (value? cs .changedBytes).bind word?
  deltaRatio := (value? cs .deltaRatio).bind float?
  compressRatio := (value? cs .compressRatio).bind float?
  rate := (value? cs .rate).bind word?
  chunk := (value? cs .chunk).bind word?
  volume := (value? cs .volume).bind word?
  pauseSecs := (value? cs .pauseSecs).bind word?

variable {c : Choice} {cs cs' : List Choice} {l : Level} {n : Name} {r : Reading} {g : Given}
  {s : Setting} {v : String} {e : UsageError}

section Spelling

theorem find_text (n : Name) :
    names.find? (fun e => decide (e.1.toList = n.text.toList)) = some (n.text, n) := by
  cases n with
  | switch s => cases s <;> rfl
  | setting s => cases s <;> rfl

theorem name?_text (l : Level) (n : Name) :
    l.name? n.text.toList = if l.knows n then some n else none := by
  rw [Level.name?, find_text]

theorem text_plain (n : Name) : n.text.toList ≠ [] ∧ '=' ∉ n.text.toList := by
  cases n with
  | switch s => cases s <;> decide
  | setting s => cases s <;> decide

theorem forall_ne_equals {cs : List Char} (h : '=' ∉ cs) : ∀ x ∈ cs, decide (x ≠ '=') = true := by
  intro x hx
  exact decide_eq_true fun he => h (he ▸ hx)

theorem splitEquals_plain {cs : List Char} (h : '=' ∉ cs) : splitEquals cs = (cs, none) := by
  have hdrop : cs.dropWhile (· ≠ '=') = [] := List.dropWhile_eq_nil_iff.mpr (forall_ne_equals h)
  rw [splitEquals, hdrop]

theorem splitEquals_append {cs : List Char} (h : '=' ∉ cs) (v : List Char) :
    splitEquals (cs ++ '=' :: v) = (cs, some v) := by
  have hp := forall_ne_equals h
  rw [splitEquals, List.dropWhile_append_of_pos hp, List.takeWhile_append_of_pos hp]
  simp

theorem ofText_long {cs : List Char} (h : cs ≠ []) :
    Word.ofText ('-' :: '-' :: cs) = .long (splitEquals cs).1 (splitEquals cs).2 := by
  obtain ⟨c, rest, rfl⟩ := List.exists_cons_of_ne_nil h
  rfl

theorem toList_text (n : Name) : ("--" ++ n.text).toList = '-' :: '-' :: n.text.toList := by
  simp [String.toList_append]

theorem toList_attached (n : Name) (v : String) :
    ("--" ++ n.text ++ "=" ++ v).toList = '-' :: '-' :: (n.text.toList ++ '=' :: v.toList) := by
  simp [String.toList_append]

theorem ofText_text (n : Name) :
    Word.ofText ("--" ++ n.text).toList = .long n.text.toList none := by
  rw [toList_text, ofText_long (text_plain n).1, splitEquals_plain (text_plain n).2]

theorem ofText_plain {cs : List Char} (h : cs = ['-'] ∨ cs.head? ≠ some '-') :
    Word.ofText cs = .plain cs := by
  rcases h with rfl | h
  · rfl
  · unfold Word.ofText
    split
    all_goals first
      | rfl
      | exact absurd rfl h

theorem written_of_plain {cs : List Char} (h : Word.ofText cs = .plain cs) :
    cs = ['-'] ∨ cs.head? ≠ some '-' := by
  cases cs with
  | nil => exact .inr (by simp)
  | cons c tail =>
    by_cases hc : c = '-'
    · subst hc
      left
      unfold Word.ofText at h
      split at h
      next => cases h
      next => cases h
      next ht => exact ht
      next => cases h
      next hdash => exact absurd rfl (hdash tail)
    · right
      simp [hc]

theorem ofText_attached (n : Name) (v : String) :
    Word.ofText ("--" ++ n.text ++ "=" ++ v).toList = .long n.text.toList (some v.toList) := by
  rw [toList_attached, ofText_long (by simp), splitEquals_append (text_plain n).2]

end Spelling

section Given

theorem value?_append (cs cs' : List Choice) (s : Setting) :
    value? (cs ++ cs') s = (value? cs s).or (value? cs' s) := List.findSome?_append

theorem value?_singleton (c : Choice) (s : Setting) : value? [c] s = c.value? s := by
  rw [value?, List.findSome?_singleton]

theorem name_of_value? {v : List Char} (h : c.value? s = some v) : c.name = .setting s := by
  cases c with
  | switch s' => cases h
  | attached s' v' | apart s' v' =>
    simp only [Choice.value?] at h
    split at h
    next hs => rw [Choice.name, hs]
    next => cases h

theorem value?_of_name (h : .setting s ∉ cs.map Choice.name) : value? cs s = none := by
  rw [value?, List.findSome?_eq_none_iff]
  intro c hc
  by_contra hv
  obtain ⟨v, hv⟩ := Option.ne_none_iff_exists'.mp hv
  exact h (List.mem_map.mpr ⟨c, hc, name_of_value? hv⟩)

theorem has_given (h : value? cs s = none) : (given cs).has s = false := by
  cases s <;> simp [Given.has, given, h]

theorem store_given (hc : ∀ s', c.value? s' = if s = s' then some v.toList else none)
    (hv : Allowed s v.toList) (h : .setting s ∉ cs.map Choice.name) (hs : ∀ x, .switch x ≠ c) :
    (given cs).store s v.toList = .ok (given (cs ++ [c])) := by
  have hnone := value?_of_name h
  have hfree := has_given hnone
  have hvalue (s' : Setting) :
      value? (cs ++ [c]) s' = if s = s' then some v.toList else value? cs s' := by
    rw [value?_append, value?_singleton, hc]
    split
    next he => rw [← he, hnone, Option.none_or]
    next => rw [Option.or_none]
  have hswitch (x : Switch) : .switch x ∈ cs ++ [c] ↔ .switch x ∈ cs := by simp [hs x]
  rcases store_cases hfree with ⟨-, g, hg⟩ | ⟨hnot, -⟩
  · rw [hg]
    unfold Given.store at hg
    rw [hfree, if_neg Bool.false_ne_true] at hg
    cases s <;> simp only [Given.take] at hg <;> split at hg
    all_goals first
      | next hread =>
        cases hg
        simp [given, hvalue, hswitch, hread]
      | cases hg
  · exact absurd hv hnot

theorem turnOn_given {s : Switch} (hs : s ≠ .help) (h : .switch s ∉ cs.map Choice.name) :
    (given cs).turnOn s = .ok (given (cs ++ [.switch s])) := by
  have hvalue (s' : Setting) : value? (cs ++ [.switch s]) s' = value? cs s' := by
    rw [value?_append, value?_singleton]
    exact Option.or_none
  have hnot : .switch s ∉ cs := fun hc => h (List.mem_map.mpr ⟨_, hc, rfl⟩)
  cases s with
  | help => exact absurd rfl hs
  | noProgress => simp [Given.turnOn, given, hvalue, hnot]
  | dryRun => simp [Given.turnOn, given, hvalue, hnot]

end Given

section Reading

/-- Between two options: what has been given so far, the last value with it. -/
structure Settled (r : Reading) (given : Except UsageError Given) : Prop where
  trailing : r.trailing = false
  awaiting : r.isAwaiting = false
  settle : r.settle = given

theorem settled_fresh : Settled .fresh (.ok (given [])) := ⟨rfl, rfl, rfl⟩

structure Reads (l : Level) (r : Reading) (ws : List (List Char))
    (result : Except UsageError Reading) : Prop where
  fold : ws.foldlM l.read r = result
  parse : l = .top → ∀ rest, parseFrom r (ws ++ rest) = result >>= fun r => parseFrom r rest

variable {ws ws' : List (List Char)} {r' : Reading} {result : Except UsageError Reading}

theorem reads_nil (l : Level) (r : Reading) : Reads l r [] (.ok r) := ⟨rfl, fun _ _ => rfl⟩

theorem reads_word {w : List Char} (hw : r.isAwaiting = true ∨ CommandWord.ofText? w = none)
    (h : l.read r w = result) : Reads l r [w] result := by
  refine ⟨?_, ?_⟩
  · rw [List.foldlM_cons, h]
    cases result <;> rfl
  · rintro rfl rest
    have hnone : (if r.trailing || r.isAwaiting then none else CommandWord.ofText? w) = none := by
      rcases hw with hw | hw <;> simp [hw]
    rw [List.singleton_append, parseFrom, hnone]
    simp only [h]
    cases result <;> rfl

theorem Reads.append (h : Reads l r ws (.ok r')) (h' : Reads l r' ws' result) :
    Reads l r (ws ++ ws') result := by
  refine ⟨?_, fun htop rest => ?_⟩
  · rw [List.foldlM_append, h.fold]
    exact h'.fold
  · rw [List.append_assoc, h.parse htop]
    exact h'.parse htop rest

theorem Reads.append_error (h : Reads l r ws (.error e)) (ws' : List (List Char)) :
    Reads l r (ws ++ ws') (.error e) := by
  refine ⟨?_, fun htop rest => ?_⟩
  · rw [List.foldlM_append, h.fold]
    rfl
  · rw [List.append_assoc, h.parse htop]
    rfl

theorem read_text (h : r.trailing = false) (l : Level) (n : Name) :
    l.read r ("--" ++ n.text).toList =
      if l.knows n then r.option n none else .error .unknownArgument := by
  rw [Level.read, h, ofText_text]
  simp only [Bool.false_eq_true, if_false, name?_text]
  split_ifs <;> rfl

theorem read_attached (h : r.trailing = false) (l : Level) (n : Name) (v : String) :
    l.read r ("--" ++ n.text ++ "=" ++ v).toList =
      if l.knows n then r.option n (some v.toList) else .error .unknownArgument := by
  rw [Level.read, h, ofText_attached]
  simp only [Bool.false_eq_true, if_false, name?_text]
  split_ifs <;> rfl

theorem reads_text (h : r.trailing = false) (l : Level) (n : Name) :
    Reads l r [("--" ++ n.text).toList]
      (if l.knows n then r.option n none else .error .unknownArgument) :=
  reads_word (.inr (by rw [toList_text]; rfl)) (read_text h l n)

theorem reads_attached (h : r.trailing = false) (l : Level) (n : Name) (v : String) :
    Reads l r [("--" ++ n.text ++ "=" ++ v).toList]
      (if l.knows n then r.option n (some v.toList) else .error .unknownArgument) :=
  reads_word (.inr (by rw [toList_attached]; rfl)) (read_attached h l n v)

def Choice.put (c : Choice) (r : Reading) : Except UsageError Reading :=
  match c with
  | .switch s => r.option (.switch s) none
  | .attached s v => r.option (.setting s) (some v.toList)
  | .apart s v => r.settle >>= fun g => .ok { r with given := g, pending := .value s v.toList }

theorem reads_put (hr : r.trailing = false) (hw : c.Written) (hl : l.knows c.name = true) :
    Reads l r (c.words.map String.toList) (c.put r) := by
  cases c with
  | switch s =>
    rw [Choice.name] at hl
    have h := reads_text hr l (.switch s)
    rwa [if_pos hl] at h
  | attached s v =>
    rw [Choice.name] at hl
    have h := reads_attached hr l (.setting s) v
    rwa [if_pos hl] at h
  | apart s v =>
    rw [Choice.name] at hl
    have h := reads_text hr l (.setting s)
    rw [if_pos hl] at h
    cases hs : r.settle with
    | error e =>
      simp only [Reading.option, hs, bind, Except.bind] at h
      simp only [Choice.put, hs, bind, Except.bind]
      exact h.append_error [v.toList]
    | ok g =>
      simp only [Reading.option, hs, bind, Except.bind, pure, Except.pure] at h
      simp only [Choice.put, hs, bind, Except.bind]
      refine h.append (reads_word (.inl rfl) ?_)
      rw [Level.read, hr, ofText_plain hw]
      simp only [Bool.false_eq_true, if_false]

theorem put_settled (hr : Settled r (.ok (given cs))) (hw : c.Written) (hc : c.Acceptable)
    (hn : c.name ∉ cs.map Choice.name) :
    ∃ r', c.put r = .ok r' ∧ Settled r' (.ok (given (cs ++ [c]))) := by
  cases c with
  | switch s =>
    refine ⟨⟨given (cs ++ [.switch s]), .nothing, r.trailing⟩, ?_, hr.trailing, rfl, rfl⟩
    simp only [Choice.put, Reading.option, hr.settle, bind, Except.bind, turnOn_given hw hn, pure,
      Except.pure]
  | attached s v =>
    have hstore := store_given (c := .attached s v) (fun _ => rfl) hc hn (by simp)
    refine ⟨⟨given (cs ++ [.attached s v]), .nothing, r.trailing⟩, ?_, hr.trailing, rfl, rfl⟩
    simp only [Choice.put, Reading.option, hr.settle, bind, Except.bind, hstore, pure, Except.pure]
  | apart s v =>
    have hstore := store_given (c := .apart s v) (fun _ => rfl) hc hn (by simp)
    refine ⟨⟨given cs, .value s v.toList, r.trailing⟩, ?_, hr.trailing, rfl, hstore⟩
    simp only [Choice.put, hr.settle, bind, Except.bind]

end Reading

section Level

variable {r' : Reading}

def letters (cs : List Choice) : List (List Char) := (cs.flatMap Choice.words).map String.toList

theorem letters_cons (c : Choice) (cs : List Choice) :
    letters (c :: cs) = c.words.map String.toList ++ letters cs := by
  rw [letters, List.flatMap_cons, List.map_append, letters]

theorem fresh_of_nodup (h : ((cs ++ c :: cs').map Choice.name).Nodup) :
    c.name ∉ cs.map Choice.name := by
  rw [List.map_append, List.map_cons] at h
  exact fun hc => (List.nodup_append.mp h).2.2 _ hc _ List.mem_cons_self rfl

theorem reads_choices (hr : Settled r (.ok (given cs))) (hw : ∀ c ∈ cs', c.Written)
    (hc : ∀ c ∈ cs', c.Acceptable) (hn : ((cs ++ cs').map Choice.name).Nodup)
    (hl : ∀ c ∈ cs', l.knows c.name = true) :
    ∃ r', Reads l r (letters cs') (.ok r') ∧ Settled r' (.ok (given (cs ++ cs'))) := by
  induction cs' generalizing r cs with
  | nil =>
    refine ⟨r, reads_nil l r, ?_⟩
    rw [List.append_nil]
    exact hr
  | cons c cs' ih =>
    rw [List.forall_mem_cons] at hw hc hl
    obtain ⟨r₁, hput, hr₁⟩ := put_settled hr hw.1 hc.1 (fresh_of_nodup hn)
    rw [List.append_cons] at hn ⊢
    obtain ⟨r₂, hreads, hr₂⟩ := ih hr₁ hw.2 hc.2 hn hl.2
    have h := reads_put hr.trailing hw.1 hl.1
    rw [hput] at h
    refine ⟨r₂, ?_, hr₂⟩
    rw [letters_cons]
    exact h.append hreads

end Level

end Headway.CommandLine
