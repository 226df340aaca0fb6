import Headway.Proofs.CommandLine.Options

namespace Headway.CommandLine

inductive Verb where
  | simulate
  | config
  deriving DecidableEq

namespace Verb

def text : Verb → String
  | .simulate => "simulate"
  | .config => "config"

def level : Verb → Level
  | .simulate => .simulate
  | .config => .config

def command : Verb → Given → Command
  | .simulate, g => .simulate g.arguments
  | .config, _ => .config

end Verb

structure Line where
  before : List Choice
  verb : Verb
  after : List Choice

namespace Line

def words (x : Line) : List String :=
  x.before.flatMap Choice.words ++ x.verb.text :: x.after.flatMap Choice.words

structure Written (x : Line) : Prop where
  choices : ∀ c ∈ x.before ++ x.after, c.Written
  onceBefore : (x.before.map Choice.name).Nodup
  onceAfter : (x.after.map Choice.name).Nodup

structure Proper (x : Line) : Prop extends x.Written where
  acceptable : ∀ c ∈ x.before ++ x.after, c.Acceptable

def Misplaced (x : Line) : Prop :=
  (∃ c ∈ x.before, c.name.isGlobal = false) ∨
    x.verb = .config ∧ ∃ c ∈ x.after, c.name.isGlobal = false

def chosen (x : Line) (s : Setting) : Option (List Char) := value? (x.after ++ x.before) s

def turned (x : Line) (s : Switch) : Bool := decide (.switch s ∈ x.after ++ x.before)

end Line

def Decides {α : Type} (meant : List Char → α → Prop) (v : Option (List Char)) (default y : α) :
    Prop :=
  match v with
  | some v => meant v y
  | none => y = default

structure Argued (cs : List Choice) (a : Simulation.Arguments) : Prop where
  newBytes : Decides WordText (value? cs .newBytes) 16777216 a.newBytes
  changedBytes : Decides WordText (value? cs .changedBytes) 50331648 a.changedBytes
  deltaRatio : Decides FloatText (value? cs .deltaRatio) 0.5 a.deltaRatio
  compressRatio : Decides FloatText (value? cs .compressRatio) 0.6 a.compressRatio
  rate : Decides WordText (value? cs .rate) 4194304 a.rate
  chunk : Decides WordText (value? cs .chunk) 262144 a.chunk
  volume : Decides WordText (value? cs .volume) 8388608 a.volume
  pauseSecs : Option.Rel WordText (value? cs .pauseSecs) a.pauseSecs

inductive Verb.Means : Verb → List Choice → Command → Prop
  | config (cs : List Choice) : Means .config cs .config
  | simulate {cs : List Choice} {a : Simulation.Arguments} (h : Argued cs a) :
      Means .simulate cs (.simulate a)

structure Line.Means (x : Line) (i : Invocation) : Prop where
  config : Option.Rel PathText (x.chosen .config) i.config
  noProgress : i.noProgress = x.turned .noProgress
  interval : Option.Rel HalfWordText (x.chosen .interval) i.interval
  dryRun : i.dryRun = x.turned .dryRun
  format : Option.Rel FormatText (x.chosen .format) i.format
  command : x.verb.Means x.after i.command

def Line.invocation (x : Line) : Invocation where
  config := (x.chosen .config).bind Given.path?
  noProgress := x.turned .noProgress
  interval := (x.chosen .interval).bind halfWord?
  dryRun := x.turned .dryRun
  format := (x.chosen .format).bind format?
  command := x.verb.command (given x.after)

variable {c : Choice} {cs cs' : List Choice} {l : Level} {s : Setting} {r : Reading} {g g' : Given}
  {v : Verb} {ws : List (List Char)} {x : Line}

theorem mem_of_value? {w : List Char} (h : value? cs s = some w) :
    ∃ c ∈ cs, c.value? s = some w := List.exists_of_findSome?_eq_some h

theorem allowed_of_value? (hc : ∀ c ∈ cs, c.Acceptable) {w : List Char}
    (h : value? cs s = some w) : Allowed s w := by
  obtain ⟨c, hmem, hv⟩ := mem_of_value? h
  have hok := hc c hmem
  cases c with
  | switch s' => cases hv
  | attached s' v | apart s' v =>
    simp only [Choice.value?] at hv
    split at hv
    next hs =>
      cases hv
      exact hs ▸ hok
    next => cases hv

section Meaning

variable {α : Type} {read : List Char → Option α} {meant : List Char → α → Prop}
  {o : Option (List Char)}

variable (hc : ∀ c ∈ cs, c.Acceptable)
include hc

end Meaning

theorem Line.Written.written_before (h : x.Written) : ∀ c ∈ x.before, c.Written :=
  fun c hc => h.choices c (List.mem_append_left _ hc)

theorem Line.Written.written_after (h : x.Written) : ∀ c ∈ x.after, c.Written :=
  fun c hc => h.choices c (List.mem_append_right _ hc)

section Proper

variable (h : x.Proper)
include h

theorem Line.Proper.before : ∀ c ∈ x.before, c.Acceptable :=
  fun c hc => h.acceptable c (List.mem_append_left _ hc)

theorem Line.Proper.after : ∀ c ∈ x.after, c.Acceptable :=
  fun c hc => h.acceptable c (List.mem_append_right _ hc)

end Proper

section Parse

theorem bind_or {α β : Type} (a b : Option α) {f : α → Option β} (h : ∀ v, a = some v → f v ≠ none) :
    (a.or b).bind f = (a.bind f).or (b.bind f) := by
  cases a with
  | none => rfl
  | some v =>
    obtain ⟨y, hy⟩ := Option.ne_none_iff_exists'.mp (h v rfl)
    rw [Option.some_or, Option.bind_some, hy, Option.some_or]

theorem readable_of_value? {α : Type} {read : List Char → Option α} {meant : List Char → α → Prop}
    (hc : ∀ c ∈ cs, c.Acceptable) (hread : ∀ v y, read v = some y ↔ meant v y)
    (hs : ∀ v, Allowed s v → ∃ y, meant v y) (w : List Char) (hw : value? cs s = some w) :
    read w ≠ none := by
  obtain ⟨y, hy⟩ := hs w (allowed_of_value? hc hw)
  rw [(hread w y).mpr hy]
  exact Option.some_ne_none y

theorem join_given (h : x.Proper) :
    Invocation.join (given x.before) (given x.after) (x.verb.command (given x.after)) =
      x.invocation := by
  have hconfig : ∀ w, value? x.after .config = some w → Given.path? w ≠ none :=
    readable_of_value? h.after (fun _ _ => path?_eq_some_iff) fun _ hv => hv
  have hinterval : ∀ w, value? x.after .interval = some w → halfWord? w ≠ none :=
    readable_of_value? h.after (fun _ _ => halfWord?_eq_some_iff) fun _ hv => hv
  have hformat : ∀ w, value? x.after .format = some w → format? w ≠ none :=
    readable_of_value? h.after (fun _ _ => format?_eq_some_iff) fun _ hv => hv
  simp only [Invocation.join, Line.invocation, Line.chosen, Line.turned, given, value?_append,
    bind_or _ _ hconfig, bind_or _ _ hinterval, bind_or _ _ hformat, List.mem_append,
    Bool.decide_or, Bool.or_comm]

theorem map_words (x : Line) :
    x.words.map String.toList = letters x.before ++ x.verb.text.toList :: letters x.after := by
  rw [Line.words, List.map_append, List.map_cons, letters, letters]

theorem parseFrom_verb {result : Except UsageError Given} (hr : Settled r result) (v : Verb)
    (ws : List (List Char)) :
    parseFrom r (v.text.toList :: ws) = v.level.readAll ws >>= fun after =>
      result >>= fun before => .ok (.join before after (v.command after)) := by
  -- The words behind the verb are read before what is given in front of it is settled.
  rw [parseFrom, hr.trailing, hr.awaiting, ← hr.settle]
  cases v <;> rfl

theorem misplaced_iff (x : Line) :
    x.Misplaced ↔ (∃ c ∈ x.before, Level.top.knows c.name = false) ∨
      ∃ c ∈ x.after, x.verb.level.knows c.name = false := by
  rw [Line.Misplaced]
  cases x.verb <;> simp [Verb.level, Level.knows]

theorem knows_of_not_misplaced (h : ¬x.Misplaced) :
    (∀ c ∈ x.before, Level.top.knows c.name = true) ∧
      ∀ c ∈ x.after, x.verb.level.knows c.name = true := by
  rw [misplaced_iff, not_or] at h
  exact ⟨by simpa using h.1, by simpa using h.2⟩

theorem readAll_of_reads {result : Except UsageError Given} (h : Reads l .fresh ws (.ok r))
    (hr : Settled r result) : l.readAll ws = result := by
  rw [Level.readAll, h.fold]
  exact hr.settle

theorem readAll_letters (hw : ∀ c ∈ cs, c.Written) (hc : ∀ c ∈ cs, c.Acceptable)
    (hn : (cs.map Choice.name).Nodup) (hl : ∀ c ∈ cs, l.knows c.name = true) :
    l.readAll (letters cs) = .ok (given cs) := by
  obtain ⟨r, hreads, hr⟩ := reads_choices settled_fresh hw hc hn hl
  exact readAll_of_reads hreads hr

theorem parse_words {result : Except UsageError Given}
    (h : Reads .top .fresh (letters x.before) (.ok r)) (hr : Settled r result) :
    parse x.words = x.verb.level.readAll (letters x.after) >>= fun after =>
      result >>= fun before => .ok (.join before after (x.verb.command after)) := by
  rw [parse, map_words, h.parse rfl]
  exact parseFrom_verb hr x.verb _

theorem parse_placed (h : x.Proper) (hx : ¬x.Misplaced) : parse x.words = .ok x.invocation := by
  obtain ⟨hbefore, hafter⟩ := knows_of_not_misplaced hx
  obtain ⟨r, hreads, hr⟩ :=
    reads_choices settled_fresh h.written_before h.before h.onceBefore hbefore
  rw [parse_words hreads hr, readAll_letters h.written_after h.after h.onceAfter hafter,
    ← join_given h]
  rfl

end Parse

section Order

theorem Line.Proper.of_subset {y : Line} (hx : x.Proper)
    (h : ∀ c ∈ y.before ++ y.after, c ∈ x.before ++ x.after)
    (hb : (y.before.map Choice.name).Nodup) (ha : (y.after.map Choice.name).Nodup) : y.Proper where
  choices c hc := hx.choices c (h c hc)
  onceBefore := hb
  onceAfter := ha
  acceptable c hc := hx.acceptable c (h c hc)

variable {before after : List Choice}

theorem Line.Proper.moved (hx : Line.Proper ⟨c :: before, v, after⟩)
    (hc : c.name ∉ after.map Choice.name) : Line.Proper ⟨before, v, c :: after⟩ :=
  hx.of_subset (fun _ hd => List.perm_middle.mem_iff.mp hd) hx.onceBefore.of_cons
    (List.nodup_cons.mpr ⟨hc, hx.onceAfter⟩)

variable {b₁ b₂ a₁ a₂ : List Choice}

end Order

end Headway.CommandLine
