import Headway.Proofs.Config.Written
import Headway.Proofs.Toml.Building
import Headway.Proofs.Toml.Reading

namespace Headway.Config

open Headway.Toml

def names : List Key :=
  ["enabled", "interval_secs", "dry_run", "format", "stall_floor_secs", "rate_window"].map
    String.toList

def known (k : Key) : Bool := decide (k ∈ names)

inductive Setting where
  | enabled (b : Bool)
  | intervalSecs (n : UInt32)
  | dryRun (b : Bool)
  | format (f : Format)
  | stallFloorSecs (n : UInt64)
  | rateWindow (n : UInt64)

namespace Setting

def apply (c : Config) : Setting → Config
  | enabled b => { c with enabled := b }
  | intervalSecs n => { c with intervalSecs := n }
  | dryRun b => { c with dryRun := b }
  | format f => { c with format := f }
  | stallFloorSecs n => { c with stallFloorSecs := n }
  | rateWindow n => { c with rateWindow := n }

inductive Says : Setting → Key × Node → Prop where
  | enabled (b : Bool) : Says (.enabled b) ("enabled".toList, .scalar (.boolean b))
  | intervalSecs (n : UInt32) :
      Says (.intervalSecs n) ("interval_secs".toList, .scalar (.integer n.toNat))
  | dryRun (b : Bool) : Says (.dryRun b) ("dry_run".toList, .scalar (.boolean b))
  | format (f : Format) : Says (.format f) ("format".toList, .scalar (.text (formatName f)))
  | formatTable (f : Format) (o : Origin) (v : Node) (h : isEmpty v = true) :
      Says (.format f) ("format".toList, .table o [(formatName f, v)])
  | stallFloorSecs (n : UInt64) (h : n.toNat < wordEnd) :
      Says (.stallFloorSecs n) ("stall_floor_secs".toList, .scalar (.integer n.toNat))
  | rateWindow (n : UInt64) (h : n.toNat < wordEnd) :
      Says (.rateWindow n) ("rate_window".toList, .scalar (.integer n.toNat))

end Setting

open Setting (Says)

def overwritten (settings : List Setting) : Config := settings.foldl Setting.apply standard

section Reading

variable {c : Config} {n : Node} {f : Format} {es : Entries} {e : Key × Node} {s : Setting}

theorem readBool_eq_some_iff {b : Bool} : readBool n = some b ↔ n = .scalar (.boolean b) := by
  constructor
  · intro h
    unfold readBool at h
    split at h
    · cases h
      rfl
    · cases h
  · rintro rfl
    rfl

theorem readCount_eq_some_iff {bound m : ℕ} :
    readCount bound n = some m ↔ m < bound ∧ n = .scalar (.integer m) := by
  constructor
  · intro h
    unfold readCount at h
    split at h
    · split at h
      next hb =>
        cases h
        refine ⟨by omega, ?_⟩
        rw [Int.toNat_of_nonneg hb.1]
      next => cases h
    · cases h
  · rintro ⟨hm, rfl⟩
    exact readCount_integer hm

theorem formatNamed_eq_some_iff {name : List Char} :
    formatNamed name = some f ↔ name = formatName f := by
  rw [formatNamed]
  split_ifs with ht hj
  · rw [ht]
    cases f <;> decide
  · rw [hj]
    cases f <;> decide
  · constructor
    · exact nofun
    · rintro rfl
      cases f
      · exact absurd rfl ht
      · exact absurd rfl hj

theorem readFormat_eq_some_iff : readFormat n = some f ↔
    n = .scalar (.text (formatName f)) ∨
      ∃ o v, isEmpty v = true ∧ n = .table o [(formatName f, v)] := by
  constructor
  · intro h
    unfold readFormat at h
    split at h
    next name =>
      rw [formatNamed_eq_some_iff.mp h]
      exact .inl rfl
    next o name v =>
      split at h
      next hv =>
        rw [formatNamed_eq_some_iff.mp h]
        exact .inr ⟨o, v, hv, rfl⟩
      next => cases h
    next => cases h
  · rintro (rfl | ⟨o, v, hv, rfl⟩)
    · exact formatNamed_eq_some_iff.mpr rfl
    · rw [readFormat, if_pos hv]
      exact formatNamed_eq_some_iff.mpr rfl

structure ReadAs (es : Entries) (c : Config) : Prop where
  enabled : field es "enabled" standard.enabled readBool = some c.enabled
  intervalSecs : field es "interval_secs" standard.intervalSecs.toNat (readCount UInt32.size) =
    some c.intervalSecs.toNat
  dryRun : field es "dry_run" standard.dryRun readBool = some c.dryRun
  format : field es "format" standard.format readFormat = some c.format
  stallFloorSecs : field es "stall_floor_secs" standard.stallFloorSecs.toNat (readCount wordEnd) =
    some c.stallFloorSecs.toNat
  rateWindow : field es "rate_window" standard.rateWindow.toNat (readCount wordEnd) =
    some c.rateWindow.toNat

theorem ofNode?_eq_some_iff {o : Origin} : ofNode? (.table o es) = some c ↔ ReadAs es c := by
  constructor
  · intro h
    simp only [ofNode?, Option.bind_eq_bind, Option.bind_eq_some_iff] at h
    obtain ⟨enabled, he, interval, hi, dryRun, hd, format, hf, floor, hs, window, hw, h⟩ := h
    cases h
    have hinterval := field_lt (by decide) hi
    have hfloor := field_lt (by decide) hs
    have hwindow := field_lt (by decide) hw
    refine ⟨he, ?_, hd, hf, ?_, ?_⟩
    · rw [hi, Nat.toUInt32, UInt32.toNat_ofNat_of_lt' hinterval]
    · rw [hs, Nat.toUInt64, UInt64.toNat_ofNat_of_lt' (Nat.lt_trans hfloor (by decide))]
    · rw [hw, Nat.toUInt64, UInt64.toNat_ofNat_of_lt' (Nat.lt_trans hwindow (by decide))]
  · rintro ⟨he, hi, hd, hf, hs, hw⟩
    rw [ofNode?, he, hi, hd, hf, hs, hw]
    simp

section Append

variable {α : Type} {k : String} {k' : Key} {v : Node} {default x : α} {read : Node → Option α}

theorem field_append_self (hnew : es.lookup k.toList = none) (h : read v = some x) :
    field (es ++ [(k.toList, v)]) k default read = some x := by
  have hlookup : (es ++ [(k.toList, v)]).lookup k.toList = some v := by
    rw [List.lookup_append, hnew, List.lookup_cons, beq_self_eq_true]
    rfl
  rw [field_of_lookup hlookup, h]

theorem field_append_ne (hk : k' ≠ k.toList) (h : field es k default read = some x) :
    field (es ++ [(k', v)]) k default read = some x := by
  have hlookup : [(k', v)].lookup k.toList = none := by
    rw [List.lookup_cons, beq_false_of_ne hk.symm]
    rfl
  rw [field, List.lookup_append, hlookup, Option.or_none]
  exact h

end Append

theorem ReadAs.append (h : ReadAs es c) (hnew : es.lookup e.1 = none) (hs : Says s e) :
    ReadAs (es ++ [e]) (s.apply c) := by
  obtain ⟨h₁, h₂, h₃, h₄, h₅, h₆⟩ := h
  cases hs with
  | enabled b =>
    exact ⟨field_append_self hnew rfl, field_append_ne (by decide) h₂,
      field_append_ne (by decide) h₃, field_append_ne (by decide) h₄,
      field_append_ne (by decide) h₅, field_append_ne (by decide) h₆⟩
  | intervalSecs n =>
    exact ⟨field_append_ne (by decide) h₁,
      field_append_self hnew (readCount_integer n.toNat_lt),
      field_append_ne (by decide) h₃, field_append_ne (by decide) h₄,
      field_append_ne (by decide) h₅, field_append_ne (by decide) h₆⟩
  | dryRun b =>
    exact ⟨field_append_ne (by decide) h₁, field_append_ne (by decide) h₂,
      field_append_self hnew rfl, field_append_ne (by decide) h₄,
      field_append_ne (by decide) h₅, field_append_ne (by decide) h₆⟩
  | format f =>
    exact ⟨field_append_ne (by decide) h₁, field_append_ne (by decide) h₂,
      field_append_ne (by decide) h₃, field_append_self hnew (readFormat_formatName f),
      field_append_ne (by decide) h₅, field_append_ne (by decide) h₆⟩
  | formatTable f o v hv =>
    have hread : readFormat (.table o [(formatName f, v)]) = some f :=
      readFormat_eq_some_iff.mpr (.inr ⟨o, v, hv, rfl⟩)
    exact ⟨field_append_ne (by decide) h₁, field_append_ne (by decide) h₂,
      field_append_ne (by decide) h₃, field_append_self hnew hread,
      field_append_ne (by decide) h₅, field_append_ne (by decide) h₆⟩
  | stallFloorSecs n hn =>
    exact ⟨field_append_ne (by decide) h₁, field_append_ne (by decide) h₂,
      field_append_ne (by decide) h₃, field_append_ne (by decide) h₄,
      field_append_self hnew (readCount_integer hn), field_append_ne (by decide) h₆⟩
  | rateWindow n hn =>
    exact ⟨field_append_ne (by decide) h₁, field_append_ne (by decide) h₂,
      field_append_ne (by decide) h₃, field_append_ne (by decide) h₄,
      field_append_ne (by decide) h₅, field_append_self hnew (readCount_integer hn)⟩

theorem ReadAs.append_all {settings : List Setting} {given : Entries} (h : ReadAs es c)
    (hkeys : ((es ++ given).map Prod.fst).Nodup) (hs : List.Forall₂ Says settings given) :
    ReadAs (es ++ given) (settings.foldl Setting.apply c) := by
  induction hs generalizing es c with
  | nil =>
    rw [List.append_nil]
    exact h
  | @cons s e settings given he hs ih =>
    rw [List.append_cons] at hkeys ⊢
    exact ih (h.append (Entries.lookup_eq_none hkeys) he) hkeys

theorem readAs_overwritten {settings : List Setting} (hkeys : (es.map Prod.fst).Nodup)
    (hs : List.Forall₂ Says settings es) : ReadAs es (overwritten settings) := by
  have hempty : ReadAs [] standard := ⟨rfl, rfl, rfl, rfl, rfl, rfl⟩
  exact hempty.append_all hkeys hs

theorem ReadAs.exists_setting (h : ReadAs es c) {k : Key} (hk : known k = true)
    (hn : es.lookup k = some n) : ∃ s, Says s (k, n) := by
  have hmem : k ∈ names := of_decide_eq_true hk
  simp only [names, List.map_cons, List.map_nil, List.mem_cons, List.not_mem_nil, or_false] at hmem
  obtain ⟨h₁, h₂, h₃, h₄, h₅, h₆⟩ := h
  obtain rfl | rfl | rfl | rfl | rfl | rfl := hmem
  · rw [field_of_lookup hn, readBool_eq_some_iff] at h₁
    subst h₁
    exact ⟨_, .enabled _⟩
  · rw [field_of_lookup hn, readCount_eq_some_iff] at h₂
    obtain ⟨-, rfl⟩ := h₂
    exact ⟨_, .intervalSecs _⟩
  · rw [field_of_lookup hn, readBool_eq_some_iff] at h₃
    subst h₃
    exact ⟨_, .dryRun _⟩
  · rw [field_of_lookup hn, readFormat_eq_some_iff] at h₄
    obtain rfl | ⟨o, v, hv, rfl⟩ := h₄
    · exact ⟨_, .format _⟩
    · exact ⟨_, .formatTable _ o v hv⟩
  · rw [field_of_lookup hn, readCount_eq_some_iff] at h₅
    obtain ⟨hlt, rfl⟩ := h₅
    exact ⟨_, .stallFloorSecs _ hlt⟩
  · rw [field_of_lookup hn, readCount_eq_some_iff] at h₆
    obtain ⟨hlt, rfl⟩ := h₆
    exact ⟨_, .rateWindow _ hlt⟩

theorem ofNode?_of_misfit {o : Origin} (hkeys : (es.map Prod.fst).Nodup) (he : e ∈ es)
    (hk : known e.1 = true) (hmisfit : ∀ s, ¬ Says s e) : ofNode? (.table o es) = none := by
  rw [Option.eq_none_iff_forall_ne_some]
  intro c hc
  have hlookup := (Entries.lookup_eq_some_iff hkeys).mpr he
  obtain ⟨s, hs⟩ := (ofNode?_eq_some_iff.mp hc).exists_setting hk hlookup
  exact hmisfit s hs

theorem field_congr {α : Type} {es es' : Entries} {k : String}
    (h : es.lookup k.toList = es'.lookup k.toList) (default : α) (read : Node → Option α) :
    field es k default read = field es' k default read := by
  rw [field, field, h]

theorem ofNode?_congr {es es' : Entries} {o o' : Origin}
    (h : ∀ k, known k = true → es.lookup k = es'.lookup k) :
    ofNode? (.table o es) = ofNode? (.table o' es') := by
  rw [ofNode?, ofNode?, field_congr (h "enabled".toList (by decide)),
    field_congr (h "interval_secs".toList (by decide)),
    field_congr (h "dry_run".toList (by decide)), field_congr (h "format".toList (by decide)),
    field_congr (h "stall_floor_secs".toList (by decide)),
    field_congr (h "rate_window".toList (by decide))]

end Reading

section Document

/-- A text that assigns to known keys, each at most once, somewhere before its first header, and
that without these assignments would be a document by itself.  No header is about a known key. -/
structure Document (text : String) (ss : List Statement) : Prop where
  reads : Reads text ss
  once : ((assigned known ss).map Prod.fst).Nodup
  foreign : Foreign known ss
  rest : (Node.ofStatements? (left known ss)).isSome = true

structure Outcome (path text : String) (given : Entries) : Prop where
  misfit : ∀ e ∈ given, (∀ s, ¬ Says s e) → load path (.ok text) = .error (.parse path)
  zeroInterval : ∀ settings, List.Forall₂ Says settings given →
    (overwritten settings).intervalSecs = 0 →
    load path (.ok text) = .error (.refused .zeroInterval)
  zeroWindow : ∀ settings, List.Forall₂ Says settings given →
    (overwritten settings).intervalSecs ≠ 0 → (overwritten settings).rateWindow = 0 →
    load path (.ok text) = .error (.refused .zeroRateWindow)
  loaded : ∀ settings, List.Forall₂ Says settings given →
    (overwritten settings).intervalSecs ≠ 0 → (overwritten settings).rateWindow ≠ 0 →
    load path (.ok text) = .ok (overwritten settings)

variable {path text text' : String} {ss ss' : List Statement}

theorem load_of_ofText?_none (h : Node.ofText? text.toList = none) :
    load path (.ok text) = .error (.parse path) := by
  rw [load, ofToml?, h]

theorem Document.ofToml?_eq (h : Document text ss) :
    ofToml? text.toList = ofNode? (.table .written (assigned known ss)) := by
  obtain ⟨es, hes, hown⟩ := ofStatements?_of_left h.foreign h.once h.rest
  rw [ofToml?, ofText?_of_reads h.reads, hes, ← hown]
  exact ofNode?_congr fun k hk => (Entries.lookup_filter known hk).symm

theorem Document.outcome (h : Document text ss) : Outcome path text (assigned known ss) := by
  have hread {settings : List Setting}
      (hs : List.Forall₂ Says settings (assigned known ss)) :
      ofToml? text.toList = some (overwritten settings) := by
    rw [h.ofToml?_eq]
    exact ofNode?_eq_some_iff.mpr (readAs_overwritten h.once hs)
  constructor
  case misfit =>
    intro e he hmisfit
    rw [load, h.ofToml?_eq, ofNode?_of_misfit h.once he (own_of_mem_assigned he) hmisfit]
  case zeroInterval =>
    intro settings hs hinterval
    rw [load, hread hs]
    simp only [validate, hinterval, if_true]
  case zeroWindow =>
    intro settings hs hinterval hwindow
    rw [load, hread hs]
    simp only [validate, hinterval, hwindow, if_true, if_false]
  case loaded =>
    intro settings hs hinterval hwindow
    exact load_eq_ok_iff.mpr ⟨hread hs, (validate_eq_ok_iff _).mpr ⟨hinterval, hwindow⟩⟩

theorem Document.load_eq_of_perm (h : Document text ss) (h' : Document text' ss')
    (hperm : (assigned known ss).Perm (assigned known ss')) :
    load path (.ok text) = load path (.ok text') := by
  rw [load, load, h.ofToml?_eq, h'.ofToml?_eq]
  rw [ofNode?_congr fun k _ => Entries.lookup_perm hperm h.once k]

/-- A document gives the standard settings with exactly its own assignments over them.  It is
refused if a known key has a value that says no setting, else if the interval comes out zero, else
if the window does.  The order of the assignments and whatever else is in the text play no part. -/
theorem load_of_document (path : String) :
    (∀ text ss, Document text ss → Outcome path text (assigned known ss)) ∧
    (∀ text rest, Follows (skipMark text.toList) rest → Overlong rest →
      load path (.ok text) = .error (.parse path)) ∧
    (∀ text, (∀ ss, ¬ Reads text ss) → load path (.ok text) = .error (.parse path)) ∧
    (∀ text text' ss ss', Document text ss → Document text' ss' →
      (assigned known ss).Perm (assigned known ss') →
      load path (.ok text) = load path (.ok text')) ∧
    ∀ text c, load path (.ok text) = .ok c → c.validate = .ok () := by
  refine ⟨fun text ss h => h.outcome, ?_, ?_, ?_, ?_⟩
  · intro text rest hrest hlong
    exact load_of_ofText?_none (ofText?_of_overlong hrest hlong)
  · intro text hreads
    exact load_of_ofText?_none (ofText?_of_not_reads hreads)
  · intro text text' ss ss' h h' hperm
    exact h.load_eq_of_perm h' hperm
  · intro text c h
    exact (load_eq_ok_iff.mp h).2

def busy : String :=
  "o = 'x'\nformat.json = []\nrate_window = 10 # rates\nenabled = false\n[t]\nenabled = 3\n"

def quiet : String := "rate_window = 0xa\nformat.json = []\nenabled = false\n"

theorem document_busy : Document busy
    [.assign [] "o".toList (.scalar (.text "x".toList)),
      .assign ["format".toList] "json".toList (.array []),
      .assign [] "rate_window".toList (.scalar (.integer 10)),
      .assign [] "enabled".toList (.scalar (.boolean false)),
      .header [] "t".toList,
      .assign [] "enabled".toList (.scalar (.integer 3))] :=
  ⟨by unfold Reads; rfl, by decide, by decide, by decide⟩

theorem document_quiet : Document quiet
    [.assign [] "rate_window".toList (.scalar (.integer 10)),
      .assign ["format".toList] "json".toList (.array []),
      .assign [] "enabled".toList (.scalar (.boolean false))] :=
  ⟨by unfold Reads; rfl, by decide, by decide, by decide⟩

theorem load_of_document_busy :
    load "c" (.ok busy) = .ok ⟨false, 3, false, .json, 5, 10⟩ ∧
      load "c" (.ok busy) = load "c" (.ok quiet) ∧
      load "c" (.ok "dry_run = 'no'\ninterval_secs = 0\n") = .error (.parse "c") ∧
      load "c" (.ok "rate_window = 0\ninterval_secs = 0\n") = .error (.refused .zeroInterval) ∧
      load "c" (.ok "rate_window = 0\n") = .error (.refused .zeroRateWindow) ∧
      load "c" (.ok "#\nrate_window = 9_223_372_036_854_775_808\n") = .error (.parse "c") ∧
      load "c" (.ok "rate_window\n") = .error (.parse "c") ∧
      validate ⟨false, 3, false, .json, 5, 10⟩ = .ok () := by
  obtain ⟨houtcome, hlong, hunread, hperm, hvalid⟩ := load_of_document "c"
  have hload : load "c" (.ok busy) = .ok ⟨false, 3, false, .json, 5, 10⟩ :=
    (houtcome _ _ document_busy).loaded _
      (.cons (.formatTable .json .dotted (.array []) rfl)
        (.cons (.rateWindow 10 (by decide)) (.cons (.enabled false) .nil)))
      (by decide) (by decide)
  refine ⟨hload, ?_, ?_, ?_, ?_, ?_, ?_, hvalid _ _ hload⟩
  · exact hperm _ _ _ _ document_busy document_quiet (.swap _ _ _)
  · have hdocument : Document "dry_run = 'no'\ninterval_secs = 0\n"
        [.assign [] "dry_run".toList (.scalar (.text "no".toList)),
          .assign [] "interval_secs".toList (.scalar (.integer 0))] :=
      ⟨by unfold Reads; rfl, by decide, by decide, by decide⟩
    have hmisfit (s : Setting) : ¬ Says s ("dry_run".toList, .scalar (.text "no".toList)) := by
      intro h
      generalize he : ("dry_run".toList, Node.scalar (.text "no".toList)) = e at h
      cases h <;> simp at he
    exact (houtcome _ _ hdocument).misfit _ List.mem_cons_self hmisfit
  · have hdocument : Document "rate_window = 0\ninterval_secs = 0\n"
        [.assign [] "rate_window".toList (.scalar (.integer 0)),
          .assign [] "interval_secs".toList (.scalar (.integer 0))] :=
      ⟨by unfold Reads; rfl, by decide, by decide, by decide⟩
    exact (houtcome _ _ hdocument).zeroInterval _
      (.cons (.rateWindow 0 (by decide)) (.cons (.intervalSecs 0) .nil)) (by decide)
  · have hdocument : Document "rate_window = 0\n"
        [.assign [] "rate_window".toList (.scalar (.integer 0))] :=
      ⟨by unfold Reads; rfl, by decide, by decide, by decide⟩
    exact (houtcome _ _ hdocument).zeroWindow _
      (.cons (.rateWindow 0 (by decide)) .nil) (by decide) (by decide)
  · have hlarge : Overlong "rate_window = 9_223_372_036_854_775_808\n".toList :=
      ⟨([], "rate_window".toList), " 9_223_372_036_854_775_808\n".toList, by rfl,
        ⟨⟨9223372036854775808, ['\n'], by rfl, by decide⟩, by rfl, by rfl⟩⟩
    have hskip : skipMark "#\nrate_window = 9_223_372_036_854_775_808\n".toList =
        '#' :: '\n' :: "rate_window = 9_223_372_036_854_775_808\n".toList := by rfl
    exact hlong _ _ (hskip ▸ .empty rfl rfl rfl (.start _)) hlarge
  · apply hunread
    intro ss h
    unfold Reads at h
    have hnone : statements ("rate_window\n".toList.length + 1)
        (skipMark "rate_window\n".toList) = none := by rfl
    rw [hnone] at h
    cases h

end Document

end Headway.Config
