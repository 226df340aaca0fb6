import Headway.Config.Load
import Headway.Proofs.Toml.Written

namespace Headway.Config

open Headway.Toml

variable {c : Config} {n : Node}

def written (c : Config) : List Line :=
  [.assignment "enabled".toList (.boolean c.enabled) (tomlBool c.enabled),
    .assignment "interval_secs".toList (.integer c.intervalSecs.toNat)
      (Decimal.digits c.intervalSecs.toNat),
    .assignment "dry_run".toList (.boolean c.dryRun) (tomlBool c.dryRun),
    .assignment "format".toList (.text (formatName c.format)) ('"' :: formatName c.format ++ ['"']),
    .assignment "stall_floor_secs".toList (.integer c.stallFloorSecs.toNat)
      (Decimal.digits c.stallFloorSecs.toNat),
    .assignment "rate_window".toList (.integer c.rateWindow.toNat)
      (Decimal.digits c.rateWindow.toNat)]

def Writable (c : Config) : Prop := c.stallFloorSecs.toNat < wordEnd ∧ c.rateWindow.toNat < wordEnd

theorem lines_eq (c : Config) : c.lines = c.written.flatMap Line.text := by
  simp [lines, written, line, Line.text]

theorem toToml?_eq_some_iff {text : List Char} :
    c.toToml? = some text ↔ c.Writable ∧ text = c.lines := by
  rw [toToml?, Writable]
  split
  next h => simp [h, eq_comm]
  next h => simp [h]

theorem proper_written (h : c.Writable) : ∀ l ∈ c.written, l.Proper := by
  have hinterval : c.intervalSecs.toNat < wordEnd :=
    Nat.lt_trans c.intervalSecs.toNat_lt (by decide)
  have hformat : Written (.text (formatName c.format)) ('"' :: formatName c.format ++ ['"']) := by
    apply Written.text
    cases c.format <;> simp [formatName, isPlain]
  intro l hl
  simp only [written, List.mem_cons, List.not_mem_nil, or_false] at hl
  obtain rfl | rfl | rfl | rfl | rfl | rfl := hl
  · exact ⟨List.all_eq_true.mp (by decide), by decide, .boolean _⟩
  · exact ⟨List.all_eq_true.mp (by decide), by decide, .integer _ hinterval⟩
  · exact ⟨List.all_eq_true.mp (by decide), by decide, .boolean _⟩
  · exact ⟨List.all_eq_true.mp (by decide), by decide, hformat⟩
  · exact ⟨List.all_eq_true.mp (by decide), by decide, .integer _ h.1⟩
  · exact ⟨List.all_eq_true.mp (by decide), by decide, .integer _ h.2⟩

theorem readCount_integer {bound n : ℕ} (h : n < bound) :
    readCount bound (.scalar (.integer n)) = some n := by
  have hn : (n : Int) < bound := by omega
  rw [readCount, if_pos ⟨by omega, hn⟩, Int.toNat_natCast]

theorem readFormat_formatName (f : Format) :
    readFormat (.scalar (.text (formatName f))) = some f := by
  cases f <;> rfl

theorem field_of_lookup {α : Type} {entries : Entries} {k : String}
    (h : entries.lookup k.toList = some n) (default : α) (read : Node → Option α) :
    field entries k default read = read n := by
  rw [field, h]

theorem ofNode?_written (h : c.Writable) :
    ofNode? (.table .written (c.written.filterMap Line.entry?)) = some c := by
  rw [ofNode?, field_of_lookup (n := .scalar (.boolean c.enabled)) rfl,
    field_of_lookup (n := .scalar (.integer c.intervalSecs.toNat)) rfl,
    field_of_lookup (n := .scalar (.boolean c.dryRun)) rfl,
    field_of_lookup (n := .scalar (.text (formatName c.format))) rfl,
    field_of_lookup (n := .scalar (.integer c.stallFloorSecs.toNat)) rfl,
    field_of_lookup (n := .scalar (.integer c.rateWindow.toNat)) rfl,
    readCount_integer c.intervalSecs.toNat_lt, readCount_integer h.1, readCount_integer h.2,
    readFormat_formatName]
  simp [readBool]

theorem ofToml?_written (h : c.Writable) {notes : List (List Char)}
    (hnotes : ∀ cs ∈ notes, ∀ x ∈ cs, isPlain x = true) :
    ofToml? (notes.flatMap (fun cs => '#' :: cs ++ ['\n']) ++ c.lines) = some c := by
  have htext : notes.flatMap (fun cs => '#' :: cs ++ ['\n']) ++ c.lines =
      (notes.map Line.comment ++ c.written).flatMap Line.text := by
    rw [List.flatMap_append, List.flatMap_map, lines_eq]
    rfl
  have hentries : (notes.map Line.comment ++ c.written).filterMap Line.entry? =
      c.written.filterMap Line.entry? := by
    rw [List.filterMap_append, List.filterMap_map]
    simp [Function.comp_def, Line.entry?]
  have hproper : ∀ l ∈ notes.map Line.comment ++ c.written, l.Proper := by
    intro l hl
    rcases List.mem_append.mp hl with hl | hl
    · obtain ⟨cs, hcs, rfl⟩ := List.mem_map.mp hl
      exact hnotes cs hcs
    · exact proper_written h l hl
  have hkeys : ((c.written.filterMap Line.entry?).map Prod.fst).Nodup := by
    change (["enabled", "interval_secs", "dry_run", "format", "stall_floor_secs",
      "rate_window"].map String.toList).Nodup
    decide
  rw [htext, ofToml?, ofText?_lines hproper (by rw [hentries]; exact hkeys), hentries]
  exact ofNode?_written h

theorem ofToml?_lines (h : c.Writable) : ofToml? c.lines = some c := by
  have hnotes : ∀ cs ∈ ([] : List (List Char)), ∀ x ∈ cs, isPlain x = true := by simp
  have hread := ofToml?_written h hnotes
  rw [List.flatMap_nil, List.nil_append] at hread
  exact hread

theorem field_lt {entries : Entries} {k : String} {default bound v : ℕ} (hd : default < bound)
    (h : field entries k default (readCount bound) = some v) : v < bound := by
  rw [field] at h
  split at h
  · cases h
    exact hd
  · unfold readCount at h
    split at h
    · split at h
      next hb =>
        cases h
        omega
      next => cases h
    · cases h

theorem writable_of_ofNode? (h : ofNode? n = some c) : c.Writable := by
  cases n with
  | table origin entries =>
    simp only [ofNode?, Option.bind_eq_bind, Option.bind_eq_some_iff] at h
    obtain ⟨enabled, -, interval, -, dryRun, -, format, -, floor, hfloor, window, hwindow, h⟩ := h
    cases h
    have hf := field_lt (by decide) hfloor
    have hw := field_lt (by decide) hwindow
    simp only [Writable, wordEnd] at hf hw ⊢
    constructor <;> simp <;> omega
  | scalar v => cases h
  | array items => cases h
  | tables items => cases h

theorem load_eq_ok_iff {path text : String} :
    load path (.ok text) = .ok c ↔ ofToml? text.toList = some c ∧ c.validate = .ok () := by
  rw [load]
  cases ofToml? text.toList with
  | none => simp
  | some c' =>
    simp only [Option.some.injEq]
    cases hv : c'.validate with
    | ok u =>
      simp only [Except.ok.injEq]
      constructor
      · rintro rfl
        exact ⟨rfl, hv⟩
      · exact And.left
    | error r =>
      simp only [reduceCtorEq, false_iff]
      rintro ⟨rfl, h⟩
      rw [hv] at h
      cases h

theorem writable_of_load {path text : String} (h : load path (.ok text) = .ok c) :
    c.Writable := by
  obtain ⟨h, -⟩ := load_eq_ok_iff.mp h
  rw [ofToml?] at h
  split at h
  · exact writable_of_ofNode? h
  · cases h

end Headway.Config
