import Mathlib.Data.List.Nodup
import Headway.Proofs.Decimal.Numeral
import Headway.Toml.Document

namespace Headway.Toml

open Headway.Decimal

section Digits

def endsNumber (c : Char) : Bool :=
  !c.isDigit && decide (c ∉ ['_', '.', 'e', 'E', '-', ':', 'x', 'o', 'b'])

variable {ds rest : List Char} {c : Char} {n : ℕ}

theorem not_isDigit_of_endsNumber (hc : endsNumber c = true) : c.isDigit = false := by
  rw [endsNumber, Bool.and_eq_true] at hc
  simpa using hc.1

theorem not_mem_of_endsNumber (hc : endsNumber c = true) :
    c ∉ ['_', '.', 'e', 'E', '-', ':', 'x', 'o', 'b'] := by
  rw [endsNumber, Bool.and_eq_true] at hc
  exact of_decide_eq_true hc.2

theorem moreDigits_append (hd : ∀ d ∈ ds, d.isDigit = true) (hne : ds ≠ [])
    (hc : endsNumber c = true) (rest : List Char) :
    moreDigits Char.isDigit (ds ++ c :: rest) = (ds, c :: rest) := by
  have hdigit := not_isDigit_of_endsNumber hc
  have hother : c ≠ '_' := fun h => not_mem_of_endsNumber hc (by simp [h])
  induction ds with
  | nil => exact absurd rfl hne
  | cons d ds ih =>
    have hfirst := hd d List.mem_cons_self
    cases ds with
    | nil =>
      rw [List.cons_append, List.nil_append, moreDigits, if_pos hfirst]
      cases rest with
      | nil => simp [moreDigits, hdigit]
      | cons r rest => simp [moreDigits, hdigit, hother]
    | cons d' ds =>
      have hrest := ih (fun x hx => hd x (List.mem_cons_of_mem d hx)) (List.cons_ne_nil d' ds)
      rw [List.cons_append, List.cons_append, moreDigits, if_pos hfirst, ← List.cons_append, hrest]

theorem exists_digits (n : ℕ) : ∃ d ds, digits n = d :: ds ∧ d.isDigit = true := by
  obtain ⟨d, ds, hds⟩ := List.exists_cons_of_ne_nil (digits_ne_nil n)
  exact ⟨d, ds, hds, isDigit_of_mem_digits (hds ▸ List.mem_cons_self)⟩

theorem plainDigits_digits (n : ℕ) (hc : endsNumber c = true) (rest : List Char) :
    plainDigits (digits n ++ c :: rest) = some (digits n, c :: rest) := by
  have hd : ∀ d ∈ digits n, d.isDigit = true := fun d => isDigit_of_mem_digits
  have hmore := moreDigits_append hd (digits_ne_nil n) hc rest
  by_cases hn : n = 0
  · subst hn
    rfl
  · have hzero := head?_digits hn
    obtain ⟨d, ds, hds, hfirst⟩ := exists_digits n
    rw [hds] at hmore hzero ⊢
    have hne : d ≠ '0' := fun h => hzero (by rw [h]; rfl)
    rw [List.cons_append] at hmore ⊢
    rw [plainDigits, digitRun, if_pos hfirst, hmore]
    exact fun _ h => hne (List.cons.inj h).1

theorem fixedDigits_append (hd : ∀ d ∈ ds, d.isDigit = true) (hc : c.isDigit = false) {width v : ℕ}
    {s : List Char} (h : fixedDigits width (ds ++ c :: rest) = some (v, s)) :
    ∃ left, s = left ++ c :: rest ∧ ∀ d ∈ left, d.isDigit = true := by
  rw [fixedDigits] at h
  split at h
  next hall =>
    rw [Bool.and_eq_true, decide_eq_true_eq, List.all_eq_true] at hall
    obtain ⟨hlength, hdigits⟩ := hall
    cases h
    have hle : width ≤ ds.length := by
      by_contra hlt
      have hmem : c ∈ (ds ++ c :: rest).take width := by
        rw [List.take_append, show width - ds.length = width - ds.length - 1 + 1 by omega,
          List.take_succ_cons]
        simp
      rw [hdigits c hmem] at hc
      cases hc
    refine ⟨ds.drop width, List.drop_append_of_le_length hle, ?_⟩
    intro d hmem
    exact hd d (List.mem_of_mem_drop hmem)
  next => cases h

theorem expect_append {left : List Char} (hd : ∀ d ∈ left, d.isDigit = true) {x : Char}
    (hx : x.isDigit = false) (hc : x ≠ c) : expect x (left ++ c :: rest) = none := by
  cases left with
  | nil => exact if_neg hc
  | cons d left =>
    apply if_neg
    rintro rfl
    rw [hd x List.mem_cons_self] at hx
    cases hx

variable (hd : ∀ d ∈ ds, d.isDigit = true) (hc : endsNumber c = true)

include hd hc

theorem date_append : date (ds ++ c :: rest) = none := by
  have hdash : '-' ≠ c := fun h => not_mem_of_endsNumber hc (by simp [← h])
  rw [date]
  cases hf : fixedDigits 4 (ds ++ c :: rest) with
  | none => rfl
  | some found =>
    obtain ⟨left, hs, hleft⟩ := fixedDigits_append hd (not_isDigit_of_endsNumber hc) hf
    simp only [Option.bind_eq_bind, Option.bind_some, hs, expect_append hleft rfl hdash,
      Option.bind_none]

theorem time_append : time (ds ++ c :: rest) = none := by
  have hcolon : ':' ≠ c := fun h => not_mem_of_endsNumber hc (by simp [← h])
  rw [time]
  cases hf : fixedDigits 2 (ds ++ c :: rest) with
  | none => rfl
  | some found =>
    obtain ⟨left, hs, hleft⟩ := fixedDigits_append hd (not_isDigit_of_endsNumber hc) hf
    simp only [Option.bind_eq_bind, Option.bind_some, hs, expect_append hleft rfl hcolon,
      Option.bind_none]

theorem datetime_append : datetime (ds ++ c :: rest) = none := by
  rw [datetime, date_append hd hc, time_append hd hc]
  rfl

omit hd in
theorem realTail_cons : realTail (c :: rest) = none := by
  have hne := not_mem_of_endsNumber hc
  simp only [List.mem_cons, List.not_mem_nil, or_false, not_or] at hne
  obtain ⟨-, hpoint, he, hE, -⟩ := hne
  have hf : fraction (c :: rest) = none := by
    rw [fraction]
    rintro _ ⟨rfl, -⟩
    exact hpoint rfl
  rw [realTail, hf]
  simp [exponent, he, hE]

end Digits

section Number

variable {rest : List Char} {c : Char}

theorem optionalSign_of_isDigit {d : Char} (hd : d.isDigit = true) (s : List Char) :
    optionalSign (d :: s) = (false, d :: s) := by
  rw [optionalSign]
  · rintro _ ⟨rfl, -⟩
    cases hd
  · rintro _ ⟨rfl, -⟩
    cases hd

theorem real_digits (n : ℕ) (hc : endsNumber c = true) : real (digits n ++ c :: rest) = none := by
  have hplain := plainDigits_digits n hc rest
  obtain ⟨d, ds, hds, hd⟩ := exists_digits n
  rw [hds, List.cons_append] at hplain ⊢
  rw [real, optionalSign_of_isDigit hd]
  simp only
  split
  next h =>
    obtain ⟨rfl, -⟩ := List.cons.inj h
    cases hd
  next h =>
    obtain ⟨rfl, -⟩ := List.cons.inj h
    cases hd
  next => rw [hplain]; simp only [realTail_cons hc]

theorem digits_append_ne (n : ℕ) {x : Char} (hx : c ≠ x) (more : List Char) :
    digits n ++ c :: rest ≠ '0' :: x :: more := by
  intro h
  by_cases hn : n = 0
  · subst hn
    obtain ⟨-, h⟩ := List.cons.inj h
    exact hx (List.cons.inj h).1
  · have hhead := congrArg List.head? h
    rw [List.head?_append_of_ne_nil _ (digits_ne_nil n)] at hhead
    exact head?_digits hn hhead

theorem integer_digits (n : ℕ) (hn : n < wordEnd) (hc : endsNumber c = true) :
    integer (digits n ++ c :: rest) = some ((n : Int), c :: rest) := by
  have hplain := plainDigits_digits n hc rest
  have hne := not_mem_of_endsNumber hc
  simp only [List.mem_cons, List.not_mem_nil, or_false, not_or] at hne
  obtain ⟨-, -, -, -, -, -, hx, ho, hb⟩ := hne
  have hfits : fitsWord (signed false n) = true := by
    simp only [fitsWord, signed, wordEnd] at hn ⊢
    simp
    omega
  have hsign : optionalSign (digits n ++ c :: rest) = (false, digits n ++ c :: rest) := by
    obtain ⟨d, ds, hds, hd⟩ := exists_digits n
    rw [hds]
    exact optionalSign_of_isDigit hd _
  rw [integer]
  · simp only [hsign, hplain, value_digits]
    rw [if_pos hfits]
    rfl
  · exact digits_append_ne n hx
  · exact digits_append_ne n ho
  · exact digits_append_ne n hb

theorem number_digits (n : ℕ) (hn : n < wordEnd) (hc : endsNumber c = true) (rest : List Char) :
    number (digits n ++ c :: rest) = some (.integer n, c :: rest) := by
  have hd : ∀ d ∈ digits n, d.isDigit = true := fun d => isDigit_of_mem_digits
  rw [number, datetime_append hd hc, real_digits n hc, integer_digits n hn hc]
  rfl

end Number

section Value

variable {rest : List Char}

theorem quoted_append {cs : List Char} (h : ∀ c ∈ cs, isPlain c = true ∧ c ≠ '"' ∧ c ≠ '\\')
    (rest : List Char) : quoted (cs ++ '"' :: rest) = some (cs, rest) := by
  induction cs with
  | nil =>
    rw [List.nil_append, quoted]
  | cons c cs ih =>
    obtain ⟨hplain, hquote, hslash⟩ := h c List.mem_cons_self
    have hcs := ih fun x hx => h x (List.mem_cons_of_mem c hx)
    rw [List.cons_append, quoted, if_pos hplain, hcs]
    · rfl
    · exact hquote
    · exact hslash

inductive Written : Scalar → List Char → Prop where
  | boolean (b : Bool) : Written (.boolean b) (if b then "true" else "false").toList
  | integer (n : ℕ) (h : n < wordEnd) : Written (.integer n) (digits n)
  | text (cs : List Char) (h : ∀ c ∈ cs, isPlain c = true ∧ c ≠ '"' ∧ c ≠ '\\') :
      Written (.text cs) ('"' :: cs ++ ['"'])

theorem scalar_digits (n : ℕ) (hn : n < wordEnd) {c : Char} (hc : endsNumber c = true) :
    scalar (digits n ++ c :: rest) = some (.integer n, c :: rest) := by
  have hnumber := number_digits n hn hc rest
  obtain ⟨d, ds, hds, hd⟩ := exists_digits n
  rw [hds, List.cons_append] at hnumber ⊢
  rw [scalar]
  · exact hnumber
  all_goals
    rintro _ h
    obtain ⟨rfl, -⟩ := List.cons.inj h
    cases hd

theorem text_quoted {cs : List Char} (h : ∀ c ∈ cs, isPlain c = true ∧ c ≠ '"' ∧ c ≠ '\\')
    {c : Char} (hc : c ≠ '"') : text ('"' :: (cs ++ '"' :: c :: rest)) = some (cs, c :: rest) := by
  rw [text]
  · exact quoted_append h _
  · rintro more he
    cases cs with
    | nil =>
      obtain ⟨-, he⟩ := List.cons.inj he
      exact hc (List.cons.inj he).1
    | cons x cs =>
      obtain ⟨he, -⟩ := List.cons.inj he
      exact (h x List.mem_cons_self).2.1 he

theorem scalar_written {v : Scalar} {cs : List Char} (h : Written v cs) (rest : List Char) :
    scalar (cs ++ '\n' :: rest) = some (v, '\n' :: rest) := by
  cases h with
  | boolean b => cases b <;> rfl
  | integer n hn => exact scalar_digits n hn (by decide)
  | text cs hcs =>
    rw [List.append_assoc, List.singleton_append, List.cons_append, scalar,
      text_quoted hcs (by decide)]
    rfl

theorem head_written {v : Scalar} {cs : List Char} (h : Written v cs) :
    ∃ c more, cs = c :: more ∧ c ≠ '[' ∧ c ≠ '\x7b' ∧ isBlank c = false := by
  cases h with
  | boolean b => cases b <;> exact ⟨_, _, rfl, by decide, by decide, by decide⟩
  | integer n hn =>
    obtain ⟨d, ds, hds, hd⟩ := exists_digits n
    refine ⟨d, ds, hds, ?_, ?_, ?_⟩
    · rintro rfl
      cases hd
    · rintro rfl
      cases hd
    · rw [isBlank, Bool.or_eq_false_iff, decide_eq_false_iff_not, decide_eq_false_iff_not]
      constructor
      · rintro rfl
        cases hd
      · rintro rfl
        cases hd
  | text cs hcs => exact ⟨_, _, rfl, by decide, by decide, by decide⟩

theorem node_written {v : Scalar} {cs : List Char} (h : Written v cs) (depth : ℕ)
    (rest : List Char) :
    node depth (cs ++ '\n' :: rest) = some (.scalar v, '\n' :: rest) := by
  have hscalar := scalar_written h rest
  obtain ⟨c, more, rfl, hbracket, hbrace, -⟩ := head_written h
  rw [List.cons_append] at hscalar ⊢
  rw [node, hscalar]
  · rfl
  · rintro _ _ - he
    exact hbracket (List.cons.inj he).1
  · rintro _ _ - he
    exact hbrace (List.cons.inj he).1

end Value

section Line

variable {k rest : List Char} (hk : ∀ c ∈ k, isBare c = true) (hne : k ≠ [])

theorem isBare_imp {c : Char} (h : isBare c = true) :
    isBlank c = false ∧ isEmptyLineStart c = false ∧ c ∉ ['"', '\'', '['] := by
  have hne (x : Char) (hx : isBare x = false) : c ≠ x := by
    rintro rfl
    rw [h] at hx
    cases hx
  simp [isBlank, isEmptyLineStart, hne ' ' (by decide), hne '\t' (by decide), hne '#' (by decide),
    hne '\n' (by decide), hne '\r' (by decide), hne '"' (by decide), hne '\'' (by decide),
    hne '[' (by decide)]

theorem skipBlanks_cons {c : Char} (h : isBlank c = false) (s : List Char) :
    skipBlanks (c :: s) = c :: s := by
  rw [skipBlanks, List.dropWhile_cons, h]
  rfl

include hk hne

theorem key_bare (rest : List Char) : key (k ++ ' ' :: rest) = some (k, ' ' :: rest) := by
  have htake : (k ++ ' ' :: rest).takeWhile isBare = k := by
    rw [List.takeWhile_append_of_pos hk]
    exact List.append_nil k
  have hdrop : (k ++ ' ' :: rest).dropWhile isBare = ' ' :: rest := by
    rw [List.dropWhile_append_of_pos hk]
    rfl
  obtain ⟨c, more, rfl⟩ := List.exists_cons_of_ne_nil hne
  obtain ⟨-, -, hc⟩ := isBare_imp (hk c List.mem_cons_self)
  rw [key]
  · rw [htake, hdrop]
  · rintro _ he
    exact hc (by simp [(List.cons.inj he).1])
  · rintro _ he
    exact hc (by simp [(List.cons.inj he).1])

theorem keyPath_bare (rest : List Char) :
    keyPath (k ++ ' ' :: '=' :: rest) = some (([], k), '=' :: rest) := by
  have hkey := key_bare hk hne ('=' :: rest)
  have hskip : skipBlanks (k ++ ' ' :: '=' :: rest) = k ++ ' ' :: '=' :: rest := by
    obtain ⟨c, more, rfl⟩ := List.exists_cons_of_ne_nil hne
    exact skipBlanks_cons (isBare_imp (hk c List.mem_cons_self)).1 _
  have hkeys (fuel : ℕ) : keys (fuel + 1) (k ++ ' ' :: '=' :: rest) = some ([k], '=' :: rest) := by
    rw [keys, hskip, hkey]
    rfl
  obtain ⟨n, hn⟩ : ∃ n, (k ++ ' ' :: '=' :: rest).length = n + 1 := ⟨_, List.length_append⟩
  rw [keyPath, hn, hkeys]
  rfl

theorem statement_line {v : Scalar} {cs : List Char} (h : Written v cs) (rest : List Char) :
    statement (k ++ ' ' :: '=' :: ' ' :: (cs ++ '\n' :: rest)) =
      some (.assign [] k (.scalar v), rest) := by
  have hassign : assignment (node nesting) (k ++ ' ' :: '=' :: ' ' :: (cs ++ '\n' :: rest)) =
      some (([], k, .scalar v), '\n' :: rest) := by
    have hnode := node_written h nesting rest
    obtain ⟨c, more, rfl, -, -, hc⟩ := head_written h
    have hskip : skipBlanks (' ' :: (c :: more ++ '\n' :: rest)) = c :: more ++ '\n' :: rest :=
      skipBlanks_cons hc _
    rw [assignment, keyPath_bare hk hne]
    simp only
    rw [hskip, hnode]
    rfl
  obtain ⟨c, more, rfl⟩ := List.exists_cons_of_ne_nil hne
  obtain ⟨-, -, hc⟩ := isBare_imp (hk c List.mem_cons_self)
  rw [statement, hassign]
  · rfl
  · rintro _ he
    exact hc (by simp [(List.cons.inj he).1])
  · rintro _ he
    exact hc (by simp [(List.cons.inj he).1])

end Line

section Document

inductive Line where
  | comment (cs : List Char)
  | assignment (k : Key) (v : Scalar) (cs : List Char)

namespace Line

def text : Line → List Char
  | comment cs => '#' :: cs ++ ['\n']
  | assignment k _ cs => k ++ ' ' :: '=' :: ' ' :: cs ++ ['\n']

def Proper : Line → Prop
  | comment cs => ∀ c ∈ cs, isPlain c = true
  | assignment k v cs => (∀ c ∈ k, isBare c = true) ∧ k ≠ [] ∧ Written v cs

def entry? : Line → Option (Key × Node)
  | comment _ => none
  | assignment k v _ => some (k, .scalar v)

end Line

variable {l : Line} {ls : List Line}

theorem lineEnd_comment {cs : List Char} (h : ∀ c ∈ cs, isPlain c = true) (rest : List Char) :
    lineEnd true (cs ++ '\n' :: rest) = some rest := by
  induction cs with
  | nil => rfl
  | cons c cs ih =>
    have hc := h c List.mem_cons_self
    have hcs := ih fun x hx => h x (List.mem_cons_of_mem c hx)
    rw [List.cons_append, lineEnd, if_pos rfl, if_pos hc, hcs]
    · rintro rfl
      cases hc
    · rintro _ rfl
      cases hc

theorem head_text (h : l.Proper) :
    ∃ c more, l.text = c :: more ∧ isBlank c = false ∧ c ≠ '\ufeff' := by
  cases l with
  | comment cs => exact ⟨_, _, rfl, by decide, by decide⟩
  | assignment k v cs =>
    obtain ⟨hk, hne, -⟩ := h
    obtain ⟨c, more, rfl⟩ := List.exists_cons_of_ne_nil hne
    have hc := hk c List.mem_cons_self
    refine ⟨c, _, rfl, (isBare_imp hc).1, ?_⟩
    rintro rfl
    cases hc

theorem statements_line (h : l.Proper) (fuel : ℕ) (rest : List Char) :
    statements (fuel + 1) (l.text ++ rest) =
      (statements fuel rest).map
        ((l.entry?.map fun e => Statement.assign [] e.1 e.2).toList ++ ·) := by
  have hskip : skipBlanks (l.text ++ rest) = l.text ++ rest := by
    obtain ⟨c, more, htext, hc, -⟩ := head_text h
    rw [htext]
    exact skipBlanks_cons hc _
  cases l with
  | comment cs =>
    have hend : lineEnd false ('#' :: (cs ++ '\n' :: rest)) = some rest := lineEnd_comment h rest
    rw [statements, hskip]
    simp [Line.text, Line.entry?, isEmptyLineStart, hend]
  | assignment k v cs =>
    obtain ⟨hk, hne, hv⟩ := h
    have htext : (Line.assignment k v cs).text ++ rest =
        k ++ ' ' :: '=' :: ' ' :: (cs ++ '\n' :: rest) := by
      simp [Line.text]
    have hline := statement_line hk hne hv rest
    rw [statements, hskip, htext]
    obtain ⟨c, more, rfl⟩ := List.exists_cons_of_ne_nil hne
    have hc := (isBare_imp (hk c List.mem_cons_self)).2.1
    rw [List.cons_append] at hline ⊢
    simp only [hc, Bool.false_eq_true, if_false, hline]
    rfl

theorem statements_lines (h : ∀ l ∈ ls, l.Proper) (fuel : ℕ) :
    statements (ls.length + fuel + 1) (ls.flatMap Line.text) =
      some ((ls.filterMap Line.entry?).map fun e => .assign [] e.1 e.2) := by
  induction ls with
  | nil => rfl
  | cons l ls ih =>
    have hls := ih fun x hx => h x (List.mem_cons_of_mem l hx)
    have hl := h l List.mem_cons_self
    rw [List.flatMap_cons, List.length_cons, Nat.add_right_comm ls.length 1 fuel,
      statements_line hl, hls, Option.map_some, List.filterMap_cons]
    cases l.entry? <;> rfl

theorem length_le_length_text (h : ∀ l ∈ ls, l.Proper) :
    ls.length ≤ (ls.flatMap Line.text).length := by
  induction ls with
  | nil => exact Nat.le_refl 0
  | cons l ls ih =>
    have hls := ih fun x hx => h x (List.mem_cons_of_mem l hx)
    obtain ⟨c, more, htext, -⟩ := head_text (h l List.mem_cons_self)
    rw [List.flatMap_cons, List.length_append, List.length_cons, htext, List.length_cons]
    omega

theorem foldlM_assign (es old : Entries) (h : ((old ++ es).map Prod.fst).Nodup) :
    (es.map fun e => Statement.assign [] e.1 e.2).foldlM Draft.add ⟨.table .written old, []⟩ =
      some ⟨.table .written (old ++ es), []⟩ := by
  induction es generalizing old with
  | nil => rw [List.append_nil]; rfl
  | cons e es ih =>
    rw [List.append_cons] at h
    have hnew : old.lookup e.1 = none := by
      rw [List.append_assoc, List.map_append, List.nodup_append] at h
      rw [List.lookup_eq_none_iff]
      intro e' he'
      have hne := h.2.2 e'.1 (List.mem_map_of_mem he') e.1 (by simp)
      exact bne_iff_ne.mpr hne.symm
    have hadd : Draft.add ⟨.table .written old, []⟩ (.assign [] e.1 e.2) =
        some ⟨.table .written (old ++ [e]), []⟩ := by
      simp [Draft.add, Node.atPath, Node.insert, Node.assign, hnew]
    rw [List.map_cons, List.foldlM_cons, hadd, List.append_cons old e es]
    exact ih (old ++ [e]) h

theorem ofText?_lines (h : ∀ l ∈ ls, l.Proper)
    (hkeys : ((ls.filterMap Line.entry?).map Prod.fst).Nodup) :
    Node.ofText? (ls.flatMap Line.text) = some (.table .written (ls.filterMap Line.entry?)) := by
  have hmark : skipMark (ls.flatMap Line.text) = ls.flatMap Line.text := by
    cases ls with
    | nil => rfl
    | cons l ls =>
      obtain ⟨c, more, htext, -, hc⟩ := head_text (h l List.mem_cons_self)
      rw [List.flatMap_cons, htext, List.cons_append, skipMark]
      rintro _ he
      exact hc (List.cons.inj he).1
  obtain ⟨fuel, hfuel⟩ := Nat.exists_eq_add_of_le (length_le_length_text h)
  rw [Node.ofText?, hmark, hfuel, statements_lines h]
  exact congrArg (Option.map Draft.root) (foldlM_assign _ [] hkeys)

end Document

end Headway.Toml
