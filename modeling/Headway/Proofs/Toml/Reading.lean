import Mathlib.Data.Nat.Init
import Headway.Toml.Document

namespace Headway.Toml

def Reads (text : String) (ss : List Statement) : Prop :=
  statements (text.toList.length + 1) (skipMark text.toList) = some ss

section Reads

variable {text : String}

theorem ofText?_of_reads {ss : List Statement} (h : Reads text ss) :
    Node.ofText? text.toList = Node.ofStatements? ss := by
  rw [Reads] at h
  rw [Node.ofText?, h]

theorem ofText?_of_not_reads (h : ∀ ss, ¬ Reads text ss) : Node.ofText? text.toList = none := by
  rw [Node.ofText?, Option.eq_none_iff_forall_ne_some.mpr h]

end Reads

inductive Follows : List Char → List Char → Prop where
  | start (s : List Char) : Follows s s
  | empty {s more s' rest : List Char} {c : Char} (hs : skipBlanks s = c :: more)
      (hc : isEmptyLineStart c = true) (h : lineEnd false (c :: more) = some s')
      (hrest : Follows s' rest) : Follows s rest
  | statement {s more s' rest : List Char} {c : Char} {st : Statement}
      (hs : skipBlanks s = c :: more) (hc : isEmptyLineStart c = false)
      (h : statement (c :: more) = some (st, s')) (hrest : Follows s' rest) : Follows s rest

theorem Follows.statements_eq_none {s rest : List Char} (h : Follows s rest)
    (hrest : ∀ fuel, statements fuel rest = none) (fuel : ℕ) : statements fuel s = none := by
  induction h generalizing fuel with
  | start s => exact hrest fuel
  | empty hs hc h _ ih =>
    cases fuel with
    | zero => rfl
    | succ fuel =>
      rw [statements, hs]
      simp only
      rw [if_pos hc, h]
      exact ih hrest fuel
  | statement hs hc h _ ih =>
    cases fuel with
    | zero => rfl
    | succ fuel =>
      rw [statements, hs]
      simp only
      rw [if_neg (Bool.eq_false_iff.mp hc), h]
      simp only [ih hrest fuel, Option.map_none]

section Overlong

def wholeIn (base : ℕ) (isDigit : Char → Bool) (s : List Char) : Option (Int × List Char) :=
  (digitRun isDigit s).map fun (ds, rest) =>
    (ds.foldl (fun n c => base * n + (hexDigit? c).getD 0) 0, rest)

def whole : Reader Int
  | '0' :: 'x' :: rest => wholeIn 16 (fun c => (hexDigit? c).isSome) rest
  | '0' :: 'o' :: rest => wholeIn 8 (fun c => '0' ≤ c && c ≤ '7') rest
  | '0' :: 'b' :: rest => wholeIn 2 (fun c => c = '0' || c = '1') rest
  | s =>
    let (negative, s) := optionalSign s
    (plainDigits s).map fun (ds, rest) => (signed negative (Decimal.value ds), rest)

theorem integerIn_eq (base : ℕ) (isDigit : Char → Bool) (s : List Char) :
    integerIn base isDigit s = (wholeIn base isDigit s).filter (fitsWord ·.1) := by
  rw [integerIn, wholeIn]
  cases digitRun isDigit s with
  | none => rfl
  | some found => rfl

theorem integer_eq (s : List Char) : integer s = (whole s).filter (fitsWord ·.1) := by
  fun_cases whole s with
  | case1 rest => exact integerIn_eq _ _ _
  | case2 rest => exact integerIn_eq _ _ _
  | case3 rest => exact integerIn_eq _ _ _
  | case4 s hx ho hb negative digits hsign =>
    rw [integer, hsign]
    · simp only
      cases plainDigits digits with
      | none => rfl
      | some found => rfl
    · exact hx
    · exact ho
    · exact hb

def startsWhole (c : Char) : Bool := c.isDigit || c = '+' || c = '-'

theorem head_plainDigits {s : List Char} (h : (plainDigits s).isSome = true) :
    ∃ c more, s = c :: more ∧ c.isDigit = true := by
  fun_cases plainDigits s with
  | case1 rest => exact ⟨_, _, rfl, rfl⟩
  | case2 s hzero =>
    rw [plainDigits, digitRun.eq_def] at h
    · cases s with
      | nil => cases h
      | cons c more =>
        by_cases hc : c.isDigit = true
        · exact ⟨c, more, rfl, hc⟩
        · simp [hc] at h
    · exact hzero

theorem head_whole {s : List Char} (h : (whole s).isSome = true) :
    ∃ c more, s = c :: more ∧ startsWhole c = true := by
  fun_cases whole s with
  | case1 | case2 | case3 => exact ⟨_, _, rfl, rfl⟩
  | case4 s hx ho hb negative digits hsign =>
    rw [whole, hsign, Option.isSome_map] at h
    · fun_cases optionalSign s with
      | case1 | case2 => exact ⟨_, _, rfl, rfl⟩
      | case3 s hplus hminus =>
        rw [optionalSign] at hsign
        · cases hsign
          obtain ⟨c, more, rfl, hc⟩ := head_plainDigits h
          exact ⟨c, more, rfl, by simp [startsWhole, hc]⟩
        · exact hplus
        · exact hminus
    · exact hx
    · exact ho
    · exact hb

structure TooLarge (v : List Char) : Prop where
  beyond : ∃ n rest, whole v = some (n, rest) ∧ fitsWord n = false
  no_datetime : datetime v = none
  no_real : real v = none

theorem TooLarge.number_eq_none {v : List Char} (h : TooLarge v) : number v = none := by
  obtain ⟨⟨n, rest, hn, hfits⟩, hdatetime, hreal⟩ := h
  rw [number, hdatetime, hreal, integer_eq, hn]
  simp [hfits]

theorem TooLarge.node_eq_none {v : List Char} (h : TooLarge v) (depth : ℕ) :
    node depth v = none := by
  have hnumber := h.number_eq_none
  obtain ⟨⟨n, rest, hn, -⟩, -, -⟩ := h
  obtain ⟨c, more, rfl, hc⟩ := head_whole (by rw [hn]; rfl)
  have hscalar : scalar (c :: more) = none := by
    rw [scalar]
    · exact hnumber
    all_goals
      rintro _ he
      obtain ⟨rfl, -⟩ := List.cons.inj he
      cases hc
  rw [node, hscalar]
  · rfl
  all_goals
    rintro _ _ - he
    obtain ⟨rfl, -⟩ := List.cons.inj he
    cases hc

def Overlong (s : List Char) : Prop :=
  ∃ path v, keyPath (skipBlanks s) = some (path, '=' :: v) ∧ TooLarge (skipBlanks v)

theorem head_keyPath {c : Char} {s : List Char} (h : (keyPath (c :: s)).isSome = true) :
    c ≠ '[' ∧ isEmptyLineStart c = false := by
  constructor
  · rintro rfl
    cases h
  · rw [Bool.eq_false_iff, isEmptyLineStart]
    intro hc
    simp only [Bool.or_eq_true, decide_eq_true_eq] at hc
    obtain (rfl | rfl) | rfl := hc <;> cases h

theorem Overlong.statements_eq_none {s : List Char} (h : Overlong s) (fuel : ℕ) :
    statements fuel s = none := by
  obtain ⟨path, v, hpath, hv⟩ := h
  cases fuel with
  | zero => rfl
  | succ fuel =>
    rw [statements]
    cases hs : skipBlanks s with
    | nil =>
      rw [hs] at hpath
      cases hpath
    | cons c more =>
      rw [hs] at hpath
      obtain ⟨hbracket, hline⟩ := head_keyPath (by rw [hpath]; rfl)
      have hassign : assignment (node nesting) (c :: more) = none := by
        rw [assignment, hpath]
        simp only [hv.node_eq_none, Option.map_none]
      have hstatement : statement (c :: more) = none := by
        rw [statement, hassign]
        all_goals
          rintro _ he
          exact hbracket (List.cons.inj he).1
      simp only [hline, Bool.false_eq_true, if_false, hstatement]

theorem ofText?_of_overlong {text : String} {rest : List Char}
    (h : Follows (skipMark text.toList) rest) (hrest : Overlong rest) :
    Node.ofText? text.toList = none := by
  rw [Node.ofText?, h.statements_eq_none hrest.statements_eq_none]

end Overlong

end Headway.Toml
