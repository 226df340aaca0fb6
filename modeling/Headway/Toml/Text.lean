namespace Headway.Toml

abbrev Reader (α : Type) := List Char → Option (α × List Char)

def isBlank (c : Char) : Bool := c = ' ' || c = '\t'

def isPlain (c : Char) : Bool := c = '\t' || (decide (32 ≤ c.toNat) && decide (c.toNat ≠ 127))

def isBare (c : Char) : Bool := c.isAlphanum || c = '_' || c = '-'

def skipBlanks (s : List Char) : List Char := s.dropWhile isBlank

def lineEnd (inComment : Bool) : List Char → Option (List Char)
  | [] => some []
  | '\n' :: rest => some rest
  | '\r' :: '\n' :: rest => some rest
  | c :: rest =>
    if inComment then if isPlain c then lineEnd true rest else none
    else if isBlank c then lineEnd false rest
    else if c = '#' then lineEnd true rest
    else none

def skipLines (inComment : Bool) : List Char → Option (List Char)
  | [] => some []
  | '\n' :: rest => skipLines false rest
  | '\r' :: '\n' :: rest => skipLines false rest
  | c :: rest =>
    if inComment then if isPlain c then skipLines true rest else none
    else if isBlank c then skipLines false rest
    else if c = '#' then skipLines true rest
    else some (c :: rest)

def escaped? : Char → Option Char
  | 'b' => some '\x08'
  | 't' => some '\t'
  | 'n' => some '\n'
  | 'f' => some '\x0c'
  | 'r' => some '\r'
  | '"' => some '"'
  | '\\' => some '\\'
  | _ => none

def hexDigit? (c : Char) : Option Nat :=
  if c.isDigit then some (c.toNat - '0'.toNat)
  else if 'a' ≤ c ∧ c ≤ 'f' then some (c.toNat - 'a'.toNat + 10)
  else if 'A' ≤ c ∧ c ≤ 'F' then some (c.toNat - 'A'.toNat + 10)
  else none

def hexValue? (cs : List Char) : Option Nat :=
  cs.foldlM (fun n c => (hexDigit? c).map (16 * n + ·)) 0

def codePoint? (cs : List Char) : Option Char :=
  match hexValue? cs with
  | some n => if n.isValidChar then some (Char.ofNat n) else none
  | none => none

def escape : Reader Char
  | 'u' :: rest =>
    if rest.length < 4 then none else (codePoint? (rest.take 4)).map fun c => (c, rest.drop 4)
  | 'U' :: rest =>
    if rest.length < 8 then none else (codePoint? (rest.take 8)).map fun c => (c, rest.drop 8)
  | c :: rest => (escaped? c).map fun c => (c, rest)
  | [] => none

theorem length_escape {s rest : List Char} {c : Char} (h : escape s = some (c, rest)) :
    rest.length < s.length := by
  unfold escape at h
  split at h
  · split at h
    · cases h
    · obtain ⟨_, _, h⟩ := Option.map_eq_some_iff.1 h
      cases h
      simp only [List.length_drop, List.length_cons]; omega
  · split at h
    · cases h
    · obtain ⟨_, _, h⟩ := Option.map_eq_some_iff.1 h
      cases h
      simp only [List.length_drop, List.length_cons]; omega
  · obtain ⟨_, _, h⟩ := Option.map_eq_some_iff.1 h
    cases h
    simp
  · cases h

def also (c : Char) : Option (List Char × List Char) → Option (List Char × List Char) :=
  Option.map fun (cs, rest) => (c :: cs, rest)

def quoted (s : List Char) : Option (List Char × List Char) :=
  match s with
  | [] => none
  | '"' :: rest => some ([], rest)
  | '\\' :: rest =>
    match _ : escape rest with
    | some (c, after) => also c (quoted after)
    | none => none
  | c :: rest => if isPlain c then also c (quoted rest) else none
termination_by s.length
decreasing_by
  · have := length_escape (by assumption)
    simp only [List.length_cons]; omega
  · simp

def literal : Reader (List Char)
  | [] => none
  | '\'' :: rest => some ([], rest)
  | c :: rest => if isPlain c then also c (literal rest) else none

def skipFirstLineEnd : List Char → List Char
  | '\n' :: rest => rest
  | '\r' :: '\n' :: rest => rest
  | s => s

/-- Up to two delimiters right before the closing three belong to the text. -/
def closing (delimiter : Char) : List Char → List Char × List Char
  | a :: b :: rest =>
    if a = delimiter then
      if b = delimiter then ([a, b], rest) else ([a], b :: rest)
    else ([], a :: b :: rest)
  | [a] => if a = delimiter then ([a], []) else ([], [a])
  | [] => ([], [])

def skipSpace : List Char → List Char
  | '\n' :: rest => skipSpace rest
  | '\r' :: '\n' :: rest => skipSpace rest
  | c :: rest => if isBlank c then skipSpace rest else c :: rest
  | [] => []

/-- A line that ends in a backslash goes on with the next text; `none` if more than blanks stands
before the line end. -/
def continued : List Char → Option (List Char)
  | '\n' :: rest => some (skipSpace rest)
  | '\r' :: '\n' :: rest => some (skipSpace rest)
  | c :: rest => if isBlank c then continued rest else none
  | [] => none

theorem length_skipSpace_le (s : List Char) : (skipSpace s).length ≤ s.length := by
  fun_induction skipSpace s with
  | case1 rest ih => simp only [List.length_cons]; omega
  | case2 rest ih => simp only [List.length_cons]; omega
  | case3 c rest _ _ _ ih => simp only [List.length_cons]; omega
  | case4 => exact Nat.le_refl _
  | case5 => exact Nat.le_refl _

theorem length_continued {s rest : List Char} (h : continued s = some rest) :
    rest.length < s.length := by
  fun_induction continued s with
  | case1 r =>
    cases h
    have := length_skipSpace_le r
    simp only [List.length_cons]; omega
  | case2 r =>
    cases h
    have := length_skipSpace_le r
    simp only [List.length_cons]; omega
  | case3 c r _ _ _ ih => have := ih h; simp only [List.length_cons]; omega
  | case4 => cases h
  | case5 => cases h

def quotedLines (s : List Char) : Option (List Char × List Char) :=
  match s with
  | [] => none
  | '"' :: '"' :: '"' :: rest => some (closing '"' rest)
  | '\n' :: rest => also '\n' (quotedLines rest)
  | '\r' :: '\n' :: rest => also '\n' (quotedLines rest)
  | '\\' :: rest =>
    match _ : continued rest with
    | some after => quotedLines after
    | none =>
      match _ : escape rest with
      | some (c, after) => also c (quotedLines after)
      | none => none
  | c :: rest => if isPlain c then also c (quotedLines rest) else none
termination_by s.length
decreasing_by
  · simp
  · simp only [List.length_cons]; omega
  · have := length_continued (by assumption)
    simp only [List.length_cons]; omega
  · have := length_escape (by assumption)
    simp only [List.length_cons]; omega
  · simp

def literalLines : Reader (List Char)
  | [] => none
  | '\'' :: '\'' :: '\'' :: rest => some (closing '\'' rest)
  | '\n' :: rest => also '\n' (literalLines rest)
  | '\r' :: '\n' :: rest => also '\n' (literalLines rest)
  | c :: rest => if isPlain c then also c (literalLines rest) else none

def text : Reader (List Char)
  | '"' :: '"' :: '"' :: rest => quotedLines (skipFirstLineEnd rest)
  | '\'' :: '\'' :: '\'' :: rest => literalLines (skipFirstLineEnd rest)
  | '"' :: rest => quoted rest
  | '\'' :: rest => literal rest
  | _ => none

def key : Reader (List Char)
  | '"' :: rest => quoted rest
  | '\'' :: rest => literal rest
  | s =>
    match s.takeWhile isBare with
    | [] => none
    | k => some (k, s.dropWhile isBare)

def keys : Nat → Reader (List (List Char))
  | 0, _ => none
  | fuel + 1, s =>
    match key (skipBlanks s) with
    | none => none
    | some (k, rest) =>
      match skipBlanks rest with
      | '.' :: more => (keys fuel more).map fun (ks, rest) => (k :: ks, rest)
      | rest => some ([k], rest)

def nesting : Nat := 79

def keyPath (s : List Char) : Option ((List (List Char) × List Char) × List Char) :=
  match keys s.length s with
  | none => none
  | some (ks, rest) =>
    match ks.getLast? with
    | some last => if ks.length ≤ nesting then some ((ks.dropLast, last), rest) else none
    | none => none

end Headway.Toml
