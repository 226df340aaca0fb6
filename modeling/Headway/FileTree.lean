import Headway.Storage

/-!
Every entry of a tree stands under its full path from the root.  There are no links and no
permissions, and a write takes place as a whole or not at all.
-/

namespace Headway

abbrev Path := List (List Char)

inductive Entry where
  | text (s : String)
  | binary
  | directory
  deriving DecidableEq

structure FileTree where
  workingDirectory : Path
  entries : List (Path × Entry)
  deriving DecidableEq

namespace FileTree

def get (t : FileTree) (p : Path) : Option Entry :=
  if p = [] then some .directory else t.entries.lookup p

def replace (p : Path) (e : Entry) : List (Path × Entry) → List (Path × Entry)
  | [] => [(p, e)]
  | x :: rest => if x.1 = p then (p, e) :: rest else x :: replace p e rest

def put (t : FileTree) (p : Path) (e : Entry) : FileTree :=
  { t with entries := replace p e t.entries }

def split : List Char → Path
  | [] => [[]]
  | c :: rest =>
    if c = '/' then [] :: split rest
    else match split rest with
      | [] => [[c]]
      | part :: parts => (c :: part) :: parts

def longestPart : Nat := 255

def longestPath : Nat := 4095

def bytes (cs : List Char) : Nat := cs.foldl (fun n c => n + c.utf8Size) 0

def origin (t : FileTree) (path : String) : Except FileError (Path × Path) :=
  if longestPath < bytes path.toList then .error .nameTooLong
  else match path.toList with
    | '/' :: rest => .ok ([], split rest)
    | cs => .ok (t.workingDirectory, split cs)

/-- Follows the parts of a path from a directory.  Whatever stands before a part has to be a
directory; only then does the length of the part count. -/
def walk (t : FileTree) (here : Path) : Path → Except FileError Path
  | [] => .ok here
  | part :: rest =>
    match t.get here with
    | some .directory =>
      if part = [] ∨ part = ['.'] then t.walk here rest
      else if part = ['.', '.'] then t.walk here.dropLast rest
      else if longestPart < bytes part then .error .nameTooLong
      else t.walk (here ++ [part]) rest
    | some _ => .error .notADirectory
    | none => .error .missing

def place (t : FileTree) (path : String) : Except FileError Path :=
  match t.origin path with
  | .error e => .error e
  | .ok (here, parts) => t.walk here parts

def read (t : FileTree) (path : String) : Except FileError String :=
  match t.place path with
  | .error e => .error e
  | .ok p =>
    match t.get p with
    | some (.text s) => .ok s
    | some .binary => .error .notText
    | some .directory => .error .isADirectory
    | none => .error .missing

def makeAlong (t : FileTree) (here : Path) : Path → FileTree × Except FileError Unit
  | [] => (t, .ok ())
  | part :: rest =>
    if part = [] ∨ part = ['.'] then t.makeAlong here rest
    else if part = ['.', '.'] then t.makeAlong here.dropLast rest
    else if longestPart < bytes part then (t, .error .nameTooLong)
    else
      let next := here ++ [part]
      match t.get next with
      | some .directory => t.makeAlong next rest
      | some _ => (t, .error (if rest = [] then .alreadyThere else .notADirectory))
      | none => (t.put next .directory).makeAlong next rest

def makeDirectories (t : FileTree) (path : String) : FileTree × Except FileError Unit :=
  match t.origin path with
  | .error e => (t, .error e)
  | .ok (here, parts) => t.makeAlong here parts

def change (t : FileTree) (path : String) (f : Entry → Entry) : FileTree × Except FileError Unit :=
  match t.place path with
  | .error e => (t, .error e)
  | .ok p =>
    match t.get p with
    | some .directory => (t, .error .isADirectory)
    | some e => (t.put p (f e), .ok ())
    | none =>
      if t.get p.dropLast = some .directory then (t.put p (f (.text "")), .ok ())
      else (t, .error .missing)

def write (t : FileTree) (path text : String) : FileTree × Except FileError Unit :=
  t.change path fun _ => .text text

/-- Bytes that are no text do not become one by what follows them. -/
def append (t : FileTree) (path text : String) : FileTree × Except FileError Unit :=
  t.change path fun
    | .text s => .text (s ++ text)
    | e => e

def storage : Storage (StateM FileTree) where
  read path := fun t => (t.read path, t)
  makeDirectories path := fun t => let (t, r) := t.makeDirectories path; (r, t)
  write path text := fun t => let (t, r) := t.write path text; (r, t)
  append path text := fun t => let (t, r) := t.append path text; (r, t)

theorem lookup_replace (p : Path) (e : Entry) (es : List (Path × Entry)) :
    (replace p e es).lookup p = some e := by
  induction es with
  | nil => simp [replace]
  | cons x rest ih =>
    obtain ⟨k, v⟩ := x
    by_cases h : k = p
    · simp [replace, h]
    · have hb : (p == k) = false := by simpa using fun hp => h hp.symm
      simp [replace, h, List.lookup_cons, hb, ih]

theorem lookup_replace_of_ne {p q : Path} (h : q ≠ p) (e : Entry) (es : List (Path × Entry)) :
    (replace p e es).lookup q = es.lookup q := by
  have hb : (q == p) = false := by simpa using h
  induction es with
  | nil => simp [replace, List.lookup_cons, hb]
  | cons x rest ih =>
    obtain ⟨k, v⟩ := x
    by_cases hx : k = p
    · subst hx
      simp [replace, List.lookup_cons, hb]
    · simp only [replace, hx, if_false, List.lookup_cons, ih]

theorem get_put {p : Path} (h : p ≠ []) (t : FileTree) (e : Entry) :
    (t.put p e).get p = some e := by
  simp [get, put, h, lookup_replace]

theorem get_put_of_ne {p q : Path} (h : q ≠ p) (t : FileTree) (e : Entry) :
    (t.put p e).get q = t.get q := by
  simp only [get, put, lookup_replace_of_ne h]

end FileTree

end Headway
