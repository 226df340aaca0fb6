/-!
A table remembers how it came about, for this decides who may still add to it: a header may open a
table once, dotted keys may add only to tables that dotted keys made, and a table in braces is
closed.
-/

namespace Headway.Toml

abbrev Key := List Char

inductive Real where
  | notANumber
  | infinite (negative : Bool)
  | decimal (negative : Bool) (digits : Nat) (exponent : Int)
  deriving DecidableEq

structure Date where
  year : Nat
  month : Nat
  day : Nat
  deriving DecidableEq

structure Time where
  hour : Nat
  minute : Nat
  second : Nat
  fraction : List Char
  deriving DecidableEq

inductive Offset where
  | utc
  | ahead (hours minutes : Nat)
  | behind (hours minutes : Nat)
  deriving DecidableEq

structure Datetime where
  date : Option Date
  time : Option Time
  offset : Option Offset
  deriving DecidableEq

inductive Scalar where
  | boolean (b : Bool)
  | integer (n : Int)
  | real (x : Real)
  | text (s : List Char)
  | datetime (d : Datetime)
  deriving DecidableEq

inductive Origin where
  /-- By a header of its own, or as the root. -/
  | written
  /-- On the way to a header further down. -/
  | implied
  /-- On the way of a dotted key. -/
  | dotted
  | inline
  deriving DecidableEq

inductive Node where
  | scalar (v : Scalar)
  | array (items : List Node)
  | table (origin : Origin) (entries : List (Key × Node))
  | tables (items : List Node)

abbrev Entries := List (Key × Node)

namespace Entries

def put (k : Key) (v : Node) : Entries → Entries
  | [] => [(k, v)]
  | e :: rest => if e.1 = k then (k, v) :: rest else e :: put k v rest

end Entries

/-- Whether a path may lead through a table: one of dotted keys only through tables that paths made,
one of a header through all but those in braces. -/
def Origin.passable (dotted : Bool) (o : Origin) : Bool :=
  if dotted then o = .implied || o = .dotted else o ≠ .inline

namespace Node

def root : Node := .table .written []

def wayside (dotted : Bool) : Node := .table (if dotted then .dotted else .implied) []

def atPath (dotted : Bool) (change : Node → Option Node) : List Key → Node → Option Node
  | [], n => change n
  | k :: path, .table origin entries =>
    let child :=
      match entries.lookup k with
      | none => atPath dotted change path (wayside dotted)
      | some (.table o sub) =>
        if o.passable dotted then atPath dotted change path (.table o sub) else none
      | some (.tables items) =>
        match items.getLast? with
        | some last =>
          (atPath dotted change path last).map fun n => .tables (items.dropLast ++ [n])
        | none => none
      | some _ => none
    child.map fun n => .table origin (Entries.put k n entries)
  | _ :: _, _ => none

/-- Adds a key that is not there yet.  A key after a dotted path goes only into a table of dotted
keys, a plain key only into one that is not. -/
def assign (dotted : Bool) (k : Key) (v : Node) : Node → Option Node
  | .table origin entries =>
    if decide (origin = .dotted) = dotted ∧ entries.lookup k = none then
      some (.table origin (entries ++ [(k, v)]))
    else none
  | _ => none

def insert (path : List Key) (k : Key) (v : Node) (n : Node) : Option Node :=
  n.atPath true (assign (!path.isEmpty) k v) path

def openTable (k : Key) : Node → Option Node
  | .table origin entries =>
    match entries.lookup k with
    | none => some (.table origin (Entries.put k (.table .written []) entries))
    | some (.table .implied sub) =>
      some (.table origin (Entries.put k (.table .written sub) entries))
    | some _ => none
  | _ => none

def openTables (k : Key) : Node → Option Node
  | .table origin entries =>
    match entries.lookup k with
    | none => some (.table origin (Entries.put k (.tables [.table .written []]) entries))
    | some (.tables items) =>
      some (.table origin (Entries.put k (.tables (items ++ [.table .written []])) entries))
    | some _ => none
  | _ => none

end Node

inductive Statement where
  | assign (path : List Key) (key : Key) (value : Node)
  | header (path : List Key) (key : Key)
  | repeatedHeader (path : List Key) (key : Key)

structure Draft where
  root : Node
  current : List Key

namespace Draft

def empty : Draft := ⟨.root, []⟩

def add (d : Draft) : Statement → Option Draft
  | .assign path key value =>
    (d.root.atPath false (Node.insert path key value) d.current).map fun n => { d with root := n }
  | .header path key =>
    (d.root.atPath false (Node.openTable key) path).map fun n => ⟨n, path ++ [key]⟩
  | .repeatedHeader path key =>
    (d.root.atPath false (Node.openTables key) path).map fun n => ⟨n, path ++ [key]⟩

end Draft

def Node.ofStatements? (ss : List Statement) : Option Node :=
  (ss.foldlM Draft.add .empty).map Draft.root

end Headway.Toml
