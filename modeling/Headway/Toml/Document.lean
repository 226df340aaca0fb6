import Headway.Toml.Number

namespace Headway.Toml

def scalar : Reader Scalar
  | 't' :: 'r' :: 'u' :: 'e' :: rest => some (.boolean true, rest)
  | 'f' :: 'a' :: 'l' :: 's' :: 'e' :: rest => some (.boolean false, rest)
  | '"' :: rest => (text ('"' :: rest)).map fun (s, rest) => (.text s, rest)
  | '\'' :: rest => (text ('\'' :: rest)).map fun (s, rest) => (.text s, rest)
  | s => number s

def items (element : Reader Node) : Nat → Reader (List Node)
  | 0, _ => none
  | fuel + 1, s =>
    match skipLines false s with
    | none => none
    | some (']' :: rest) => some ([], rest)
    | some s =>
      match element s with
      | none => none
      | some (v, rest) =>
        match skipLines false rest with
        | some (',' :: rest) => (items element fuel rest).map fun (vs, rest) => (v :: vs, rest)
        | some (']' :: rest) => some ([v], rest)
        | _ => none

def assignment (element : Reader Node) (s : List Char) :
    Option ((List Key × Key × Node) × List Char) :=
  match keyPath s with
  | some ((path, k), '=' :: rest) =>
    (element (skipBlanks rest)).map fun (v, rest) => ((path, k, v), rest)
  | _ => none

def members (element : Reader Node) : Nat → Reader (List (List Key × Key × Node))
  | 0, _ => none
  | fuel + 1, s =>
    match assignment element s with
    | none => none
    | some (m, rest) =>
      match skipBlanks rest with
      | ',' :: rest => (members element fuel rest).map fun (ms, rest) => (m :: ms, rest)
      | '\x7d' :: rest => some ([m], rest)
      | _ => none

def inlineTable (ms : List (List Key × Key × Node)) : Option Node :=
  ms.foldlM (fun n (path, k, v) => Node.insert path k v n) (.table .inline [])

def braces (element : Reader Node) (s : List Char) : Option (Node × List Char) :=
  match skipBlanks s with
  | '\x7d' :: rest => some (.table .inline [], rest)
  | s =>
    match members element (s.length + 1) s with
    | some (ms, rest) => (inlineTable ms).map fun n => (n, rest)
    | none => none

def node : Nat → Reader Node
  | depth + 1, '[' :: rest =>
    (items (node depth) (rest.length + 1) rest).map fun (vs, rest) => (.array vs, rest)
  | depth + 1, '\x7b' :: rest => braces (node depth) rest
  | _, s => (scalar s).map fun (v, rest) => (.scalar v, rest)

def header (closing : List Char) (s : List Char) : Option ((List Key × Key) × List Char) :=
  match keyPath s with
  | some (path, rest) =>
    if closing.isPrefixOf rest then
      (lineEnd false (rest.drop closing.length)).map fun rest => (path, rest)
    else none
  | none => none

def statement : Reader Statement
  | '[' :: '[' :: rest =>
    (header [']', ']'] rest).map fun ((path, k), rest) => (.repeatedHeader path k, rest)
  | '[' :: rest => (header [']'] rest).map fun ((path, k), rest) => (.header path k, rest)
  | s =>
    match assignment (node nesting) s with
    | some ((path, k, v), rest) =>
      (lineEnd false rest).map fun rest => (.assign path k v, rest)
    | none => none

def isEmptyLineStart (c : Char) : Bool := c = '#' || c = '\n' || c = '\r'

def statements : Nat → List Char → Option (List Statement)
  | 0, _ => none
  | fuel + 1, s =>
    match skipBlanks s with
    | [] => some []
    | c :: rest =>
      if isEmptyLineStart c then
        match lineEnd false (c :: rest) with
        | some rest => statements fuel rest
        | none => none
      else
        match statement (c :: rest) with
        | some (st, rest) => (statements fuel rest).map (st :: ·)
        | none => none

def skipMark : List Char → List Char
  | '\ufeff' :: rest => rest
  | s => s

def Node.ofText? (s : List Char) : Option Node :=
  match statements (s.length + 1) (skipMark s) with
  | some ss => Node.ofStatements? ss
  | none => none

end Headway.Toml
