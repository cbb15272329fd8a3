import ApiAtlas.Toml.Scalar

/-!
Reading TOML text: keys, values, and the document line by line.
-/
namespace ApiAtlas.Toml

def skipSpace (cs : List Char) : List Char := cs.dropWhile isSpace

def isBare (c : Char) : Bool :=
  isDigit c || ('a' ≤ c && c ≤ 'z') || ('A' ≤ c && c ≤ 'Z') || c = '_' || c = '-'

def readSimpleKey (cs : List Char) : Option (Key × List Char) :=
  match cs with
  | '"' :: rest => readBasic rest rest
  | '\'' :: rest => readLiteral rest
  | _ =>
    match cs.takeWhile isBare with
    | [] => none
    | key => some (key, cs.dropWhile isBare)

def readPath : (limit : Nat) → Read (List Key)
  | 0, _ => none
  | limit + 1, cs => do
    let (key, rest) ← readSimpleKey (skipSpace cs)
    match skipSpace rest with
    | '.' :: rest =>
      let (path, rest) ← readPath limit rest
      return (key :: path, rest)
    | rest => return ([key], rest)

/-- How deep values nest, and how long keys are, at most. -/
def maxDepth : Nat := 79

def readKey (cs : List Char) : Option ((List Key × Key) × List Char) := do
  let (path, rest) ← readPath maxDepth cs
  return ((path.dropLast, path.getLastD []), rest)

def skipComment : List Char → List Char
  | '#' :: rest => rest.dropWhile isPlain
  | cs => cs

def skipLines : (bound : List Char) → List Char → List Char
  | [], cs => cs
  | _ :: bound, cs =>
    match readBreak (skipComment (skipSpace cs)) with
    | some rest => skipLines bound rest
    | none => skipSpace cs

def skipAllLines (cs : List Char) : List Char := skipLines cs cs

def readItems (item : Read Node) : (bound : List Char) → Read (List Node)
  | [], _ => none
  | _ :: bound, cs =>
    match skipAllLines cs with
    | ']' :: rest => some ([], rest)
    | cs => do
      let (node, rest) ← item cs
      match skipAllLines rest with
      | ',' :: rest =>
        let (nodes, rest) ← readItems item bound rest
        return (node :: nodes, rest)
      | ']' :: rest => return ([node], rest)
      | _ => none

def readPairs (item : Read Node) : (bound : List Char) → Fields → Read Fields
  | [], _, _ => none
  | _ :: bound, fields, cs => do
    let ((path, key), rest) ← readKey cs
    let rest ← readMark '=' rest
    let (node, rest) ← item (skipSpace rest)
    let fields ← fields.add path key node
    match skipSpace rest with
    | ',' :: rest => readPairs item bound fields rest
    | '\x7d' :: rest => return (fields, rest)
    | _ => none

def readValue : (depth : Nat) → Read Node
  | depth, cs =>
    match cs with
    | '"' :: _ => (readString cs).map fun (s, rest) => (.string s, rest)
    | '\'' :: _ => (readString cs).map fun (s, rest) => (.string s, rest)
    | '[' :: rest =>
      match depth with
      | 0 => none
      | depth + 1 =>
        (readItems (readValue depth) rest rest).map fun (items, rest) =>
          (.array items, rest)
    | '\x7b' :: rest =>
      match depth with
      | 0 => none
      | depth + 1 =>
        match skipSpace rest with
        | '\x7d' :: rest => some (.inline [], rest)
        | rest =>
          (readPairs (readValue depth) rest [] rest).map fun (fields, rest) =>
            (.inline fields, rest)
    | 't' :: 'r' :: 'u' :: 'e' :: rest => some (.bool true, rest)
    | 'f' :: 'a' :: 'l' :: 's' :: 'e' :: rest => some (.bool false, rest)
    | _ => (readScalar cs).map fun rest => (.scalar, rest)

def readLineEnd (cs : List Char) : Option (List Char) :=
  match skipComment (skipSpace cs) with
  | [] => some []
  | rest => readBreak rest

/-- A document under way, and the header under which keys stand now. -/
structure Document where
  fields : Fields
  opened : List Key

/-- One line with all the lines a value in it runs over. -/
def readLine (doc : Document) (cs : List Char) : Option (Document × List Char) :=
  match cs with
  | '[' :: '[' :: rest => do
    let ((path, key), rest) ← readKey rest
    let rest ← readMark ']' (← readMark ']' rest)
    let rest ← readLineEnd rest
    return (⟨← doc.fields.openNext path key, path ++ [key]⟩, rest)
  | '[' :: rest => do
    let ((path, key), rest) ← readKey rest
    let rest ← readMark ']' rest
    let rest ← readLineEnd rest
    return (⟨← doc.fields.openTable path key, path ++ [key]⟩, rest)
  | _ =>
    match readLineEnd cs with
    | some rest => some (doc, rest)
    | none => do
      let ((path, key), rest) ← readKey cs
      let rest ← readMark '=' rest
      let (node, rest) ← readValue maxDepth (skipSpace rest)
      let rest ← readLineEnd rest
      return ({ doc with fields := ← doc.fields.addIn doc.opened path key node }, rest)

def readAllLines : (bound : List Char) → Document → List Char → Option Document
  | [], _, _ => none
  | _ :: bound, doc, cs =>
    match skipSpace cs with
    | [] => some doc
    | cs => do
      let (doc, rest) ← readLine doc cs
      readAllLines bound doc rest

def read (text : List Char) : Option Fields :=
  let text := if text.head? = some '\ufeff' then text.tail else text
  (readAllLines ('\n' :: text) ⟨[], []⟩ text).map (·.fields)

end ApiAtlas.Toml
