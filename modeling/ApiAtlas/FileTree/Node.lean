import ApiAtlas.Path

/-!
Files, directories and symbolic links. A directory lists its children in the order of their names,
compared byte by byte.
-/
namespace ApiAtlas

def Bytes.before : Bytes → Bytes → Bool
  | [], [] => false
  | [], _ :: _ => true
  | _ :: _, [] => false
  | a :: as, b :: bs => a < b || (a = b && Bytes.before as bs)

inductive Node where
  | file (content : Bytes)
  | dir (children : List (Bytes × Node))
  | link (target : Path)
  deriving Repr, Inhabited

abbrev Location := List Bytes

namespace Node

def isDir : Node → Bool
  | .dir _ => true
  | _ => false

def child? (name : Bytes) : Node → Option Node
  | .dir children => children.lookup name
  | _ => none

def insertChild (name : Bytes) (node : Node) : List (Bytes × Node) → List (Bytes × Node)
  | [] => [(name, node)]
  | (n, c) :: children =>
    if name = n then (name, node) :: children
    else if Bytes.before name n then (name, node) :: (n, c) :: children
    else (n, c) :: insertChild name node children

def eraseChild (name : Bytes) (children : List (Bytes × Node)) : List (Bytes × Node) :=
  children.filter (·.1 ≠ name)

def get? : Node → Location → Option Node
  | node, [] => some node
  | node, name :: rest => (node.child? name).bind (get? · rest)

/-- Puts `new` at a location whose directory is there; elsewhere nothing changes. -/
def put (new : Node) : Location → Node → Node
  | [], _ => new
  | [name], .dir children => .dir (insertChild name new children)
  | name :: rest, .dir children =>
    match children.lookup name with
    | some child => .dir (insertChild name (put new rest child) children)
    | none => .dir children
  | _ :: _, node => node

def erase : Location → Node → Node
  | [], node => node
  | [name], .dir children => .dir (eraseChild name children)
  | name :: rest, .dir children =>
    match children.lookup name with
    | some child => .dir (insertChild name (erase rest child) children)
    | none => .dir children
  | _ :: _, node => node

end Node

end ApiAtlas
