import ApiAtlas.FileTree

/-!
Walking a directory: depth first, each directory before its children and these by name. Links below
the start are met but not followed, and what the walk is told to drop is not entered. A directory is
opened by its path, so one with a path that is too long is met, but nothing in it.
-/
namespace ApiAtlas

inductive FileKind where
  | file
  | dir
  | link
  deriving DecidableEq, Repr

def Node.kind : Node → FileKind
  | .file _ => .file
  | .dir _ => .dir
  | .link _ => .link

structure Visit where
  path : Path
  kind : FileKind
  deriving DecidableEq, Repr

/-- Decides by the path below the start, and by whether it is a directory, what to drop. -/
abbrev Drop := Path → Bool → Bool

def Path.below (within : Path) (name : Bytes) : Path :=
  if within.bytes = [] then ⟨name⟩ else ⟨within.bytes ++ slash :: name⟩

mutual

def Node.visits (drop : Drop) (path within : Path) : Node → List Visit
  | .dir children =>
    if path.bytes.length < FileTree.maxPath then visitsOf drop path within children else []
  | _ => []

def Node.visitsOf (drop : Drop) (path within : Path) : List (Bytes × Node) → List Visit
  | [] => []
  | (name, node) :: rest =>
    (if drop (within.below name) node.isDir then []
      else
        ⟨path.join ⟨name⟩, node.kind⟩ ::
          node.visits drop (path.join ⟨name⟩) (within.below name)) ++
      visitsOf drop path within rest

end

namespace FileTree

/-- The walk from `start`, which itself is never dropped. A link there is followed: to a file it
counts as one, to a directory it stays a link. -/
def walk (t : FileTree) (drop : Drop) (start : Path) : List Visit :=
  if start.isDash then []
  else
    match t.linkStat start with
    | .error _ => []
    | .ok (.link _) =>
      match t.stat start with
      | .ok (.dir children) => ⟨start, .link⟩ :: (Node.dir children).visits drop start ⟨[]⟩
      | .ok (.file _) => [⟨start, .file⟩]
      | _ => []
    | .ok node => ⟨start, node.kind⟩ :: node.visits drop start ⟨[]⟩

def listing (t : FileTree) : List (Path × Node) :=
  match t.top.get? t.workingDir with
  | some node => below ⟨[]⟩ node
  | none => []
where
  below (within : Path) : Node → List (Path × Node)
    | .dir children => belowAll within children
    | _ => []
  belowAll (within : Path) : List (Bytes × Node) → List (Path × Node)
    | [] => []
    | (name, node) :: rest =>
      (within.below name, node) :: below (within.below name) node ++ belowAll within rest

end FileTree

end ApiAtlas
