import ApiAtlas.FileTree.Node

/-!
A file tree with a working directory, and what a path leads to in it: parts are followed one by one,
`.` and `..` as usual, and symbolic links wherever more of the path follows.
-/
namespace ApiAtlas

inductive IoError where
  | notFound
  | alreadyExists
  | notDirectory
  | isDirectory
  | nameTooLong
  | tooManyLinks
  | nulByte
  | notText
  deriving DecidableEq, Repr

def IoError.message : IoError → String
  | .notFound => "No such file or directory (os error 2)"
  | .alreadyExists => "File exists (os error 17)"
  | .notDirectory => "Not a directory (os error 20)"
  | .isDirectory => "Is a directory (os error 21)"
  | .nameTooLong => "File name too long (os error 36)"
  | .tooManyLinks => "Too many levels of symbolic links (os error 40)"
  | .nulByte => "file name contained an unexpected NUL byte"
  | .notText => "stream did not contain valid UTF-8"

structure FileTree where
  top : Node
  workingDir : Location
  deriving Repr

/-- What a path leads to: a node, or a free name in a directory. -/
inductive Spot where
  | node (location : Location) (node : Node)
  | vacant (dir : Location) (name : Bytes)

namespace FileTree

def empty : FileTree :=
  let name := Bytes.ofString "work"
  ⟨.dir [(name, .dir [])], [name]⟩

def maxName : Nat := 255
def maxPath : Nat := 4096
def maxLinks : Nat := 40

/-- The parts of a path that name something; a slash at the end adds an empty part. -/
def steps (p : Path) : List Bytes :=
  let parts := (Path.splitSlash p.bytes).filter (· ≠ [])
  if p.bytes.getLast? = some Path.slash then parts ++ [[]] else parts

def startOf (dir : Location) (p : Path) : Location :=
  if p.isAbsolute then [] else dir

inductive Aim where
  /-- To look at what is there, through links. -/
  | look
  /-- To look at a link itself. -/
  | lookAtLink
  /-- To write a file, which cannot be if the last name has a slash behind it. -/
  | write
  deriving DecidableEq, Repr

/-- Follows parts from a location; an empty part, like `.`, asks for a directory. -/
def resolveFrom (t : FileTree) (aim : Aim) (links : Nat) (here : Location) :
    List Bytes → Except IoError Spot
  | [] =>
    match t.top.get? here with
    | some node => .ok (.node here node)
    | none => .error .notFound
  | part :: rest =>
    match t.top.get? here with
    | some (.dir children) =>
      if part = [] ∨ part = [Path.dot] then t.resolveFrom aim links here rest
      else if part = [Path.dot, Path.dot] then t.resolveFrom aim links here.dropLast rest
      else if aim = .write ∧ rest = [[]] then .error .isDirectory
      else if maxName < part.length then .error .nameTooLong
      else
        match children.lookup part with
        | none => if rest = [] then .ok (.vacant here part) else .error .notFound
        | some (.link target) =>
          if rest = [] ∧ aim = .lookAtLink then .ok (.node (here ++ [part]) (.link target))
          else
            match links with
            | 0 => .error .tooManyLinks
            | links + 1 =>
              if target.bytes = [] then .error .notFound
              else t.resolveFrom aim links (startOf here target) (steps target ++ rest)
        | some _ => t.resolveFrom aim links (here ++ [part]) rest
    | some _ => .error .notDirectory
    | none => .error .notFound
termination_by parts => (links, parts.length)

def checkPath (p : Path) : Except IoError Unit :=
  if 0 ∈ p.bytes then .error .nulByte
  else if p.bytes = [] then .error .notFound
  else if maxPath ≤ p.bytes.length then .error .nameTooLong
  else .ok ()

def resolve (t : FileTree) (aim : Aim) (p : Path) : Except IoError Spot := do
  checkPath p
  t.resolveFrom aim maxLinks (startOf t.workingDir p) (steps p)

def stat (t : FileTree) (p : Path) : Except IoError Node := do
  match ← t.resolve .look p with
  | .node _ node => return node
  | .vacant _ _ => throw .notFound

def linkStat (t : FileTree) (p : Path) : Except IoError Node := do
  match ← t.resolve .lookAtLink p with
  | .node _ node => return node
  | .vacant _ _ => throw .notFound

def pathExists (t : FileTree) (p : Path) : Bool := (t.stat p).isOk

def isDir (t : FileTree) (p : Path) : Bool :=
  match t.stat p with
  | .ok (.dir _) => true
  | _ => false

def isFile (t : FileTree) (p : Path) : Bool :=
  match t.stat p with
  | .ok (.file _) => true
  | _ => false

def readBytes (t : FileTree) (p : Path) : Except IoError Bytes := do
  match ← t.stat p with
  | .file content => return content
  | .dir _ => throw .isDirectory
  | .link _ => throw .tooManyLinks

def readText (t : FileTree) (p : Path) : Except IoError (List Char) := do
  match Utf8.decode (← t.readBytes p) with
  | some text => return text
  | none => throw .notText

def putAt (t : FileTree) (location : Location) (node : Node) : FileTree :=
  { t with top := node.put location t.top }

def parentOf (t : FileTree) (p : Path) : Except IoError Location := do
  checkPath p
  match ← t.resolveFrom .look maxLinks (startOf t.workingDir p)
      (((Path.splitSlash p.bytes).filter (· ≠ [])).dropLast ++ [[Path.dot]]) with
  | .node location _ => return location
  | .vacant _ _ => throw .notFound

def writeFile (t : FileTree) (p : Path) (content : Bytes) : Except IoError FileTree := do
  match ← t.resolve .write p with
  | .node location (.file _) => return t.putAt location (.file content)
  | .node _ (.dir _) => throw .isDirectory
  | .node _ (.link _) => throw .tooManyLinks
  | .vacant dir name => return t.putAt (dir ++ [name]) (.file content)

def create (t : FileTree) (p : Path) (node : Node) : Except IoError FileTree := do
  let dir ← t.parentOf p
  match ((Path.splitSlash p.bytes).filter (· ≠ [])).getLast? with
  | none => throw .alreadyExists
  | some name =>
    if name = [Path.dot] ∨ name = [Path.dot, Path.dot] then throw .alreadyExists
    else if maxName < name.length then throw .nameTooLong
    else
      match t.top.get? (dir ++ [name]) with
      | some _ => throw .alreadyExists
      | none => return t.putAt (dir ++ [name]) node

def makeDir (t : FileTree) (p : Path) : Except IoError FileTree := t.create p (.dir [])

/-- Makes the nearest of the given directories that can be made, and lists those before it. -/
def makeNearest (t : FileTree) : List Path → Except IoError (List Path × FileTree)
  | [] => .ok ([], t)
  | p :: above =>
    if p.bytes = [] ∨ p.parent? = none then .ok ([], t)
    else
      match t.makeDir p with
      | .ok t => .ok ([], t)
      | .error .notFound =>
        match t.makeNearest above with
        | .ok (missing, t) => .ok (p :: missing, t)
        | .error e => .error e
      | .error .alreadyExists => if t.isDir p then .ok ([], t) else .error .alreadyExists
      | .error e => .error e

def makeEach (t : FileTree) : List Path → FileTree × Except IoError Unit
  | [] => (t, .ok ())
  | p :: more =>
    match t.makeDir p with
    | .ok t => t.makeEach more
    | .error .alreadyExists => if t.isDir p then t.makeEach more else (t, .error .alreadyExists)
    | .error e => (t, .error e)

def makeDirs (t : FileTree) (p : Path) : FileTree × Except IoError Unit :=
  match t.makeNearest p.ancestors with
  | .error e => (t, .error e)
  | .ok (missing, t) => t.makeEach missing.reverse

def remove (t : FileTree) (p : Path) : Except IoError FileTree := do
  match ← t.resolve .lookAtLink p with
  | .node location _ => return { t with top := t.top.erase location }
  | .vacant _ _ => throw .notFound

end FileTree

end ApiAtlas
