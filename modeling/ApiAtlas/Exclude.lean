import ApiAtlas.Exclude.Extent
import ApiAtlas.Exclude.Room
import ApiAtlas.Text.Blank

/-!
Exclude patterns. Each line is a rule of its own; the last rule that matches a path decides for it,
and a path no rule decides for goes with the nearest directory above it that one does.
-/
namespace ApiAtlas

inductive Verdict where
  | ignore
  | keep
  deriving DecidableEq, Repr

namespace Exclude

structure Rule where
  verdict : Verdict
  /-- Whether it applies to directories only. -/
  dirOnly : Bool
  glob : List Glob.Token
  deriving Repr

def trimLine (line : List Char) : List Char :=
  if [' ', '\\'].isPrefixOf line.reverse then line else Text.trimRight line

def readFront : List Char → Verdict × Bool × List Char
  | '\\' :: '!' :: rest => (.ignore, false, '!' :: rest)
  | '\\' :: '#' :: rest => (.ignore, false, '#' :: rest)
  | '!' :: '/' :: rest => (.keep, true, rest)
  | '!' :: rest => (.keep, false, rest)
  | '/' :: rest => (.ignore, true, rest)
  | line => (.ignore, false, line)

def readEnd (pattern : List Char) : Bool × List Char :=
  match pattern.reverse with
  | '/' :: '\\' :: rest => (true, rest.reverse)
  | '/' :: rest => (true, rest.reverse)
  | _ => (false, pattern)

/-- A pattern without a slash applies at every depth. -/
def deepen (anchored : Bool) (pattern : List Char) : List Char :=
  if anchored || '/' ∈ pattern || pattern = ['*', '*'] then pattern
  else '*' :: '*' :: '/' :: pattern

def onlyBelow (pattern : List Char) : List Char :=
  if ['*', '*', '/'].isPrefixOf pattern.reverse then pattern ++ ['/', '*'] else pattern

def readRule (line : List Char) : Option Rule :=
  if line.head? = some '#' then none
  else
    let line := trimLine line
    if line.isEmpty then none
    else
      let (verdict, anchored, pattern) := readFront line
      let (dirOnly, pattern) := readEnd pattern
      match Glob.read (onlyBelow (deepen anchored pattern)) with
      | .ok glob => some ⟨verdict, dirOnly, glob⟩
      | .error _ => none

def Rule.applies (rule : Rule) (path : Path) (isDir : Bool) : Bool :=
  (!rule.dirOnly || isDir) && Glob.accepts rule.glob path.bytes

end Exclude

structure Exclude where
  root : Path
  rules : List Exclude.Rule
  deriving Repr

namespace Exclude

structure Outside where
  path : Path
  deriving DecidableEq, Repr

def dropBytes (front bytes : Bytes) : Option Bytes :=
  if front.isPrefixOf bytes then some (bytes.drop front.length) else none

def undotted (p : Path) : Path :=
  ⟨(dropBytes [Path.dot, Path.slash] p.bytes).getD p.bytes⟩

/-- The rules as they stand, if their globs can be matched; one glob nested too deep, or more room
than there is, and none is in force. -/
def inForce (rules : List Rule) : List Rule :=
  let globs := rules.map (·.glob)
  if globs.any Glob.isTooDeep || !Glob.fit globs then [] else rules

def ofLines (root : Path) (lines : List String) : Exclude :=
  ⟨undotted root, inForce (lines.filterMap fun line => readRule line.toList)⟩

/-- The path below the root. The root is taken off as so many bytes, if the path has several parts
and starts with them, and then a slash. -/
def relative (e : Exclude) (path : Path) : Path :=
  let path := undotted path
  if e.root.isDot || !Path.slash ∈ path.bytes then path
  else
    match dropBytes e.root.bytes path.bytes with
    | some rest => ⟨(dropBytes [Path.slash] rest).getD rest⟩
    | none => path

def decide? (e : Exclude) (path : Path) (isDir : Bool) : Option Verdict :=
  (e.rules.reverse.find? (·.applies path isDir)).map (·.verdict)

/-- The verdict on a path: its own, or that of the nearest directory above it that has one. -/
def verdict (e : Exclude) (path : Path) (isDir : Bool) : Except Outside (Option Verdict) :=
  if e.rules.isEmpty then .ok none
  else
    let path := e.relative path
    if path.isAbsolute then .error ⟨path⟩
    else
      match e.decide? path isDir with
      | some v => .ok (some v)
      | none => .ok (path.ancestors.tail.findSome? (e.decide? · true))

end Exclude

end ApiAtlas
