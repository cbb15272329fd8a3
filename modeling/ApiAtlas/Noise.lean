import ApiAtlas.Exclude
import ApiAtlas.FileTree.Walk
import ApiAtlas.Text.Search

/-!
What a walk of a source tree passes over. A marker counts wherever it stands in a path, so that
`combine.py` goes the way of `bin`; exclude patterns come on top.
-/
namespace ApiAtlas

structure Noise where
  markers : List String
  exclude : Exclude
  deriving Repr

namespace Noise

def commonMarkers : List String := [".git", "node_modules", "bin", "obj"]

def ofMarkers (root : Path) (markers : List String) (excludes : List String) : Noise :=
  ⟨markers, .ofLines root excludes⟩

def ofExcludes (root : Path) (excludes : List String) : Noise :=
  ofMarkers root commonMarkers excludes

def isMarked (n : Noise) (relative : Path) : Bool :=
  let text := Text.slashed (Utf8.decodeLossy relative.bytes)
  n.markers.any fun marker => Text.occurs marker.toList text

/-- Whether a path below the root is noise. -/
def ignores (n : Noise) (relative : Path) (isDir : Bool) : Except Exclude.Outside Bool :=
  if n.isMarked relative then .ok true
  else if relative.bytes.isEmpty then .ok false
  else
    match n.exclude.verdict relative isDir with
    | .ok v => .ok (v = some .ignore)
    | .error e => .error e

def drop (n : Noise) : Drop := fun relative isDir =>
  match n.ignores relative isDir with
  | .ok ignored => ignored
  | .error _ => false

end Noise

end ApiAtlas
