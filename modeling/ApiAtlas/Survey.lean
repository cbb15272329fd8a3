import ApiAtlas.Model
import ApiAtlas.Noise

/-!
What a source tree holds: the manifest of its sources and documentation directories, and the
Markdown files already there.
-/
namespace ApiAtlas

def Visit.isDocDir (v : Visit) : Bool :=
  v.kind = .dir &&
    match v.path.fileName? with
    | some name => Text.asciiLower (Utf8.decodeLossy name) = "docs".toList
    | none => false

/-- A source is anything but a directory whose extension tells a language. -/
def Visit.source? (v : Visit) : Option Source :=
  if v.kind ≠ .dir ∧ (Language.ofPath v.path).isKnown then some ⟨v.path, .ofPath v.path⟩ else none

def Manifest.ofVisits (visits : List Visit) : Manifest where
  sources := visits.filterMap Visit.source?
  docDirs := (visits.filter Visit.isDocDir).map (·.path)

/-- Classifies what a walk from `root` finds; a root that is not there has an empty manifest. -/
def FileTree.manifest (t : FileTree) (root : Path) (excludes : List String) : Manifest :=
  .ofVisits (t.walk (Noise.ofExcludes root excludes).drop root)

def Visit.isMarkdown (v : Visit) : Bool :=
  v.kind = .file &&
    match v.path.fileName? with
    | some name => ".md".toList.isSuffixOf (Text.lower (Utf8.decodeLossy name))
    | none => false

/-- A document about an API is one in a directory called `api`, in any case. -/
def DocumentKind.ofPath (p : Path) : DocumentKind :=
  if Text.occurs "/api/".toList (Text.lower (Text.slashed (Utf8.decodeLossy p.bytes))) then .api
  else .generic

def FileTree.documents (t : FileTree) (root : Path) : List Document :=
  ((t.walk (Noise.ofMarkers root [".git"] []).drop root).filter Visit.isMarkdown).map fun v =>
    ⟨v.path, .ofPath v.path⟩

end ApiAtlas
