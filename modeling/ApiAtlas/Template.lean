import ApiAtlas.Model
import ApiAtlas.Text.Blank
import ApiAtlas.Text.Search

/-!
Page templates. A template names each of five placeholders at least once; filling it puts the values
of an entry in their place in one pass, so that a placeholder inside a value stays as it is.
-/
namespace ApiAtlas

inductive Placeholder where
  | containerKind
  | container
  | language
  | summary
  | members
  deriving DecidableEq, Repr

namespace Placeholder

def all : List Placeholder := [.containerKind, .container, .language, .summary, .members]

def token : Placeholder → String
  | .containerKind => "\x7b\x7bCONTAINER_KIND\x7d\x7d"
  | .container => "\x7b\x7bCONTAINER\x7d\x7d"
  | .language => "\x7b\x7bLANGUAGE\x7d\x7d"
  | .summary => "\x7b\x7bSUMMARY\x7d\x7d"
  | .members => "\x7b\x7bMEMBERS_SECTION\x7d\x7d"

def atFront? (text : List Char) : Option Placeholder :=
  all.find? fun p => p.token.toList.isPrefixOf text

end Placeholder

structure Template where
  text : List Char
  deriving DecidableEq, Repr

namespace Template

inductive Piece where
  | char (c : Char)
  | slot (p : Placeholder)
  deriving DecidableEq, Repr

/-- The pieces of a text of which `skip` more characters belong to the placeholder before. -/
def piecesFrom : (skip : Nat) → List Char → List Piece
  | _, [] => []
  | skip + 1, _ :: cs => piecesFrom skip cs
  | 0, c :: cs =>
    match Placeholder.atFront? (c :: cs) with
    | some p => .slot p :: piecesFrom (p.token.length - 1) cs
    | none => .char c :: piecesFrom 0 cs

def pieces (t : Template) : List Piece := piecesFrom 0 t.text

def missing (text : List Char) : List Placeholder :=
  Placeholder.all.filter fun p => !Text.occurs p.token.toList text

/-- The template of a text, or the placeholders it lacks. -/
def ofText (text : List Char) : Except (List Placeholder) Template :=
  match missing text with
  | [] => .ok ⟨text⟩
  | lacking => .error lacking

def standard : Template where
  text :=
    ("# \x7b\x7bCONTAINER\x7d\x7d\n\n" ++
      "- **Kind:** \x7b\x7bCONTAINER_KIND\x7d\x7d\n" ++
      "- **Language:** \x7b\x7bLANGUAGE\x7d\x7d\n\n" ++
      "## Summary\n\n\x7b\x7bSUMMARY\x7d\x7d\n\n" ++
      "## Members\n\n\x7b\x7bMEMBERS_SECTION\x7d\x7d\n").toList

end Template

def Member.bullet (m : Member) : List Char :=
  Text.trimRight ("- `".toList ++ m.name.toList ++ "(...)` — ".toList ++ m.summary.toList)

/-- One bullet a member; parameters are left out because they are never known. -/
def Member.bullets (members : List Member) : List Char :=
  if members.isEmpty then "_No public members detected._".toList
  else ['\n'].intercalate (members.map Member.bullet)

namespace Template

def value (e : Entry) : Placeholder → List Char
  | .containerKind => e.kind.name.toList
  | .container => e.container.toList
  | .language => e.language.name.toList
  | .summary => if e.summary.isEmpty then "_No summary available._".toList else e.summary.toList
  | .members => Member.bullets e.members

def Piece.fill (e : Entry) : Piece → List Char
  | .char c => [c]
  | .slot p => value e p

def fill (t : Template) (e : Entry) : List Char := t.pieces.flatMap (Piece.fill e)

end Template

end ApiAtlas
