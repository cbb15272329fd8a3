import ApiAtlas.Model
import ApiAtlas.Scan.Header

/-!
Languages whose containers are public classes, qualified by the first namespace or package of the
file. A class has every public method from its header to the end of the file: braces are not read,
so the methods of a later class belong to the earlier ones too.
-/
namespace ApiAtlas.Scan

structure Qualified where
  language : Language
  scope : Header Unit
  classHeader : Header Unit
  method : Header Unit

namespace Qualified

def container (scope : List Char) (name : List Char) : String :=
  if scope.isEmpty then String.ofList name else String.ofList (scope ++ '.' :: name)

def methods (g : Qualified) (text : List Char) : List Member :=
  (g.method.names text).map fun name => { name := String.ofList name, kind := .method }

def scan (g : Qualified) (path : Path) (text : List Char) : List Entry :=
  let scope := (g.scope.names text).headD []
  (g.classHeader.hits text).map fun hit =>
    { file := path
      language := g.language
      container := container scope hit.name
      kind := .type
      members := g.methods hit.text }

end Qualified

def isDotted (c : Char) : Bool := Text.isWord c || c = '.'

def openParen : Reading := seq blanks (word "(")

def isCSharpType (c : Char) : Bool := Text.isWord c || c ∈ ['<', '>', ',', '[', ']']

def csharp : Qualified where
  language := .csharp
  scope := ⟨false, plain (spaced "namespace"), isDotted, word ""⟩
  classHeader := ⟨false, plain (seq (spaced "public") (spaced "class")), Text.isWord, word ""⟩
  method :=
    ⟨false,
      plain (seq (spaced "public") (seq (optional (spaced "async"))
        (seq (some1 isCSharpType) blanks1))),
      Text.isWord, openParen⟩

def isJavaType (c : Char) : Bool := isCSharpType c || c ∈ ['.', '?']

def modifiers (words : List String) : Reading := repeated (oneOf (words.map spaced))

def java : Qualified where
  language := .java
  scope := ⟨false, plain (spaced "package"), isDotted, word ";"⟩
  classHeader :=
    ⟨false,
      plain (seq (spaced "public") (seq (modifiers ["abstract", "final", "static"])
        (spaced "class"))),
      Text.isWord, word ""⟩
  method :=
    ⟨false,
      plain (seq (spaced "public") (seq (modifiers ["static", "final", "abstract", "synchronized"])
        (seq (some1 isJavaType) blanks1))),
      Text.isWord, openParen⟩

end ApiAtlas.Scan
