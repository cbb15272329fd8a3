import ApiAtlas.Scan.Qualified
import ApiAtlas.Text.Upper

/-!
Languages whose files are modules: exported types become containers without members, and the
exported functions of a file one module container, if there are any.
-/
namespace ApiAtlas.Scan

structure Module where
  language : Language
  /-- The module's own container. -/
  title : Path → String
  types : List (Header Unit)
  /-- The container of a type in a module of the given path. -/
  typeTitle : Path → String → String
  functions : List (Header MemberKind)
  isExported : List Char → Bool

namespace Module

def typeEntries (g : Module) (path : Path) (text : List Char) : List Entry :=
  ((g.types.flatMap (·.names text)).filter g.isExported).map fun name =>
    { file := path
      language := g.language
      container := g.typeTitle path (String.ofList name)
      kind := .type }

def members (g : Module) (text : List Char) : List Member :=
  ((g.functions.flatMap (·.hits text)).filter (g.isExported ·.name)).map fun hit =>
    { name := String.ofList hit.name, kind := hit.note }

def moduleEntry (g : Module) (path : Path) (members : List Member) : List Entry :=
  if members.isEmpty then []
  else
    [{ file := path
       language := g.language
       container := g.title path
       kind := .module
       members := members }]

def scan (g : Module) (path : Path) (text : List Char) : List Entry :=
  g.typeEntries path text ++ g.moduleEntry path (g.members text)

end Module

def telling (kind : MemberKind) (r : Reading) : List Char → List (MemberKind × Taken) :=
  fun cs => (r cs).map (kind, ·)

def everyName (_ : List Char) : Bool := true

/-- A type inside its module: the module's stem, a dot, its name. -/
def dottedTitle (path : Path) (name : String) : String := path.stem ++ "." ++ name

def receiver : Reading := seq (word "(") (seq (upTo ')') blanks)

def go : Module where
  language := .go
  title := Path.baseName
  types := []
  typeTitle _ name := name
  functions :=
    [⟨true,
      fun cs =>
        telling .method (seq (spaced "func") receiver) cs ++ telling .function (spaced "func") cs,
      Text.isWord, openParen⟩]
  isExported name := name.head?.any Text.isUpper

def javascript : Module where
  language := .javascript
  title := Path.baseName
  types := []
  typeTitle _ name := name
  functions :=
    [⟨false, telling .function (seq (spaced "export") (spaced "function")), Text.isWord, openParen⟩,
      ⟨false, telling .function (seq (spaced "export") (spaced "const")), Text.isWord,
        seq blanks (seq (word "=") openParen)⟩]
  isExported := everyName

def typescript : Module where
  language := .typescript
  title := Path.baseName
  types := [⟨false, plain (seq (spaced "export") (spaced "class")), Text.isWord, word ""⟩]
  typeTitle _ name := name
  functions :=
    [⟨false, telling .function (seq (spaced "export") (spaced "function")), Text.isWord, openParen⟩]
  isExported := everyName

def python : Module where
  language := .python
  title := Path.stem
  types :=
    [⟨true, plain (spaced "class"), Text.isWord, seq blanks (oneOf [word "(", word ":"])⟩]
  typeTitle := dottedTitle
  functions :=
    [⟨true, telling .function (seq (optional (spaced "async")) (spaced "def")), Text.isWord,
      openParen⟩]
  isExported name := name.head? ≠ some '_'

def rust : Module where
  language := .rust
  title := Path.stem
  types :=
    [⟨true, plain (seq (spaced "pub") (oneOf [spaced "struct", spaced "enum", spaced "trait"])),
      Text.isWord, word ""⟩]
  typeTitle := dottedTitle
  functions :=
    [⟨true,
      telling .function (seq (spaced "pub") (seq (optional (spaced "const"))
        (seq (optional (spaced "async")) (seq (optional (spaced "unsafe")) (spaced "fn"))))),
      Text.isWord, word ""⟩]
  isExported := everyName

end ApiAtlas.Scan
