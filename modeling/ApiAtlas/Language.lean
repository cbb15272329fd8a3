import ApiAtlas.Path
import ApiAtlas.Text.Upper

/-!
Languages. A file's language is read off its extension alone; whatever the table does not list is
`unknown`, so classification never fails.
-/
namespace ApiAtlas

inductive Language where
  | csharp | typescript | javascript | python | java | go | rust
  | cpp | c | kotlin | swift | ruby | php | unknown
  deriving DecidableEq, Repr, Inhabited

namespace Language

def all : List Language :=
  [.csharp, .typescript, .javascript, .python, .java, .go, .rust,
    .cpp, .c, .kotlin, .swift, .ruby, .php, .unknown]

def alphabetical : List Language :=
  [.c, .cpp, .csharp, .go, .java, .javascript, .kotlin, .php, .python, .ruby, .rust, .swift,
    .typescript, .unknown]

def name : Language → String
  | .csharp => "csharp"
  | .typescript => "typescript"
  | .javascript => "javascript"
  | .python => "python"
  | .java => "java"
  | .go => "go"
  | .rust => "rust"
  | .cpp => "cpp"
  | .c => "c"
  | .kotlin => "kotlin"
  | .swift => "swift"
  | .ruby => "ruby"
  | .php => "php"
  | .unknown => "unknown"

def extensions : List (String × Language) :=
  [("cs", .csharp), ("ts", .typescript), ("tsx", .typescript), ("js", .javascript),
    ("jsx", .javascript), ("py", .python), ("java", .java), ("go", .go), ("rb", .ruby),
    ("php", .php), ("rs", .rust), ("cpp", .cpp), ("cxx", .cpp), ("cc", .cpp), ("c", .c),
    ("kt", .kotlin), ("swift", .swift)]

def asciiLowered (s : String) : String := String.ofList (Text.asciiLower s.toList)

/-- The language of an extension, written without its dot and in any case. -/
def ofExtension (ext : String) : Language :=
  (extensions.lookup (asciiLowered ext)).getD .unknown

def ofPath (p : Path) : Language :=
  match p.extension?.bind Utf8.decode with
  | some ext => ofExtension (String.ofList ext)
  | none => .unknown

/-- The language with exactly this name; `unknown` for any other text. -/
def ofName (s : String) : Language := (all.find? (·.name = s)).getD .unknown

def ofAnyCase (s : String) : Language := ofName (asciiLowered s)

def isKnown (l : Language) : Bool := l ≠ .unknown

@[simp] theorem ofName_name (l : Language) : ofName l.name = l := by
  cases l <;> decide +kernel

theorem name_injective : Function.Injective name :=
  Function.LeftInverse.injective ofName_name

end Language

end ApiAtlas
