import ApiAtlas.Digest
import ApiAtlas.Error
import ApiAtlas.Text.Upper

/-!
Pages: one Markdown file an entry, named for its container. Two containers can have one name; then
either the later page replaces the earlier, or it gets a suffix from where its entry came from.
-/
namespace ApiAtlas

inductive Collision where
  | overwrite
  | disambiguate
  deriving DecidableEq, Repr

namespace Collision

def name : Collision → String
  | .overwrite => "overwrite"
  | .disambiguate => "disambiguate"

def ofText (s : String) : Except Error Collision :=
  let lowered := String.ofList (Text.lower s.toList)
  match [overwrite, disambiguate].find? (·.name = lowered) with
  | some policy => .ok policy
  | none => .error (.unknownCollision s)

end Collision

/-- A container's name with nothing in it that would lead to another directory. -/
def fileBase (container : String) : String :=
  String.ofList (container.toList.map fun c => if c ∈ [' ', '/', '\\'] then '_' else c)

def Entry.origin (e : Entry) : String :=
  let text := e.language.name.toList ++ '\x00' :: Utf8.decodeLossy e.file.bytes
  String.ofList ((Digest.hex (Utf8.encode text)).take 8)

/-- A way to tell entries of one name apart: eight hexadecimal digits for each. -/
structure Origins where
  text : Entry → String
  length_text : ∀ e, (text e).toList.length = 8
  isHex_text : ∀ e, ∀ c ∈ (text e).toList, c ∈ "0123456789abcdef".toList

def Origins.standard : Origins where
  text := Entry.origin
  length_text e := by
    unfold Entry.origin
    simp [Digest.length_hex]
  isHex_text e c hc := by
    unfold Entry.origin at hc
    rw [String.toList_ofList] at hc
    obtain ⟨b, _, hb⟩ := List.mem_flatMap.1 (List.mem_of_mem_take hc)
    exact Digest.mem_hexDigits hb

namespace Collision

/-- `stem`, then `stem-2`, `stem-3` and so on, one more than there are names taken. -/
def candidates (stem : String) (taken : Nat) : List String :=
  stem :: (List.range taken).map fun i => stem ++ "-" ++ Nat.repr (i + 2)

def firstFree (stem : String) (taken : List String) : String :=
  ((candidates stem taken.length).find? (· ∉ taken)).getD stem

def nextName (policy : Collision) (origin : Entry → String) (taken : List String) (e : Entry) :
    String :=
  let base := fileBase e.container
  if base ∉ taken then base
  else
    match policy with
    | .overwrite => base
    | .disambiguate => firstFree (base ++ "-" ++ origin e) taken

def namesFrom (policy : Collision) (origin : Entry → String) :
    (taken : List String) → List Entry → List String
  | _, [] => []
  | taken, e :: rest =>
    let name := policy.nextName origin taken e
    name :: namesFrom policy origin (name :: taken) rest

@[simp] theorem length_namesFrom (policy : Collision) (origin : Entry → String)
    (entries : List Entry) (taken : List String) :
    (namesFrom policy origin taken entries).length = entries.length := by
  induction entries generalizing taken with
  | nil => rfl
  | cons e rest ih => simp [namesFrom, ih]

def names (policy : Collision) (origin : Entry → String) (entries : List Entry) : List String :=
  namesFrom policy origin [] entries

end Collision

structure PageWriter where
  template : Template := .standard
  collision : Collision := .disambiguate
  deriving DecidableEq, Repr

structure Page where
  path : Path
  content : Bytes
  deriving DecidableEq, Repr

namespace PageWriter

def pagesBy (w : PageWriter) (origins : Origins) (entries : List Entry) (dir : Path) :
    List Page :=
  List.zipWith
    (fun e name => ⟨dir.join (.ofString (name ++ ".md")), Utf8.encode (w.template.fill e)⟩)
    entries (w.collision.names origins.text entries)

end PageWriter

/-- Writes pages one after the other and stops at the first that cannot be written. -/
def FileTree.writePages (t : FileTree) : List Page → FileTree × Except IoError Unit
  | [] => (t, .ok ())
  | page :: rest =>
    match t.writeFile page.path page.content with
    | .ok t => t.writePages rest
    | .error e => (t, .error e)

namespace PageWriter

def writeBy (w : PageWriter) (origins : Origins) (t : FileTree) (entries : List Entry)
    (dir : Path) : FileTree × Except Error (List Path) :=
  match t.makeDirs dir with
  | (t, .error e) => (t, .error (.io e))
  | (t, .ok ()) =>
    let pages := w.pagesBy origins entries dir
    match t.writePages pages with
    | (t, .error e) => (t, .error (.io e))
    | (t, .ok ()) => (t, .ok (pages.map (·.path)))

def write (w : PageWriter) (t : FileTree) (entries : List Entry) (dir : Path) :
    FileTree × Except Error (List Path) :=
  w.writeBy .standard t entries dir

end PageWriter

end ApiAtlas
