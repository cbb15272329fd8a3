import ApiAtlas.Extraction
import ApiAtlas.Model.Wire
import ApiAtlas.Settings
import ApiAtlas.Survey

/-!
The request service: one JSON request a line, one JSON object back. A request that fails is answered
with its error, and the next line is served as before.
-/
namespace ApiAtlas

open Json (Codec Record)

inductive Tool where
  | buildManifest
  | scanDocs
  | extractApi
  | renderApiDocs
  deriving DecidableEq, Repr

def Tool.names : List (String × Tool) :=
  [("build_manifest", .buildManifest), ("doc_manifest.build_manifest", .buildManifest),
    ("scan_docs", .scanDocs), ("doc_inventory.scan_docs", .scanDocs),
    ("extract_api", .extractApi), ("multi_lang_api_extractor.extract_api", .extractApi),
    ("render_api_docs", .renderApiDocs), ("markdown_renderer.render_api_docs", .renderApiDocs)]

def Tool.ofName (name : String) : Except Error Tool :=
  match Tool.names.lookup name with
  | some tool => .ok tool
  | none => .error (.unknownTool name)

structure Request where
  tool : String
  params : Option Json

def Request.codec : Codec Request :=
  Record.codec
    { name := "Request"
      types := [String, Option Json]
      fields :=
        .cons "tool" .required .string <|
        .cons "params" (.default none) (.option .json) .nil
      make := fun (tool, params, ()) => ⟨tool, params⟩
      values := fun r => (r.tool, r.params, ()) }

structure RootParams where
  root? : Option Path := none

def RootParams.codec : Codec RootParams :=
  Record.codec
    { name := "RootArgs"
      types := [Option Path]
      fields := .cons "root" .optional (.option .path) .nil
      make := fun (root, ()) => ⟨root⟩
      values := fun p => (p.root?, ()) }

structure ExtractParams where
  root? : Option Path := none
  manifest? : Option Manifest := none

def ExtractParams.codec : Codec ExtractParams :=
  Record.codec
    { name := "ExtractArgs"
      types := [Option Path, Option Manifest]
      fields :=
        .cons "root" .optional (.option .path) <|
        .cons "manifest" .optional (.option Manifest.codec) .nil
      make := fun (root, manifest, ()) => ⟨root, manifest⟩
      values := fun p => (p.root?, p.manifest?, ()) }

structure RenderParams where
  root? : Option Path := none
  entries? : Option (List Entry) := none
  docsRoot? : Option Path := none

def RenderParams.codec : Codec RenderParams :=
  Record.codec
    { name := "RenderArgs"
      types := [Option Path, Option (List Entry), Option Path]
      fields :=
        .cons "root" .optional (.option .path) <|
        .cons "api_model" .optional (.option (.list Entry.codec)) <|
        .cons "docs_root" .optional (.option .path) .nil
      make := fun (root, entries, docsRoot, ()) => ⟨root, entries, docsRoot⟩
      values := fun p => (p.root?, p.entries?, p.docsRoot?, ()) }

/-- What the runtime says of the task that handles a request, if the task is aborted: the first
request of a stream, the second, and so on. -/
abbrev Notices := Nat → String

def Notices.after (notices : Notices) (n : Nat) : Notices := fun k => notices (n + k)

@[simp] theorem Notices.after_zero (notices : Notices) : notices.after 0 = notices := by
  funext k
  rw [after, Nat.zero_add]

theorem Notices.after_after (notices : Notices) (m n : Nat) :
    (notices.after m).after n = notices.after (m + n) := by
  funext k
  rw [after, after, after, Nat.add_assoc]

/-- How a request ends. It is aborted if a list of paths in its answer cannot be written as text. -/
inductive Outcome where
  | done (answer : Json)
  | failed (e : Error)
  | aborted

namespace Outcome

def ofExcept : Except Error Json → Outcome
  | .ok answer => .done answer
  | .error e => .failed e

def ofList {α : Type} (name : String) (codec : Codec α) (items : List α) : Outcome :=
  match (Codec.list codec).toJson items with
  | .ok v => .done (.obj [(name, v.sorted)])
  | .error _ => .aborted

def errorObject (message : String) : Json := .obj [("error", .str message)]

def response (o : Outcome) (notice : String := "task panicked") : Json :=
  match o with
  | .done answer => answer
  | .failed e => errorObject e.message
  | .aborted => errorObject ("request aborted: " ++ notice)

end Outcome

def decodeParams {α : Type} (codec : Codec α) (default : α) : Option Json → Except Error α
  | none => .ok default
  | some .null => .ok default
  | some v =>
    match codec.ofValue v with
    | .ok params => .ok params
    | .error e => .error (.invalidRequest e)

def encodeAnswer {α : Type} (codec : Codec α) (a : α) : Except Error Json :=
  match codec.toJson a with
  | .ok v => .ok v.sorted
  | .error reason => .error (.json (.ofReason reason))

namespace Settings

def rootOr (s : Settings) (root? : Option Path) : Path := root?.getD s.root

def report (s : Settings) (t : FileTree) (p : ExtractParams) : Report :=
  let manifest := p.manifest?.getD (t.manifest (s.rootOr p.root?) s.exclude)
  Registry.standard.extract t s.parallel manifest

def pageDir (s : Settings) (p : RenderParams) : Path :=
  match p.docsRoot?, p.root? with
  | some dir, _ => dir
  | none, some root => root.apiDocs
  | none, none => s.docsRoot

def render (s : Settings) (t : FileTree) (p : RenderParams) :
    FileTree × Except Error (List Path) :=
  match s.pageWriter t with
  | .error e => (t, .error e)
  | .ok writer => writer.write t (p.entries?.getD []) (s.pageDir p)

def handle (s : Settings) (t : FileTree) (tool : Tool) (params : Option Json) :
    FileTree × Outcome :=
  match tool with
  | .buildManifest =>
    (t, .ofExcept do
      let p ← decodeParams RootParams.codec {} params
      encodeAnswer Manifest.codec (t.manifest (s.rootOr p.root?) s.exclude))
  | .scanDocs =>
    match decodeParams RootParams.codec {} params with
    | .error e => (t, .failed e)
    | .ok p => (t, .ofList "docs" Document.codec (t.documents (s.rootOr p.root?)))
  | .extractApi =>
    (t, .ofExcept do
      let p ← decodeParams ExtractParams.codec {} params
      encodeAnswer Report.codec (s.report t p))
  | .renderApiDocs =>
    match decodeParams RenderParams.codec {} params with
    | .error e => (t, .failed e)
    | .ok p =>
      match s.render t p with
      | (t, .error e) => (t, .failed e)
      | (t, .ok paths) => (t, .ofList "generated_files" .path paths)

def handleLine (s : Settings) (t : FileTree) (line : List Char) : FileTree × Outcome :=
  match Request.codec.ofText (String.ofList line) with
  | .error e => (t, .failed (.invalidRequest e))
  | .ok request =>
    match Tool.ofName request.tool with
    | .error e => (t, .failed e)
    | .ok tool => s.handle t tool request.params

end Settings

def lineFeed : UInt8 := 0x0A

def Bytes.lines : Bytes → List Bytes
  | [] => []
  | b :: bs =>
    if b = lineFeed then [b] :: Bytes.lines bs
    else
      match Bytes.lines bs with
      | [] => [[b]]
      | line :: rest => (b :: line) :: rest

@[simp] theorem Bytes.flatten_lines (bs : Bytes) : bs.lines.flatten = bs := by
  induction bs with
  | nil => rfl
  | cons b bs ih =>
    rw [Bytes.lines]
    split
    · next h => simp [ih]
    · split
      · next h =>
        rw [h] at ih
        simp [← ih]
      · next line rest h =>
        rw [h] at ih
        simpa using ih

def carriageReturn : UInt8 := 0x0D

/-- A line without the line feed that ends it and a carriage return before that. -/
def Bytes.withoutBreak (line : Bytes) : Bytes :=
  match line.reverse with
  | b :: rest =>
    if b = lineFeed then
      (if rest.head? = some carriageReturn then rest.tail else rest).reverse
    else line
  | [] => line

/-- A served stream: the answers, the files afterwards, and the error that cut it short, if any. -/
structure Served where
  tree : FileTree
  responses : List Json
  error? : Option Error

namespace Settings

/-- Answers lines in turn, blank ones apart. A line that is no text ends the service. -/
def serveLines (s : Settings) (t : FileTree) : List Bytes → Notices → Served
  | [], _ => ⟨t, [], none⟩
  | line :: rest, notices =>
    match Utf8.fault line.withoutBreak with
    | some (offset, run) => ⟨t, [], some (.line offset run)⟩
    | none =>
      match Text.trim (Utf8.decodeLossy line.withoutBreak) with
      | [] => s.serveLines t rest notices
      | text =>
        let (t, outcome) := s.handleLine t text
        let served := s.serveLines t rest (notices.after 1)
        { served with responses := outcome.response (notices 0) :: served.responses }

def serve (s : Settings) (t : FileTree) (input : Bytes)
    (notices : Notices := fun _ => "task panicked") : Served :=
  s.serveLines t input.lines notices

end Settings

end ApiAtlas
