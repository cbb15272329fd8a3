import ApiAtlas.Json.Record
import ApiAtlas.Model

/-!
How the model is written as JSON. Reading is lenient: fields have defaults, and a language or kind
that is not known reads as `unknown`.
-/
namespace ApiAtlas

open Json (Codec Fields Presence Record)

def Language.variants : Codec.Variants Language where
  names := Language.all.map fun l => (l.name, l)
  other := some .unknown
  name := Language.name

def Language.codec : Codec Language := .variant Language.variants

def ContainerKind.codec : Codec ContainerKind :=
  .variant
    { names := [("class", .type), ("module", .module), ("file", .file), ("unknown", .unknown)]
      other := some .unknown
      name := ContainerKind.name }

def MemberKind.codec : Codec MemberKind :=
  .variant
    { names := [("function", .function), ("method", .method), ("unknown", .unknown)]
      other := some .unknown
      name := MemberKind.name }

def DocumentKind.codec : Codec DocumentKind :=
  .variant
    { names := [("api", .api), ("generic", .generic)]
      other := none
      name := DocumentKind.name }

def Source.record : Record Source where
  name := "SourceFile"
  types := [Path, Language]
  fields := .cons "path" .required .path <| .cons "language" .required Language.codec .nil
  make := fun (path, language, ()) => ⟨path, language⟩
  values s := (s.path, s.language, ())

def Source.codec : Codec Source := Source.record.codec

def Manifest.record : Record Manifest where
  name := "Manifest"
  types := [List Source, List Path]
  fields :=
    .cons "sources" (.default []) (.list Source.codec) <|
    .cons "doc_dirs" (.default []) (.list .path) .nil
  make := fun (sources, docDirs, ()) => ⟨sources, docDirs⟩
  values m := (m.sources, m.docDirs, ())

def Manifest.codec : Codec Manifest := Manifest.record.codec

def Member.record : Record Member where
  name := "ApiMember"
  types := [String, MemberKind, String, List String, String, String]
  fields :=
    .cons "name" .required .string <|
    .cons "kind" (.default .unknown) MemberKind.codec <|
    .cons "visibility" (.default "public") .string <|
    .cons "parameters" (.default []) (.list .string) <|
    .cons "returns" (.default "unknown") .string <|
    .cons "summary" (.default "") .string .nil
  make := fun (name, kind, visibility, parameters, returns, summary, ()) =>
    ⟨name, kind, visibility, parameters, returns, summary⟩
  values m := (m.name, m.kind, m.visibility, m.parameters, m.returns, m.summary, ())

def Member.codec : Codec Member := Member.record.codec

def Entry.record : Record Entry where
  name := "ApiEntry"
  types := [Path, Language, String, ContainerKind, String, List Member]
  fields :=
    .cons "file" (.default ⟨[]⟩) .path <|
    .cons "language" (.default .unknown) Language.codec <|
    .cons "container" (.default "UnknownContainer") .string <|
    .cons "container_kind" (.default .unknown) ContainerKind.codec <|
    .cons "summary" (.default "") .string <|
    .cons "members" (.default []) (.list Member.codec) .nil
  make := fun (file, language, container, kind, summary, members, ()) =>
    ⟨file, language, container, kind, summary, members⟩
  values e := (e.file, e.language, e.container, e.kind, e.summary, e.members, ())

def Entry.codec : Codec Entry := Entry.record.codec

def Report.record : Record Report where
  name := "ApiReport"
  types := [List Entry, List Path]
  fields :=
    .cons "api_model" .required (.list Entry.codec) <|
    .cons "skipped" (.default []) (.list .path) .nil
  make := fun (entries, skipped, ()) => ⟨entries, skipped⟩
  values r := (r.entries, r.skipped, ())

def Report.codec : Codec Report := Report.record.codec

def Document.record : Record Document where
  name := "DocRecord"
  types := [Path, DocumentKind]
  fields := .cons "path" .required .path <| .cons "kind" .required DocumentKind.codec .nil
  make := fun (path, kind, ()) => ⟨path, kind⟩
  values d := (d.path, d.kind, ())

def Document.codec : Codec Document := Document.record.codec

end ApiAtlas
