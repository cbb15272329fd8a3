import ApiAtlas.Json.Record
import ApiAtlas.Pages

/-!
Settings: where the sources are, where pages go, and how they are made.
-/
namespace ApiAtlas

open Json (Codec Record)

structure Settings where
  root? : Option Path := none
  docsRoot? : Option Path := none
  template? : Option Path := none
  exclude : List String := []
  collision? : Option Collision := none
  parallel : Bool := false
  deriving DecidableEq, Repr

def Path.apiDocs (root : Path) : Path := (root.join (.ofString "docs")).join (.ofString "api")

namespace Settings

def root (s : Settings) : Path := s.root?.getD (.ofString ".")

def docsRoot (s : Settings) : Path := s.docsRoot?.getD s.root.apiDocs

def pageWriter (s : Settings) (t : FileTree) : Except Error PageWriter := do
  let template ←
    match s.template? with
    | some path => t.template path
    | none => .ok .standard
  return { template, collision := s.collision?.getD .disambiguate }

end Settings

def Collision.codec : Codec Collision :=
  .variant
    { names := [("overwrite", .overwrite), ("disambiguate", .disambiguate)]
      other := none
      name := Collision.name }

def Settings.record : Record Settings where
  name := "DocpipeConfig"
  types := [Option Path, Option Path, Option Path, List String, Option Collision, Bool]
  fields :=
    .cons "root" .optional (.option .path) <|
    .cons "docs_root" .optional (.option .path) <|
    .cons "template" .optional (.option .path) <|
    .cons "exclude" (.default []) (.list .string) <|
    .cons "collision" .optional (.option Collision.codec) <|
    .cons "parallel" (.default false) .bool .nil
  make := fun (root, docsRoot, template, exclude, collision, parallel, ()) =>
    ⟨root, docsRoot, template, exclude, collision, parallel⟩
  values s := (s.root?, s.docsRoot?, s.template?, s.exclude, s.collision?, s.parallel, ())

def Settings.codec : Codec Settings := Settings.record.codec

end ApiAtlas
