import ApiAtlas.Language

/-!
The model every language shares: entries document one container each, and a container has members.
Signatures are never read, so a member says nothing of parameters and results.
-/
namespace ApiAtlas

structure Source where
  path : Path
  language : Language
  deriving DecidableEq, Repr

structure Manifest where
  sources : List Source := []
  docDirs : List Path := []
  deriving DecidableEq, Repr

inductive ContainerKind where
  | type
  | module
  | file
  | unknown
  deriving DecidableEq, Repr

def ContainerKind.name : ContainerKind → String
  | .type => "class"
  | .module => "module"
  | .file => "file"
  | .unknown => "unknown"

inductive MemberKind where
  | function
  | method
  | unknown
  deriving DecidableEq, Repr

def MemberKind.name : MemberKind → String
  | .function => "function"
  | .method => "method"
  | .unknown => "unknown"

structure Member where
  name : String
  kind : MemberKind := .unknown
  visibility : String := "public"
  parameters : List String := []
  returns : String := "unknown"
  summary : String := ""
  deriving DecidableEq, Repr

structure Entry where
  file : Path := ⟨[]⟩
  language : Language := .unknown
  container : String := "UnknownContainer"
  kind : ContainerKind := .unknown
  summary : String := ""
  members : List Member := []
  deriving DecidableEq, Repr

@[ext]
structure Report where
  entries : List Entry := []
  skipped : List Path := []
  deriving DecidableEq, Repr

def Report.append (a b : Report) : Report := ⟨a.entries ++ b.entries, a.skipped ++ b.skipped⟩

instance : Append Report := ⟨Report.append⟩

@[simp] theorem Report.entries_append (a b : Report) :
    (a ++ b).entries = a.entries ++ b.entries := rfl

@[simp] theorem Report.skipped_append (a b : Report) :
    (a ++ b).skipped = a.skipped ++ b.skipped := rfl

theorem Report.append_assoc (a b c : Report) : a ++ b ++ c = a ++ (b ++ c) := by
  apply Report.ext
  · exact List.append_assoc a.entries b.entries c.entries
  · exact List.append_assoc a.skipped b.skipped c.skipped

@[simp] theorem Report.empty_append (a : Report) : ({} : Report) ++ a = a := rfl

@[simp] theorem Report.append_empty (a : Report) : a ++ ({} : Report) = a := by
  apply Report.ext
  · exact List.append_nil a.entries
  · exact List.append_nil a.skipped

inductive DocumentKind where
  | api
  | generic
  deriving DecidableEq, Repr

def DocumentKind.name : DocumentKind → String
  | .api => "api"
  | .generic => "generic"

structure Document where
  path : Path
  kind : DocumentKind
  deriving DecidableEq, Repr

end ApiAtlas
