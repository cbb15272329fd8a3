import ApiAtlas.FileTree
import ApiAtlas.Scan.Module

/-!
Which language is read how. A language with a grammar has its files opened and scanned; any other is
served by stubs, one entry a file, and its files stay closed.
-/
namespace ApiAtlas

inductive Grammar where
  | qualified (g : Scan.Qualified)
  | module (g : Scan.Module)

namespace Grammar

def language : Grammar → Language
  | .qualified g => g.language
  | .module g => g.language

def scan : Grammar → Path → List Char → List Entry
  | .qualified g => g.scan
  | .module g => g.scan

def all : List Grammar :=
  [.qualified Scan.csharp, .module Scan.typescript, .module Scan.javascript, .module Scan.python,
    .qualified Scan.java, .module Scan.go, .module Scan.rust]

end Grammar

inductive Scanner where
  | grammar (g : Grammar)
  | stub (language : Language)

namespace Scanner

def language : Scanner → Language
  | .grammar g => g.language
  | .stub l => l

def stubEntry (l : Language) (path : Path) : Entry where
  file := path
  language := l
  container := path.baseName
  kind := .file

/-- What one file yields. A file that is no text, or cannot be read, is skipped. -/
def reportFile (t : FileTree) : Scanner → Path → Report
  | .stub l, path => { entries := [stubEntry l path] }
  | .grammar g, path =>
    match t.readText path with
    | .ok text => { entries := g.scan path text }
    | .error _ => { skipped := [path] }

end Scanner

def Report.concat (reports : List Report) : Report where
  entries := reports.flatMap (·.entries)
  skipped := reports.flatMap (·.skipped)

@[simp] theorem Report.entries_concat (reports : List Report) :
    (concat reports).entries = reports.flatMap (·.entries) := rfl

@[simp] theorem Report.skipped_concat (reports : List Report) :
    (concat reports).skipped = reports.flatMap (·.skipped) := rfl

def Scanner.report (t : FileTree) (s : Scanner) (files : List Path) : Report :=
  .concat (files.map (s.reportFile t))

structure Registry where
  scanner? : Language → Option Scanner

namespace Registry

def empty : Registry := ⟨fun _ => none⟩

def register (r : Registry) (s : Scanner) : Registry :=
  ⟨fun l => if l = s.language then some s else r.scanner? l⟩

theorem scanner?_register (r : Registry) (s : Scanner) (l : Language) :
    (r.register s).scanner? l = if l = s.language then some s else r.scanner? l := rfl

def standard : Registry := Grammar.all.foldl (fun r g => r.register (.grammar g)) empty

def has (r : Registry) (l : Language) : Bool := (r.scanner? l).isSome

/-- The scanner of a language; one that has none registered gets stubs. -/
def resolve (r : Registry) (l : Language) : Scanner := (r.scanner? l).getD (.stub l)

def languages (r : Registry) : List Language := Language.all.filter r.has

end Registry

end ApiAtlas
