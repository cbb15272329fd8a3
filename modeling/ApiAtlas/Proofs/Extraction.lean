import ApiAtlas.Proofs.Workers
import Mathlib.Data.List.Induction
import Mathlib.Data.String.Basic

/-!
Extraction against its meaning: every source of a manifest yields what its own file holds, the
languages stand in the order of their names, and the sources of one language in manifest order.
-/
namespace ApiAtlas

def Manifest.filesOf (m : Manifest) (l : Language) : List Path :=
  (m.sources.filter (·.language = l)).map (·.path)

namespace Group

/-- Files by language: sorted by name, nothing missing, nothing made up. -/
structure Sorts (sources : List Source) (groups : List Group) : Prop where
  sorted : groups.Pairwise (·.language.name < ·.language.name)
  mem_languages : ∀ l, l ∈ groups.map (·.language) ↔ l ∈ sources.map (·.language)
  files : ∀ g ∈ groups, g.files = (sources.filter (·.language = g.language)).map (·.path)

theorem mem_languages_insert (s : Source) (groups : List Group) (l : Language) :
    l ∈ (insert s groups).map (·.language) ↔ l = s.language ∨ l ∈ groups.map (·.language) := by
  induction groups with
  | nil => simp [insert]
  | cons g groups ih =>
    unfold insert
    split
    · simp
    · split
      · rename_i _ hname
        have hsame : s.language = g.language := Language.name_injective hname
        simp [hsame]
      · simp only [List.map_cons, List.mem_cons, ih]
        exact or_left_comm

theorem sorted_insert (s : Source) (groups : List Group)
    (h : groups.Pairwise (·.language.name < ·.language.name)) :
    (insert s groups).Pairwise (·.language.name < ·.language.name) := by
  induction groups with
  | nil => simp [insert]
  | cons g groups ih =>
    have htail := List.pairwise_cons.mp h
    unfold insert
    split
    · rename_i hlt
      refine List.pairwise_cons.mpr ⟨?_, h⟩
      intro g' hg'
      rcases List.mem_cons.mp hg' with rfl | hg'
      · exact hlt
      · exact lt_trans hlt (htail.1 g' hg')
    · split
      · exact List.pairwise_cons.mpr ⟨htail.1, htail.2⟩
      · rename_i hlt hne
        refine List.pairwise_cons.mpr ⟨?_, ih htail.2⟩
        intro g' hg'
        have hlanguage : g'.language ∈ (insert s groups).map (·.language) :=
          List.mem_map_of_mem hg'
        rcases (mem_languages_insert s groups g'.language).mp hlanguage with hs | hold
        · rw [hs]
          exact lt_of_le_of_ne (not_lt.mp hlt) (Ne.symm hne)
        · obtain ⟨g'', hg'', heq⟩ := List.mem_map.mp hold
          rw [← heq]
          exact htail.1 g'' hg''

theorem files_insert (s : Source) (groups : List Group) (files : Language → List Path)
    (hsorted : groups.Pairwise (·.language.name < ·.language.name))
    (hfiles : ∀ g ∈ groups, g.files = files g.language)
    (hnew : s.language ∉ groups.map (·.language) → files s.language = []) :
    ∀ g ∈ insert s groups,
      g.files = files g.language ++ if s.language = g.language then [s.path] else [] := by
  induction groups with
  | nil => simp [insert, hnew]
  | cons g groups ih =>
    have htail := List.pairwise_cons.mp hsorted
    have hhead : g.files = files g.language := hfiles g List.mem_cons_self
    have hrest : ∀ g' ∈ groups, g'.files = files g'.language :=
      fun g' hg' => hfiles g' (List.mem_cons_of_mem g hg')
    -- Groups behind one that is not before the source's language cannot be of that language.
    have hbehind : ¬ g.language.name < s.language.name → ∀ g' ∈ groups, s.language ≠ g'.language := by
      intro hge g' hg' heq
      exact hge (heq ▸ htail.1 g' hg')
    unfold insert
    split
    · rename_i hlt
      have hother : s.language ≠ g.language := fun heq => lt_irrefl _ (heq ▸ hlt)
      have habsent : ∀ g' ∈ groups, s.language ≠ g'.language := hbehind (lt_asymm hlt)
      intro g' hg'
      rcases List.mem_cons.mp hg' with rfl | hg'
      · have hnone : files s.language = [] := by
          apply hnew
          intro hmem
          rcases List.mem_map.mp hmem with ⟨g', hg', heq⟩
          rcases List.mem_cons.mp hg' with rfl | hg'
          · exact hother heq.symm
          · exact habsent g' hg' heq.symm
        simp [hnone]
      · rcases List.mem_cons.mp hg' with rfl | hg'
        · simp [hother, hhead]
        · simp [habsent g' hg', hrest g' hg']
    · split
      · rename_i _ hname
        have hsame : s.language = g.language := Language.name_injective hname
        intro g' hg'
        rcases List.mem_cons.mp hg' with rfl | hg'
        · simp [hsame, hhead]
        · have hother := hbehind (hname ▸ lt_irrefl _) g' hg'
          simp [hother, hrest g' hg']
      · rename_i hlt hne
        intro g' hg'
        rcases List.mem_cons.mp hg' with rfl | hg'
        · have hother : s.language ≠ g'.language := fun heq => hne (congrArg Language.name heq)
          simp [hother, hhead]
        · refine ih htail.2 hrest ?_ g' hg'
          intro habsent
          apply hnew
          simp only [List.map_cons, List.mem_cons, not_or]
          exact ⟨fun heq => hne (congrArg Language.name heq), habsent⟩

theorem Sorts.insert {sources : List Source} {groups : List Group} (h : Sorts sources groups)
    (s : Source) : Sorts (sources ++ [s]) (Group.insert s groups) where
  sorted := sorted_insert s groups h.sorted
  mem_languages l := by
    rw [mem_languages_insert, h.mem_languages]
    simp [or_comm]
  files g hg := by
    have hnew : s.language ∉ groups.map (·.language) →
        (sources.filter (·.language = s.language)).map (·.path) = [] := by
      intro habsent
      rw [h.mem_languages] at habsent
      simp only [List.map_eq_nil_iff, List.filter_eq_nil_iff, decide_eq_true_eq]
      intro s' hs' heq
      exact habsent (List.mem_map.mpr ⟨s', hs', heq⟩)
    rw [files_insert s groups (fun l => (sources.filter (·.language = l)).map (·.path)) h.sorted
      h.files hnew g hg, List.filter_append, List.map_append]
    by_cases hs : s.language = g.language <;> simp [hs]

theorem Sorts.nodup {sources : List Source} {groups : List Group} (h : Sorts sources groups) :
    groups.Nodup := by
  refine h.sorted.imp ?_
  intro g g' hlt heq
  exact lt_irrefl _ (heq ▸ hlt)

end Group

theorem Manifest.sorts_groups (m : Manifest) : Group.Sorts m.sources m.groups := by
  unfold groups
  induction m.sources using List.reverseRecOn with
  | nil =>
    refine ⟨List.Pairwise.nil, ?_, ?_⟩
    · simp
    · simp
  | append_singleton sources s ih =>
    rw [List.foldl_append]
    exact ih.insert s

def Language.grammar? : Language → Option Grammar
  | .csharp => some (.qualified Scan.csharp)
  | .java => some (.qualified Scan.java)
  | .typescript => some (.module Scan.typescript)
  | .javascript => some (.module Scan.javascript)
  | .python => some (.module Scan.python)
  | .go => some (.module Scan.go)
  | .rust => some (.module Scan.rust)
  | .cpp | .c | .kotlin | .swift | .ruby | .php | .unknown => none

theorem Registry.resolve_standard (l : Language) :
    standard.resolve l = match l.grammar? with
      | some g => .grammar g
      | none => .stub l := by
  cases l <;> rfl

namespace Source

/-- The entries of one source: those its grammar finds, if its file is text, or else a stub. -/
def yield (t : FileTree) (s : Source) : List Entry :=
  match s.language.grammar? with
  | some g =>
    match t.readText s.path with
    | .ok text => g.scan s.path text
    | .error _ => []
  | none => [{ file := s.path, language := s.language, container := s.path.baseName, kind := .file }]

/-- Whether a source has a grammar and no text to read with it. -/
def isSkipped (t : FileTree) (s : Source) : Bool :=
  s.language.grammar?.isSome && (t.readText s.path).toOption.isNone

theorem reportFile_resolve (t : FileTree) (s : Source) :
    (Registry.standard.resolve s.language).reportFile t s.path =
      ⟨s.yield t, if s.isSkipped t then [s.path] else []⟩ := by
  unfold yield isSkipped
  rw [Registry.resolve_standard]
  cases s.language.grammar? with
  | none => rfl
  | some g => cases hread : t.readText s.path <;> simp [Scanner.reportFile, hread, Except.toOption]

theorem report_resolve (t : FileTree) (l : Language) (sources : List Source)
    (h : ∀ s ∈ sources, s.language = l) :
    (Registry.standard.resolve l).report t (sources.map (·.path)) =
      ⟨sources.flatMap (yield t), (sources.filter (isSkipped t)).map (·.path)⟩ := by
  induction sources with
  | nil => rfl
  | cons s sources ih =>
    have hs : s.language = l := h s List.mem_cons_self
    have hrest := ih fun s' hs' => h s' (List.mem_cons_of_mem s hs')
    rw [List.map_cons, Scanner.report_cons, hrest, ← hs, reportFile_resolve]
    by_cases hskip : s.isSkipped t <;> simp [Report.ext_iff, hskip]

end Source

namespace Registry

theorem extract_eq_concat (r : Registry) (t : FileTree) (parallel : Bool) (m : Manifest) :
    r.extract t parallel m = r.reportInTurn t m.groups := by
  unfold extract
  simp only [reportAtOnce_eq, ite_self]

theorem reportGroup_standard (t : FileTree) (m : Manifest) (g : Group) (hg : g ∈ m.groups) :
    standard.reportGroup t g =
      ⟨(m.sources.filter (·.language = g.language)).flatMap (Source.yield t),
        ((m.sources.filter (·.language = g.language)).filter (Source.isSkipped t)).map (·.path)⟩ := by
  unfold reportGroup
  rw [m.sorts_groups.files g hg]
  apply Source.report_resolve
  intro s hs
  simpa using (List.mem_filter.mp hs).2

end Registry

namespace Manifest

theorem mem_languages_iff (m : Manifest) (l : Language) :
    l ∈ m.sources.map (·.language) ↔ m.filesOf l ≠ [] := by
  unfold filesOf
  simp

theorem mem_groups_iff (m : Manifest) (g : Group) :
    g ∈ m.groups ↔ g.files = m.filesOf g.language ∧ g.files ≠ [] := by
  have hsorts := m.sorts_groups
  constructor
  · intro hg
    have hfiles : g.files = m.filesOf g.language := hsorts.files g hg
    have hlanguage : g.language ∈ m.groups.map (·.language) := List.mem_map_of_mem hg
    rw [hsorts.mem_languages, mem_languages_iff, ← hfiles] at hlanguage
    exact ⟨hfiles, hlanguage⟩
  · intro ⟨hfiles, hne⟩
    rw [hfiles, ← mem_languages_iff, ← hsorts.mem_languages] at hne
    obtain ⟨g', hg', hsame⟩ := List.mem_map.mp hne
    have hfiles' : g'.files = m.filesOf g'.language := hsorts.files g' hg'
    have heq : g' = g := by
      obtain ⟨language, files⟩ := g
      obtain ⟨language', files'⟩ := g'
      simp only at hsame hfiles hfiles'
      rw [hfiles, hfiles', hsame]
    exact heq ▸ hg'

theorem groups_eq_of_filesOf (m m' : Manifest) (h : ∀ l, m'.filesOf l = m.filesOf l) :
    m'.groups = m.groups := by
  -- Both are sorted, so it is enough that they hold the same groups.
  have hperm : m'.groups.Perm m.groups := by
    apply (List.perm_ext_iff_of_nodup m'.sorts_groups.nodup m.sorts_groups.nodup).mpr
    intro g
    rw [mem_groups_iff, mem_groups_iff, h]
  apply hperm.eq_of_pairwise _ m'.sorts_groups.sorted m.sorts_groups.sorted
  intro g g' _ _ hlt hgt
  exact absurd hgt (lt_asymm hlt)

end Manifest

namespace Registry

theorem reportGroup_congr (t t' : FileTree) (m : Manifest) (g : Group) (hg : g ∈ m.groups)
    (h : ∀ s ∈ m.sources, s.language.grammar?.isSome → t'.readText s.path = t.readText s.path) :
    standard.reportGroup t' g = standard.reportGroup t g := by
  have hsource : ∀ s ∈ m.sources,
      s.yield t' = s.yield t ∧ s.isSkipped t' = s.isSkipped t := by
    intro s hs
    unfold Source.yield Source.isSkipped
    cases hgrammar : s.language.grammar? with
    | none => simp
    | some g => simp [h s hs (by simp [hgrammar])]
  rw [reportGroup_standard t' m g hg, reportGroup_standard t m g hg]
  apply Report.ext
  · apply List.flatMap_congr
    intro s hs
    exact (hsource s (List.mem_of_mem_filter hs)).1
  · apply congrArg (List.map _)
    apply List.filter_congr
    intro s hs
    exact (hsource s (List.mem_of_mem_filter hs)).2

/-- Extraction gives every source what its own file yields, language by language in the order of
names. Neither the workers, nor the files without a grammar, nor how the languages interleave in
the manifest make a difference. -/
theorem extract_standard_eq_yields (t : FileTree) (parallel : Bool) (m : Manifest) :
    ∃ languages : List Language,
      languages.Pairwise (·.name < ·.name) ∧
      (∀ l, l ∈ languages ↔ ∃ s ∈ m.sources, s.language = l) ∧
      (standard.extract t parallel m).entries =
        languages.flatMap (fun l => (m.sources.filter (·.language = l)).flatMap (Source.yield t)) ∧
      (standard.extract t parallel m).skipped =
        languages.flatMap (fun l =>
          ((m.sources.filter (·.language = l)).filter (Source.isSkipped t)).map (·.path)) ∧
      ∀ (t' : FileTree) (parallel' : Bool) (m' : Manifest),
        (∀ s ∈ m.sources, s.language.grammar?.isSome → t'.readText s.path = t.readText s.path) →
        (∀ l, m'.filesOf l = m.filesOf l) →
        standard.extract t' parallel' m' = standard.extract t parallel m := by
  have hsorts := m.sorts_groups
  refine ⟨m.groups.map (·.language), List.pairwise_map.mpr hsorts.sorted, ?_, ?_, ?_, ?_⟩
  · intro l
    rw [hsorts.mem_languages, List.mem_map]
  · rw [extract_eq_concat, reportInTurn, Report.entries_concat, List.flatMap_map, List.flatMap_map]
    apply List.flatMap_congr
    intro g hg
    rw [reportGroup_standard t m g hg]
  · rw [extract_eq_concat, reportInTurn, Report.skipped_concat, List.flatMap_map, List.flatMap_map]
    apply List.flatMap_congr
    intro g hg
    rw [reportGroup_standard t m g hg]
  · intro t' parallel' m' hread hfiles
    rw [extract_eq_concat, extract_eq_concat, m.groups_eq_of_filesOf m' hfiles]
    apply congrArg Report.concat
    apply List.map_congr_left
    intro g hg
    exact reportGroup_congr t t' m g hg hread

end Registry

end ApiAtlas
