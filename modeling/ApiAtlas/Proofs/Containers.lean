import ApiAtlas.Proofs.Extraction
import ApiAtlas.Proofs.PageNames
import ApiAtlas.Proofs.Scan.Hits
import ApiAtlas.Proofs.Scan.Reading

/-!
What characters the names of containers have. A scanner takes names made of word characters from the
text, and whatever else there is in a container's name comes from the path of its source. So a NUL
gets into a container, and from there into the name of a page, only from a path.
-/
namespace ApiAtlas

def nul : Char := '\x00'

namespace Path

theorem subset_joinSlash {part : Bytes} {parts : List Bytes} (h : part ∈ parts) :
    part ⊆ joinSlash parts := by
  induction parts with
  | nil => cases h
  | cons first rest ih =>
    cases rest with
    | nil =>
      rw [List.mem_singleton.mp h]
      exact List.Subset.refl first
    | cons next rest =>
      rw [joinSlash]
      · rcases List.mem_cons.mp h with rfl | h
        · exact List.subset_append_left part _
        · intro b hb
          exact List.mem_append_right first (List.mem_cons_of_mem slash (ih h hb))
      · exact List.cons_ne_nil next rest

theorem mem_joinSlash {b : UInt8} {parts : List Bytes} (h : b ∈ joinSlash parts) :
    b = slash ∨ ∃ part ∈ parts, b ∈ part := by
  induction parts with
  | nil => cases h
  | cons first rest ih =>
    cases rest with
    | nil => exact .inr ⟨first, List.mem_cons_self, h⟩
    | cons next rest =>
      rw [joinSlash] at h
      · rcases List.mem_append.mp h with hfirst | h
        · exact .inr ⟨first, List.mem_cons_self, hfirst⟩
        · rcases List.mem_cons.mp h with hslash | h
          · exact .inl hslash
          · rcases ih h with hslash | hrest
            · exact .inl hslash
            · obtain ⟨part, hpart, hb⟩ := hrest
              exact .inr ⟨part, List.mem_cons_of_mem first hpart, hb⟩
      · exact List.cons_ne_nil next rest

theorem subset_of_mem_parts {p : Path} {part : Bytes} (h : part ∈ p.parts) : part ⊆ p.bytes := by
  unfold parts dropVoidEnd at h
  have hsplit := List.mem_reverse.mp ((List.dropWhile_suffix _).subset (List.mem_reverse.mp h))
  have hpart := subset_joinSlash hsplit
  rw [joinSlash_splitSlash] at hpart
  exact List.Subset.trans hpart (List.drop_subset _ _)

theorem subset_of_fileName? {p : Path} {name : Bytes} (h : p.fileName? = some name) :
    name ⊆ p.bytes := by
  unfold fileName? at h
  split at h
  · rename_i last hlast
    split at h
    · cases h
    · rw [← Option.some.inj h]
      exact subset_of_mem_parts (List.mem_of_getLast? hlast)
  · cases h

theorem nul_notMem_lossyText {bs : Bytes} (h : 0 ∉ bs) : nul ∉ (lossyText bs).toList := by
  unfold lossyText Utf8.decodeLossy
  rw [String.toList_ofList]
  intro hmem
  obtain ⟨piece, hpiece, hchar⟩ := List.mem_map.mp hmem
  split at hchar
  · rename_i c
    rw [hchar] at hpiece
    exact h ((Utf8.infix_of_mem_pieces hpiece).subset (by decide))
  · exact absurd hchar (by decide)

section

variable {p : Path} (h : 0 ∉ p.bytes)
include h

theorem nul_notMem_baseName : nul ∉ p.baseName.toList := by
  unfold baseName
  split
  · rename_i name hname
    exact nul_notMem_lossyText fun hzero => h (subset_of_fileName? hname hzero)
  · exact nul_notMem_lossyText h

theorem nul_notMem_stem : nul ∉ p.stem.toList := by
  unfold stem
  split
  · rename_i name hname
    apply nul_notMem_lossyText
    intro hzero
    apply h (subset_of_fileName? hname _)
    unfold splitName at hzero
    simp only at hzero
    split at hzero
    · exact hzero
    · exact List.mem_of_mem_take hzero
  · exact nul_notMem_lossyText h

end

end Path

namespace Scan

namespace Header

variable {κ : Type} {h : Header κ}

theorem isRun_of_mem_hits {text : List Char} {hit : Hit κ} (hhit : hit ∈ h.hits text) :
    IsRun h.inName hit.name := by
  obtain ⟨⟨note, lead⟩, -, hread⟩ :=
    List.exists_of_findSome?_eq_some (readAt_of_mem_hits hhit).2
  obtain ⟨name, hname, hread⟩ := List.exists_of_findSome?_eq_some hread
  obtain ⟨tail, -, heq⟩ := Option.map_eq_some_iff.mp hread
  obtain ⟨heq, -⟩ := Prod.mk.inj heq
  rw [← heq]
  exact isRun_of_mem_some1 hname

theorem notMem_of_mem_names {c : Char} (hc : h.inName c = false) {text name : List Char}
    (hname : name ∈ h.names text) : c ∉ name := by
  obtain ⟨hit, hhit, rfl⟩ := List.mem_map.mp hname
  intro hmem
  have hin := (isRun_of_mem_hits hhit).all c hmem
  rw [hc] at hin
  cases hin

end Header

theorem Qualified.nul_notMem_container {g : Qualified} (hscope : g.scope.inName nul = false)
    (hclass : g.classHeader.inName nul = false) {path : Path} {text : List Char} {e : Entry}
    (h : e ∈ g.scan path text) : nul ∉ e.container.toList := by
  obtain ⟨hit, hhit, rfl⟩ := List.mem_map.mp h
  have hname : nul ∉ hit.name :=
    Header.notMem_of_mem_names hclass (List.mem_map_of_mem hhit)
  have hfirst : nul ∉ (g.scope.names text).headD [] := by
    cases hnames : g.scope.names text with
    | nil => exact List.not_mem_nil
    | cons first rest =>
      exact Header.notMem_of_mem_names hscope (hnames ▸ List.mem_cons_self)
  simp only [container]
  split
  · rwa [String.toList_ofList]
  · rw [String.toList_ofList, List.mem_append, List.mem_cons, not_or, not_or]
    exact ⟨hfirst, by decide, hname⟩

theorem Module.nul_notMem_container {g : Module} (htypes : ∀ h ∈ g.types, h.inName nul = false)
    {path : Path} (htitle : nul ∉ (g.title path).toList)
    (htypeTitle : ∀ name : String, nul ∉ name.toList → nul ∉ (g.typeTitle path name).toList)
    {text : List Char} {e : Entry} (h : e ∈ g.scan path text) : nul ∉ e.container.toList := by
  rcases List.mem_append.mp h with htype | hmodule
  · obtain ⟨name, hname, rfl⟩ := List.mem_map.mp htype
    obtain ⟨header, hheader, hname⟩ := List.mem_flatMap.mp (List.mem_of_mem_filter hname)
    apply htypeTitle
    rw [String.toList_ofList]
    exact Header.notMem_of_mem_names (htypes header hheader) hname
  · unfold moduleEntry at hmodule
    split at hmodule
    · cases hmodule
    · rw [List.mem_singleton.mp hmodule]
      exact htitle

theorem nul_notMem_dottedTitle {path : Path} (h : 0 ∉ path.bytes) {name : String}
    (hname : nul ∉ name.toList) : nul ∉ (dottedTitle path name).toList := by
  unfold dottedTitle
  rw [String.toList_append, String.toList_append, List.mem_append, List.mem_append, not_or, not_or]
  exact ⟨⟨Path.nul_notMem_stem h, by decide⟩, hname⟩

end Scan

theorem Grammar.nul_notMem_container {l : Language} {g : Grammar} (hg : l.grammar? = some g)
    {path : Path} (hpath : 0 ∉ path.bytes) {text : List Char} {e : Entry}
    (h : e ∈ g.scan path text) : nul ∉ e.container.toList := by
  have hword : Text.isWord nul = false := by decide
  have hdotted : Scan.isDotted nul = false := by decide
  have hbase := Path.nul_notMem_baseName hpath
  have hstem := Path.nul_notMem_stem hpath
  have hkept (name : String) (hname : nul ∉ name.toList) : nul ∉ name.toList := hname
  have hdottedTitle (name : String) (hname : nul ∉ name.toList) :
      nul ∉ (Scan.dottedTitle path name).toList := Scan.nul_notMem_dottedTitle hpath hname
  cases l with
  | csharp =>
    cases hg
    exact Scan.Qualified.nul_notMem_container hdotted hword h
  | java =>
    cases hg
    exact Scan.Qualified.nul_notMem_container hdotted hword h
  | typescript =>
    cases hg
    have htypes : ∀ h ∈ Scan.typescript.types, h.inName nul = false := by
      simpa [Scan.typescript] using hword
    exact Scan.Module.nul_notMem_container htypes hbase hkept h
  | javascript =>
    cases hg
    have htypes : ∀ h ∈ Scan.javascript.types, h.inName nul = false := by simp [Scan.javascript]
    exact Scan.Module.nul_notMem_container htypes hbase hkept h
  | go =>
    cases hg
    have htypes : ∀ h ∈ Scan.go.types, h.inName nul = false := by simp [Scan.go]
    exact Scan.Module.nul_notMem_container htypes hbase hkept h
  | python =>
    cases hg
    have htypes : ∀ h ∈ Scan.python.types, h.inName nul = false := by
      simpa [Scan.python] using hword
    exact Scan.Module.nul_notMem_container htypes hstem hdottedTitle h
  | rust =>
    cases hg
    have htypes : ∀ h ∈ Scan.rust.types, h.inName nul = false := by
      simpa [Scan.rust] using hword
    exact Scan.Module.nul_notMem_container htypes hstem hdottedTitle h
  | cpp | c | kotlin | swift | ruby | php | unknown => cases hg

theorem Source.nul_notMem_container {t : FileTree} {s : Source} (hpath : 0 ∉ s.path.bytes)
    {e : Entry} (h : e ∈ s.yield t) : nul ∉ e.container.toList := by
  unfold yield at h
  split at h
  · rename_i g hg
    split at h
    · exact Grammar.nul_notMem_container hg hpath h
    · cases h
  · rw [List.mem_singleton.mp h]
    exact Path.nul_notMem_baseName hpath

theorem Registry.exists_source_of_mem_entries {t : FileTree} {parallel : Bool} {m : Manifest}
    {e : Entry} (h : e ∈ (standard.extract t parallel m).entries) :
    ∃ s ∈ m.sources, e ∈ s.yield t := by
  rw [extract_eq_concat, reportInTurn, Report.entries_concat, List.flatMap_map] at h
  obtain ⟨g, hg, he⟩ := List.mem_flatMap.mp h
  rw [reportGroup_standard t m g hg] at he
  obtain ⟨s, hs, he⟩ := List.mem_flatMap.mp he
  exact ⟨s, List.mem_of_mem_filter hs, he⟩

theorem nul_notMem_fileBase {container : String} (h : nul ∉ container.toList) :
    nul ∉ (fileBase container).toList := by
  unfold fileBase
  rw [String.toList_ofList]
  intro hmem
  obtain ⟨c, hc, hnul⟩ := List.mem_map.mp hmem
  split at hnul
  · exact absurd hnul (by decide)
  · exact h (hnul ▸ hc)

theorem Collision.nul_notMem_pageName {policy : Collision} {origins : Origins}
    {entries : List Entry} (h : ∀ e ∈ entries, nul ∉ e.container.toList) {name : String}
    (hname : name ∈ policy.names origins.text entries) : 0 ∉ pageName name := by
  obtain ⟨e, he, taken, rfl⟩ := exists_nextName_of_mem_names hname
  refine notMem_pageName (by decide) (rfl : nul.toNat = 0) (by decide) fun hc => ?_
  rcases mem_nextName hc with hbase | hdash | halphanum
  · exact nul_notMem_fileBase (h e he) hbase
  · exact absurd hdash (by decide)
  · exact absurd halphanum (by decide)

end ApiAtlas
