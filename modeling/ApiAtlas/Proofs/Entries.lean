import ApiAtlas.Proofs.Bullets
import ApiAtlas.Proofs.Containers
import ApiAtlas.Proofs.Edits

/-!
The one form of all entries. Whatever the language and the text, an entry tells the same things in
the same way: its members are bare names of word characters, which of them there can be follows from
its kind and its language, and a source has its types first and then at most one module. So a page
lists the members on one line each.
-/
namespace ApiAtlas

namespace Scan

structure IsWordName (name : List Char) : Prop where
  ne_nil : name ≠ []
  isWord : ∀ c ∈ name, Text.isWord c = true

namespace Header

variable {κ : Type} {h : Header κ}

theorem note_of_mem_hits {text : List Char} {hit : Hit κ} (hhit : hit ∈ h.hits text) :
    ∃ cs lead, (hit.note, lead) ∈ h.lead cs := by
  obtain ⟨⟨note, lead⟩, hlead, hread⟩ :=
    List.exists_of_findSome?_eq_some (readAt_of_mem_hits hhit).2
  obtain ⟨name, -, hread⟩ := List.exists_of_findSome?_eq_some hread
  obtain ⟨tail, -, heq⟩ := Option.map_eq_some_iff.mp hread
  obtain ⟨heq, -⟩ := Prod.mk.inj heq
  exact ⟨hit.text, lead, heq ▸ hlead⟩

theorem isWordName_of_mem_hits (hword : h.inName = Text.isWord) {text : List Char} {hit : Hit κ}
    (hhit : hit ∈ h.hits text) : IsWordName hit.name where
  ne_nil := (isRun_of_mem_hits hhit).ne_nil
  isWord := hword ▸ (isRun_of_mem_hits hhit).all

end Header

end Scan

open Scan (IsWordName)

structure Member.IsBare (m : Member) : Prop where
  name : IsWordName m.name.toList
  visibility : m.visibility = "public"
  parameters : m.parameters = []
  returns : m.returns = "unknown"
  summary : m.summary = ""

theorem Member.isBare_mk {name : List Char} (h : IsWordName name) (kind : MemberKind) :
    Member.IsBare { name := String.ofList name, kind := kind } where
  name := by rwa [String.toList_ofList]
  visibility := rfl
  parameters := rfl
  returns := rfl
  summary := rfl

/-- What holds of an entry in whatever language. -/
structure Entry.IsNormal (e : Entry) : Prop where
  summary : e.summary = ""
  kind : e.kind ≠ .unknown
  members : ∀ m ∈ e.members, m.IsBare
  stub_iff : e.kind = .file ↔ Registry.standard.has e.language = false
  stub_members : e.kind = .file → e.members = []
  module_members : e.kind = .module → e.members ≠ []
  type_members : e.kind = .type → e.members ≠ [] → e.language = .csharp ∨ e.language = .java
  method_language : ∀ m ∈ e.members, m.kind = .method →
    e.language = .csharp ∨ e.language = .java ∨ e.language = .go
  python_members : e.language = .python → ∀ m ∈ e.members, m.name.toList.head? ≠ some '_'
  python_types : e.language = .python → e.kind = .type →
    ∃ name, IsWordName name ∧ name.head? ≠ some '_' ∧
      e.container = e.file.stem ++ "." ++ String.ofList name
  go_members : e.language = .go → ∀ m ∈ e.members,
    ∃ c rest, m.name.toList = c :: rest ∧ Text.isUpper c = true

namespace Scan

theorem Qualified.isNormal_of_mem_scan {g : Qualified}
    (hlanguage : g.language = .csharp ∨ g.language = .java) (hword : g.method.inName = Text.isWord)
    {path : Path} {text : List Char} {e : Entry} (h : e ∈ g.scan path text) : e.IsNormal := by
  obtain ⟨hit, -, rfl⟩ := List.mem_map.mp h
  have hpython : g.language ≠ .python := by rcases hlanguage with h | h <;> simp [h]
  have hgo : g.language ≠ .go := by rcases hlanguage with h | h <;> simp [h]
  have hknown : Registry.standard.has g.language = true := by
    rcases hlanguage with h | h <;> rw [h] <;> rfl
  exact
    { summary := rfl
      kind := by simp
      members := by
        intro m hm
        obtain ⟨name, hname, rfl⟩ := List.mem_map.mp hm
        obtain ⟨method, hmethod, rfl⟩ := List.mem_map.mp hname
        exact Member.isBare_mk (Header.isWordName_of_mem_hits hword hmethod) .method
      stub_iff := by simp [hknown]
      stub_members := by simp
      module_members := by simp
      type_members := fun _ _ => hlanguage
      method_language := fun _ _ _ => or_assoc.mp (.inl hlanguage)
      python_members := fun hl => absurd hl hpython
      python_types := fun hl => absurd hl hpython
      go_members := fun hl => absurd hl hgo }

theorem mem_telling {kind : MemberKind} {r : Reading} {cs : List Char} {note : MemberKind × Taken}
    (h : note ∈ telling kind r cs) : note.1 = kind := by
  obtain ⟨taken, -, rfl⟩ := List.mem_map.mp h
  rfl

/-- What a language of modules has to bring along for its entries to be normal. -/
structure Module.IsRegular (g : Module) : Prop where
  known : Registry.standard.has g.language = true
  typeWord : ∀ h ∈ g.types, h.inName = Text.isWord
  functionWord : ∀ h ∈ g.functions, h.inName = Text.isWord
  functionLead : g.language ≠ .go → ∀ h ∈ g.functions, ∃ r, h.lead = telling .function r
  python : g.language = .python →
    g.typeTitle = dottedTitle ∧ ∀ name, g.isExported name = true → name.head? ≠ some '_'
  go : g.language = .go → ∀ name, g.isExported name = true → name.head?.any Text.isUpper = true

namespace Module

variable {g : Module} {path : Path} {text : List Char} {e : Entry}

theorem isNormal_of_mem_typeEntries (hg : g.IsRegular) (h : e ∈ g.typeEntries path text) :
    e.IsNormal := by
  obtain ⟨name, hname, rfl⟩ := List.mem_map.mp h
  obtain ⟨hname, hexported⟩ := List.mem_filter.mp hname
  obtain ⟨header, hheader, hname⟩ := List.mem_flatMap.mp hname
  obtain ⟨hit, hhit, rfl⟩ := List.mem_map.mp hname
  have hword := Header.isWordName_of_mem_hits (hg.typeWord header hheader) hhit
  exact
    { summary := rfl
      kind := by simp
      members := by simp
      stub_iff := by simp [hg.known]
      stub_members := by simp
      module_members := by simp
      type_members := by simp
      method_language := by simp
      python_members := by simp
      python_types := by
        intro hl _
        refine ⟨hit.name, hword, (hg.python hl).2 _ hexported, ?_⟩
        rw [(hg.python hl).1]
        rfl
      go_members := by simp }

theorem exists_hit_of_mem_members {m : Member} (h : m ∈ g.members text) :
    ∃ header ∈ g.functions, ∃ hit ∈ header.hits text, g.isExported hit.name = true ∧
      m = { name := String.ofList hit.name, kind := hit.note } := by
  obtain ⟨hit, hhit, rfl⟩ := List.mem_map.mp h
  obtain ⟨hhit, hexported⟩ := List.mem_filter.mp hhit
  obtain ⟨header, hheader, hhit⟩ := List.mem_flatMap.mp hhit
  exact ⟨header, hheader, hit, hhit, hexported, rfl⟩

theorem isNormal_of_mem_moduleEntry (hg : g.IsRegular)
    (h : e ∈ g.moduleEntry path (g.members text)) : e.IsNormal := by
  unfold moduleEntry at h
  split at h
  · cases h
  · rename_i hne
    rw [List.mem_singleton.mp h]
    exact
      { summary := rfl
        kind := by simp
        members := by
          intro m hm
          obtain ⟨header, hheader, hit, hhit, -, rfl⟩ := exists_hit_of_mem_members hm
          exact Member.isBare_mk
            (Header.isWordName_of_mem_hits (hg.functionWord header hheader) hhit) hit.note
        stub_iff := by simp [hg.known]
        stub_members := by simp
        module_members := by simpa using hne
        type_members := by simp
        method_language := by
          intro m hm hmethod
          by_contra hother
          obtain ⟨header, hheader, hit, hhit, -, rfl⟩ := exists_hit_of_mem_members hm
          obtain ⟨cs, lead, hlead⟩ := Header.note_of_mem_hits hhit
          have hgo : g.language ≠ .go := fun hl => hother (.inr (.inr hl))
          obtain ⟨r, hr⟩ := hg.functionLead hgo header hheader
          have hfunction : hit.note = .function := mem_telling (hr ▸ hlead)
          exact absurd (hfunction.symm.trans hmethod) (by decide)
        python_members := by
          intro hl m hm
          obtain ⟨header, -, hit, -, hexported, rfl⟩ := exists_hit_of_mem_members hm
          rw [String.toList_ofList]
          exact (hg.python hl).2 _ hexported
        python_types := by simp
        go_members := by
          intro hl m hm
          obtain ⟨header, -, hit, -, hexported, rfl⟩ := exists_hit_of_mem_members hm
          obtain ⟨c, hc, hupper⟩ := (Option.any_eq_true _ _).mp (hg.go hl _ hexported)
          obtain ⟨rest, hrest⟩ := List.head?_eq_some_iff.mp hc
          exact ⟨c, rest, by rw [String.toList_ofList, hrest], hupper⟩ }

end Module

theorem isRegular_go : go.IsRegular where
  known := rfl
  typeWord := by simp [go]
  functionWord := by simp [go]
  functionLead := fun hl => absurd rfl hl
  python := by simp [go]
  go := fun _ _ h => h

theorem isRegular_javascript : javascript.IsRegular where
  known := rfl
  typeWord := by simp [javascript]
  functionWord := by simp [javascript]
  functionLead _ := List.forall_mem_cons.mpr ⟨⟨_, rfl⟩, List.forall_mem_singleton.mpr ⟨_, rfl⟩⟩
  python := by simp [javascript]
  go := by simp [javascript]

theorem isRegular_typescript : typescript.IsRegular where
  known := rfl
  typeWord := by simp [typescript]
  functionWord := by simp [typescript]
  functionLead _ := List.forall_mem_singleton.mpr ⟨_, rfl⟩
  python := by simp [typescript]
  go := by simp [typescript]

theorem isRegular_python : python.IsRegular where
  known := rfl
  typeWord := by simp [python]
  functionWord := by simp [python]
  functionLead _ := List.forall_mem_singleton.mpr ⟨_, rfl⟩
  python _ := ⟨rfl, fun _ h => of_decide_eq_true h⟩
  go := by simp [python]

theorem isRegular_rust : rust.IsRegular where
  known := rfl
  typeWord := by simp [rust]
  functionWord := by simp [rust]
  functionLead _ := List.forall_mem_singleton.mpr ⟨_, rfl⟩
  python := by simp [rust]
  go := by simp [rust]

end Scan

/-- Types first, and at most one module, which stands behind them. -/
structure Entry.Arranged (entries : List Entry) : Prop where
  modules : entries.countP (·.kind = .module) ≤ 1
  typesFirst : entries.Pairwise fun a b => a.kind = .module → b.kind ≠ .type

theorem Entry.arranged_append {types : List Entry} (htypes : ∀ e ∈ types, e.kind = .type)
    (last : List Entry) (hlast : last.length ≤ 1) : Entry.Arranged (types ++ last) where
  modules := by
    have hnone : types.countP (·.kind = .module) = 0 := by
      rw [List.countP_eq_zero]
      intro e he
      simp [htypes e he]
    have hle := List.countP_le_length (p := fun e : Entry => decide (e.kind = .module)) (l := last)
    rw [List.countP_append]
    omega
  typesFirst := by
    refine List.pairwise_append.mpr ⟨?_, ?_, ?_⟩
    · refine List.pairwise_of_forall_mem_list ?_
      intro a ha b hb hmodule
      simp [htypes a ha] at hmodule
    · match last, hlast with
      | [], _ => exact List.Pairwise.nil
      | [e], _ => exact List.pairwise_singleton _ e
    · intro a ha b hb hmodule
      simp [htypes a ha] at hmodule

namespace Grammar

variable {l : Language} {g : Grammar} {path : Path} {text : List Char} {e : Entry}

theorem language_of_grammar? (hg : l.grammar? = some g) : g.language = l := by
  cases l <;> cases hg <;> rfl

theorem language_of_mem_scan (h : e ∈ g.scan path text) : e.language = g.language := by
  cases g with
  | qualified g =>
    obtain ⟨hit, -, rfl⟩ := List.mem_map.mp h
    rfl
  | module g =>
    rcases List.mem_append.mp h with htype | hmodule
    · obtain ⟨name, -, rfl⟩ := List.mem_map.mp htype
      rfl
    · unfold Scan.Module.moduleEntry at hmodule
      split at hmodule
      · cases hmodule
      · rw [List.mem_singleton.mp hmodule]
        rfl

theorem isNormal_of_mem_scan (hg : l.grammar? = some g) (h : e ∈ g.scan path text) :
    e.IsNormal := by
  have hmodule {m : Scan.Module} (hm : m.IsRegular) (he : e ∈ m.scan path text) : e.IsNormal := by
    rcases List.mem_append.mp he with htype | hmodule
    · exact Scan.Module.isNormal_of_mem_typeEntries hm htype
    · exact Scan.Module.isNormal_of_mem_moduleEntry hm hmodule
  cases l with
  | csharp =>
    cases hg
    exact Scan.Qualified.isNormal_of_mem_scan (.inl rfl) rfl h
  | java =>
    cases hg
    exact Scan.Qualified.isNormal_of_mem_scan (.inr rfl) rfl h
  | typescript =>
    cases hg
    exact hmodule Scan.isRegular_typescript h
  | javascript =>
    cases hg
    exact hmodule Scan.isRegular_javascript h
  | python =>
    cases hg
    exact hmodule Scan.isRegular_python h
  | go =>
    cases hg
    exact hmodule Scan.isRegular_go h
  | rust =>
    cases hg
    exact hmodule Scan.isRegular_rust h
  | cpp | c | kotlin | swift | ruby | php | unknown => cases hg

theorem arranged_scan (g : Grammar) (path : Path) (text : List Char) :
    Entry.Arranged (g.scan path text) := by
  cases g with
  | qualified g =>
    have htypes : ∀ e ∈ g.scan path text, e.kind = .type := by
      intro e he
      obtain ⟨hit, -, rfl⟩ := List.mem_map.mp he
      rfl
    have harranged := Entry.arranged_append htypes [] (by simp)
    rwa [List.append_nil] at harranged
  | module g =>
    apply Entry.arranged_append
    · intro e he
      obtain ⟨name, -, rfl⟩ := List.mem_map.mp he
      rfl
    · unfold Scan.Module.moduleEntry
      split <;> simp

end Grammar

namespace Source

variable {t : FileTree} {s : Source} {e : Entry}

theorem language_of_mem_yield (h : e ∈ s.yield t) : e.language = s.language := by
  unfold yield at h
  split at h
  · rename_i g hg
    split at h
    · rw [Grammar.language_of_mem_scan h, Grammar.language_of_grammar? hg]
    · cases h
  · rw [List.mem_singleton.mp h]

theorem isNormal_of_mem_yield (h : e ∈ s.yield t) : e.IsNormal := by
  unfold yield at h
  split at h
  · rename_i g hg
    split at h
    · exact Grammar.isNormal_of_mem_scan hg h
    · cases h
  · rename_i hnone
    have hstub : Registry.standard.has s.language = false := by
      rw [Registry.has_standard, hnone]
      rfl
    have hother {l : Language} (hl : Registry.standard.has l = true) : s.language ≠ l := by
      rintro rfl
      rw [hl] at hstub
      cases hstub
    rw [List.mem_singleton.mp h]
    exact
      { summary := rfl
        kind := by simp
        members := by simp
        stub_iff := by simp [hstub]
        stub_members := by simp
        module_members := by simp
        type_members := by simp
        method_language := by simp
        python_members := by simp
        python_types := fun hl => absurd hl (hother rfl)
        go_members := by simp }

theorem arranged_yield (t : FileTree) (s : Source) : Entry.Arranged (s.yield t) := by
  unfold yield
  split
  · split
    · exact Grammar.arranged_scan _ _ _
    · exact Entry.arranged_append (List.forall_mem_nil _) [] (by simp)
  · exact Entry.arranged_append (List.forall_mem_nil _) [_] (by simp)

end Source

def Group.sources (g : Group) : List Source := g.files.map (⟨·, g.language⟩)

theorem Group.perm_sources_insert (s : Source) (groups : List Group) :
    ((insert s groups).flatMap sources).Perm (groups.flatMap sources ++ [s]) := by
  induction groups with
  | nil => exact List.Perm.refl [s]
  | cons g groups ih =>
    unfold insert
    split
    · exact (List.perm_append_singleton s _).symm
    · split
      · rename_i _ hname
        have hsource : (⟨s.path, g.language⟩ : Source) = s := by
          rw [← Language.name_injective hname]
        simp only [List.flatMap_cons, sources, List.map_append, List.map_cons, List.map_nil,
          hsource]
        rw [List.append_assoc, List.append_assoc]
        exact List.perm_append_comm.append_left _
      · rw [List.flatMap_cons, List.flatMap_cons, List.append_assoc]
        exact ih.append_left g.sources

theorem Manifest.perm_sources (m : Manifest) :
    (m.groups.flatMap Group.sources).Perm m.sources := by
  unfold groups
  induction m.sources using List.reverseRecOn with
  | nil => exact List.Perm.refl []
  | append_singleton sources s ih =>
    rw [List.foldl_append]
    exact (Group.perm_sources_insert s _).trans (ih.append_right [s])

theorem Registry.entries_extract_standard (t : FileTree) (parallel : Bool) (m : Manifest) :
    (standard.extract t parallel m).entries =
      (m.groups.flatMap Group.sources).flatMap (Source.yield t) := by
  rw [extract_eq_concat, reportInTurn, Report.entries_concat, List.flatMap_map, List.flatMap_assoc]
  apply List.flatMap_congr
  intro g _
  have hfiles : g.files = g.sources.map (·.path) := by
    rw [Group.sources, List.map_map]
    exact (List.map_id g.files).symm
  unfold reportGroup
  rw [hfiles, Source.report_resolve t g.language g.sources]
  intro s hs
  obtain ⟨path, -, rfl⟩ := List.mem_map.mp hs
  rfl

namespace Member

theorem IsBare.isUnbroken {m : Member} (h : m.IsBare) : m.IsUnbroken where
  name hmem := absurd (h.name.isWord _ hmem) (by decide)
  summary := by simp [h.summary]

theorem IsBare.bullet_eq_line {m : Member} (h : m.IsBare) : m.bullet = m.line :=
  (Listed.silent (by simp [h.summary])).eq_bullet.symm

theorem splitOn_bullets {members : List Member} (h : ∀ m ∈ members, m.IsBare)
    (hne : members ≠ []) : (bullets members).splitOn '\n' = members.map line := by
  rw [lines_bullets hne fun m hm => (h m hm).isUnbroken]
  exact List.map_congr_left fun m hm => (h m hm).bullet_eq_line

end Member

/-- The one form of all entries a manifest gives. Each is of a listed source and normal, and its
page says that there are no members or lists them line by line. The sources are gone through one by
one, as often as they are listed, and each gives its types before its module. -/
theorem Registry.isNormal_extract_standard (t : FileTree) (parallel : Bool) (m : Manifest) :
    (∀ e ∈ (standard.extract t parallel m).entries,
      (⟨e.file, e.language⟩ : Source) ∈ m.sources ∧ e.IsNormal ∧
      (e.members = [] ∧ Template.value e .members = "_No public members detected._".toList ∨
        e.members ≠ [] ∧ (Template.value e .members).splitOn '\n' = e.members.map Member.line)) ∧
    ∃ processed : List Source, processed.Perm m.sources ∧
      (standard.extract t parallel m).entries = processed.flatMap (Source.yield t) ∧
      ∀ s ∈ processed, Entry.Arranged (s.yield t) ∧
        ∀ e ∈ s.yield t, e.file = s.path ∧ e.language = s.language := by
  have hentries := entries_extract_standard t parallel m
  have hperm := m.perm_sources
  refine ⟨?_, m.groups.flatMap Group.sources, hperm, hentries, ?_⟩
  · intro e he
    rw [hentries] at he
    obtain ⟨s, hs, he⟩ := List.mem_flatMap.mp he
    have hnormal := Source.isNormal_of_mem_yield he
    refine ⟨?_, hnormal, ?_⟩
    · rw [Source.file_of_mem_yield he, Source.language_of_mem_yield he]
      exact hperm.mem_iff.mp hs
    · by_cases hmembers : e.members = []
      · refine .inl ⟨hmembers, ?_⟩
        rw [Template.value, hmembers]
        rfl
      · exact .inr ⟨hmembers, Member.splitOn_bullets hnormal.members hmembers⟩
  · intro s _
    refine ⟨Source.arranged_yield t s, ?_⟩
    intro e he
    exact ⟨Source.file_of_mem_yield he, Source.language_of_mem_yield he⟩

end ApiAtlas
