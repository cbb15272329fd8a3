import ApiAtlas.Proofs.Scan.Classes
import Mathlib.Data.List.Forall2

/-!
The members of classes. Methods are looked for from each class header on, and no method reaches over
a class header, so a later class has the last of the methods of an earlier one. A class header itself
is taken for a method where a parenthesis stands behind it, and then the class is listed as its own
member.
-/
namespace ApiAtlas.Scan

open Text (isBlank isWord)

def Hit.member (hit : Hit Unit) : Member := { name := String.ofList hit.name, kind := .method }

namespace Qualified

theorem methods_eq (g : Qualified) (text : List Char) :
    g.methods text = (g.method.hits text).map Hit.member := by
  rw [methods, Header.names, List.map_map]
  rfl

def classes (g : Qualified) (path : Path) (text : List Char) : List (Hit Unit × Entry) :=
  (g.classHeader.hits text).zip (g.scan path text)

/-- A class has the methods from its header on, and those of a later class are the last of them. -/
structure NestsMembers (g : Qualified) (path : Path) (text : List Char) : Prop where
  perHeader : List.Forall₂
    (fun header entry =>
      entry.container = container ((g.scope.names text).headD []) header.name ∧
      entry.members = (g.method.hits (text.drop (header.start text))).map Hit.member)
    (g.classHeader.hits text) (g.scan path text)
  inOrder : (g.classHeader.hits text).Pairwise fun first later =>
    first.start text < later.start text
  nested : ∀ first ∈ g.classes path text, ∀ later ∈ g.classes path text,
    first.1.start text < later.1.start text →
    later.2.members <:+ first.2.members ∧
    first.2.members =
      ((g.method.hits first.1.text).filter (·.start text < later.1.start text)).map Hit.member ++
        later.2.members
  /-- Starting again at a later class header finds the methods behind it that were found before. -/
  again : ∀ first ∈ g.classHeader.hits text, ∀ later ∈ g.classHeader.hits text,
    first.start text < later.start text →
    g.method.hits later.text =
      (g.method.hits first.text).filter (later.start text ≤ ·.start text)

section

variable {g : Qualified} {words : List String} {between : List Char → Prop} {isType : Char → Bool}
  (hg : g.Declares words between isType) {text : List Char} {first header later : Hit Unit}

theorem suffix_of_start_lt (hfirst : first ∈ g.classHeader.hits text)
    (hlater : later ∈ g.classHeader.hits text) (hlt : first.start text < later.start text) :
    later.text <:+ first.text := by
  have hin := (Header.readAt_of_mem_hits hfirst).1
  have hin' := (Header.readAt_of_mem_hits hlater).1
  have hless := (Hit.start_lt_iff hin.length_le hin'.length_le).mp hlt
  exact List.suffix_of_suffix_length_le hin' hin (Nat.le_of_lt hless)

theorem members_of_mem_classes {path : Path} {entry : Entry}
    (h : (header, entry) ∈ g.classes path text) :
    header ∈ g.classHeader.hits text ∧
      entry.members = (g.method.hits header.text).map Hit.member := by
  simp only [classes, scan] at h
  rw [← List.map_prod_left_eq_zip, List.mem_map] at h
  obtain ⟨hit, hhit, heq⟩ := h
  obtain ⟨rfl, rfl⟩ := Prod.mk.inj heq
  exact ⟨hhit, methods_eq g hit.text⟩

include hg

theorem Declares.parted (hfirst : first ∈ g.classHeader.hits text)
    (hlater : later ∈ g.classHeader.hits text) (hlt : first.start text < later.start text) :
    (g.method.hits first.text).filter (later.start text ≤ ·.start text) =
        g.method.hits later.text ∧
      (g.method.hits first.text).filter (·.start text < later.start text) ++
        g.method.hits later.text = g.method.hits first.text := by
  obtain ⟨hsuffix, hread⟩ := Header.readAt_of_mem_hits hlater
  obtain ⟨front, htext⟩ := suffix_of_start_lt hfirst hlater hlt
  have hparted := Header.hits_append hg.lineStart (hg.clear hread front)
  rw [htext] at hparted
  have hle := hsuffix.length_le
  have hinside (m : Hit Unit) (hm : m ∈ g.method.hits first.text) :
      m.text.length ≤ text.length :=
    ((Header.readAt_of_mem_hits hm).1.trans (Header.readAt_of_mem_hits hfirst).1).length_le
  have hbehind : (g.method.hits first.text).filter (later.start text ≤ ·.start text) =
      (g.method.hits first.text).filter (·.text.length ≤ later.text.length) :=
    List.filter_congr fun m hm => decide_eq_decide.mpr (Hit.start_le_iff hle (hinside m hm))
  have hbefore : (g.method.hits first.text).filter (·.start text < later.start text) =
      (g.method.hits first.text).filter (later.text.length < ·.text.length) :=
    List.filter_congr fun m hm => decide_eq_decide.mpr (Hit.start_lt_iff (hinside m hm) hle)
  rw [hbehind, hbefore]
  exact hparted

theorem Declares.nestsMembers (path : Path) (text : List Char) : g.NestsMembers path text where
  perHeader := by
    simp only [scan]
    rw [List.forall₂_map_right_iff, List.forall₂_same]
    intro header hheader
    rw [methods_eq, ← Header.drop_start hheader]
    exact ⟨rfl, rfl⟩
  inOrder := Header.pairwise_start text
  nested := by
    intro first hfirst later hlater hlt
    obtain ⟨hfirst, hmembers⟩ := members_of_mem_classes hfirst
    obtain ⟨hlater, hmembers'⟩ := members_of_mem_classes hlater
    have hall := congrArg (List.map Hit.member) (hg.parted hfirst hlater hlt).2
    rw [List.map_append, ← hmembers, ← hmembers'] at hall
    exact ⟨⟨_, hall⟩, hall.symm⟩
  again first hfirst later hlater hlt := (hg.parted hfirst hlater hlt).1.symm

end

/-- In both languages the members of a later class are the last of those of an earlier one. -/
theorem nestsMembers_csharp_java (path : Path) (text : List Char) :
    csharp.NestsMembers path text ∧ java.NestsMembers path text :=
  ⟨declares_csharp.nestsMembers path text, declares_java.nestsMembers path text⟩

def memberHits (g : Qualified) (text : List Char) : List (Hit Unit) :=
  (g.classHeader.hits text).flatMap fun header => g.method.hits header.text

/-- A method and a class header have a stretch of the text in common. -/
def Overlaps (g : Qualified) (text : List Char) (header m : Hit Unit) : Prop :=
  header.start text < m.start text + g.method.extent m ∧
    m.start text < header.start text + g.classHeader.extent header

def behind (g : Qualified) (header : Hit Unit) : List Char :=
  header.text.drop (g.classHeader.extent header)

def OpensParen (g : Qualified) (header : Hit Unit) : Prop :=
  (Text.trimLeft (g.behind header)).head? = some '('

/-- The name of a class ends in the word for what is public, and with that a method begins. -/
def EndsInMethod (g : Qualified) (header : Hit Unit) : Prop :=
  "public".toList <:+ header.name ∧ (g.method.readAt ("public".toList ++ g.behind header)).isSome

theorem members_scan (g : Qualified) (path : Path) (text : List Char) :
    (g.scan path text).flatMap (·.members) = (g.memberHits text).map Hit.member := by
  simp only [scan, memberHits, List.flatMap_map, List.map_flatMap, methods_eq]

theorem opensParen_iff {g : Qualified} {header : Hit Unit} :
    g.OpensParen header ↔
      ∃ gap rest, (∀ c ∈ gap, isBlank c = true) ∧ g.behind header = gap ++ '(' :: rest := by
  unfold OpensParen Text.trimLeft
  constructor
  · intro h
    obtain ⟨rest, hrest⟩ := List.head?_eq_some_iff.mp h
    refine ⟨(g.behind header).takeWhile isBlank, rest, ?_, ?_⟩
    · exact List.all_eq_true.mp List.all_takeWhile
    · rw [← hrest, List.takeWhile_append_dropWhile]
  · rintro ⟨gap, rest, hgap, hbehind⟩
    have hparen : isBlank '(' = false := by decide
    rw [hbehind, List.dropWhile_append_of_pos hgap, List.dropWhile_cons, hparen]
    rfl

section

variable {g : Qualified} {words : List String} {between : List Char → Prop} {isType : Char → Bool}
  (hg : g.Declares words between isType) {text : List Char} {header m : Hit Unit}

include hg

theorem Declares.mem_hits_of_isSome {cs : List Char} (h : (g.method.readAt cs).isSome) :
    ∃ m ∈ g.method.hits cs, m.text = cs := by
  obtain ⟨⟨m, size⟩, hread⟩ := Option.isSome_iff_exists.mp h
  obtain ⟨rest, hmethod, -⟩ := hg.methodAt hread
  obtain ⟨c, cs, rfl⟩ := List.exists_cons_of_length_pos (Nat.zero_lt_of_lt hmethod.length_lt)
  refine ⟨m, ?_, Header.text_of_readAt hread⟩
  rw [Header.hits, Header.hitsFrom_of_some hg.lineStart hread]
  exact List.mem_cons_self

theorem Declares.classAt_behind (hheader : header ∈ g.classHeader.hits text) :
    ClassAt words header.name (g.behind header) header.text ∧
      header.text.length = g.classHeader.extent header + (g.behind header).length := by
  obtain ⟨rest, hclass, hlength⟩ := hg.classAt (Header.readAt_of_mem_hits hheader).2
  have hsuffix := (List.suffix_append header.name rest).trans hclass.suffix
  have hrest : g.behind header = rest := by
    rw [behind, List.suffix_iff_eq_drop.mp hsuffix, hlength, Nat.add_sub_cancel]
  rw [hrest]
  exact ⟨hclass, hlength⟩

/-- A method that overlaps a class header starts with it and has its name, or starts with the end
of its name. -/
theorem Declares.overlap_cases (hheader : header ∈ g.classHeader.hits text)
    (hm : m ∈ g.memberHits text) (h : g.Overlaps text header m) :
    m.text = header.text ∧ m.name = header.name ∧ g.OpensParen header ∨
      m.text = "public".toList ++ g.behind header ∧ g.EndsInMethod header := by
  obtain ⟨first, hfirst, hm⟩ := List.mem_flatMap.mp hm
  obtain ⟨hsuffix, hread⟩ := Header.readAt_of_mem_hits hm
  have hsuffix := hsuffix.trans (Header.readAt_of_mem_hits hfirst).1
  have hsuffix' := (Header.readAt_of_mem_hits hheader).1
  obtain ⟨hclass, hlength'⟩ := hg.classAt_behind hheader
  obtain ⟨rest, hmethod, hlength⟩ := hg.methodAt hread
  obtain ⟨hover, hover'⟩ := h
  have hle := hsuffix.length_le
  have hle' := hsuffix'.length_le
  unfold Hit.start at hover hover'
  by_cases hsame : m.text = header.text
  · rw [hsame] at hmethod
    obtain ⟨hname, gap, hgap, hbehind⟩ := hmethod.class_same hg.isModifier hg.shape hclass
    exact .inl ⟨hsame, hname, opensParen_iff.mpr ⟨gap, rest, hgap, hbehind⟩⟩
  · rcases List.suffix_or_suffix_of_suffix hsuffix hsuffix' with hinside | houtside
    · rcases hmethod.class_before hg.isModifier hclass hinside hsame with hbehind | ⟨hname, heq⟩
      · have hshort := hbehind.length_le
        omega
      · refine .inr ⟨heq, hname, ?_⟩
        rw [← heq, hread]
        rfl
    · have hbehind := hmethod.class_behind hg.isModifier hg.shape hclass houtside (Ne.symm hsame)
      have hshort := hbehind.length_le
      omega

theorem Declares.overlaps_of_mem (hheader : header ∈ g.classHeader.hits text)
    (hm : m ∈ g.method.hits header.text) (hlong : (g.behind header).length < m.text.length) :
    ∃ m ∈ g.memberHits text, g.Overlaps text header m := by
  obtain ⟨hsuffix, hread⟩ := Header.readAt_of_mem_hits hm
  obtain ⟨-, hlength'⟩ := hg.classAt_behind hheader
  obtain ⟨rest, hmethod, hlength⟩ := hg.methodAt hread
  have hpos := hmethod.length_lt
  have hle := hsuffix.length_le
  have hle' := (Header.readAt_of_mem_hits hheader).1.length_le
  refine ⟨m, List.mem_flatMap.mpr ⟨header, hheader, hm⟩, ?_⟩
  unfold Overlaps Hit.start
  omega

theorem Declares.exists_of_opensParen (hheader : header ∈ g.classHeader.hits text)
    (h : g.OpensParen header) :
    ∃ m ∈ g.method.hits header.text, m.text = header.text ∧ m.name = header.name := by
  obtain ⟨gap, rest, hgap, hbehind⟩ := opensParen_iff.mp h
  have hclass := (hg.classAt_behind hheader).1
  have hmethod := hclass.methodAt hg.shape hg.between_of_modifiers hgap hbehind
  obtain ⟨m, hm, htext⟩ := hg.mem_hits_of_isSome (hg.isSome_readAt hmethod)
  obtain ⟨rest', hmethod', -⟩ := hg.methodAt (Header.readAt_of_mem_hits hm).2
  rw [htext] at hmethod'
  exact ⟨m, hm, htext, (hmethod'.class_same hg.isModifier hg.shape hclass).1⟩

theorem Declares.exists_of_endsInMethod (hheader : header ∈ g.classHeader.hits text)
    (hparen : ¬g.OpensParen header) (h : g.EndsInMethod header) :
    ∃ m ∈ g.method.hits header.text, m.text = "public".toList ++ g.behind header := by
  obtain ⟨hname, hsome⟩ := h
  have hclass := (hg.classAt_behind hheader).1
  obtain ⟨front, hfront⟩ : "public".toList ++ g.behind header <:+ header.text := by
    obtain ⟨before, hbefore⟩ := hname
    refine List.IsSuffix.trans ⟨before, ?_⟩ hclass.suffix
    rw [← List.append_assoc, hbefore]
  have hclear : g.method.Clear front ("public".toList ++ g.behind header) := by
    intro here hhere hne hit size hread
    obtain ⟨rest, hmethod, -⟩ := hg.methodAt hread
    have hinside : here ++ ("public".toList ++ g.behind header) <:+ header.text := by
      rw [← hfront]
      exact List.suffix_append_self_iff.mpr hhere
    by_cases hsame : here ++ ("public".toList ++ g.behind header) = header.text
    · rw [hsame] at hmethod
      obtain ⟨-, gap, hgap, hbehind⟩ := hmethod.class_same hg.isModifier hg.shape hclass
      exact absurd (opensParen_iff.mpr ⟨gap, rest, hgap, hbehind⟩) hparen
    · rcases hmethod.class_before hg.isModifier hclass hinside hsame with hbehind | ⟨-, heq⟩
      · have hshort := hbehind.length_le
        have hpos : 0 < here.length := List.length_pos_iff.mpr hne
        simp only [List.length_append] at hshort
        omega
      · exact absurd (List.append_left_eq_self.mp heq) hne
  obtain ⟨m, hm, htext⟩ := hg.mem_hits_of_isSome hsome
  have hall := (Header.hits_append hg.lineStart hclear).2
  rw [hfront] at hall
  exact ⟨m, hall ▸ List.mem_append_right _ hm, htext⟩

theorem Declares.exists_overlap_iff (hheader : header ∈ g.classHeader.hits text) :
    (∃ m ∈ g.memberHits text, g.Overlaps text header m) ↔
      g.OpensParen header ∨ g.EndsInMethod header := by
  constructor
  · rintro ⟨m, hm, hover⟩
    exact (hg.overlap_cases hheader hm hover).imp (fun h => h.2.2) (fun h => h.2)
  · intro h
    by_cases hparen : g.OpensParen header
    · obtain ⟨m, hm, htext, -⟩ := hg.exists_of_opensParen hheader hparen
      have hlong := (hg.classAt_behind hheader).1.length_lt
      exact hg.overlaps_of_mem hheader hm (htext ▸ hlong)
    · obtain ⟨m, hm, htext⟩ := hg.exists_of_endsInMethod hheader hparen (h.resolve_left hparen)
      have hlong : (g.behind header).length < m.text.length := by
        rw [htext, List.length_append]
        exact Nat.lt_add_of_pos_left (by decide)
      exact hg.overlaps_of_mem hheader hm hlong

end

/-- No member comes from a method that overlaps a class header. -/
def KeepsApart (g : Qualified) (text : List Char) : Prop :=
  ∀ header ∈ g.classHeader.hits text, ∀ m ∈ g.memberHits text, ¬g.Overlaps text header m

/-- Methods and class headers are kept apart exactly where no parenthesis follows the name of a
class and no name of a class ends in the beginning of a method. With a parenthesis, the class is
listed as a method of its own. -/
theorem keepsApart_iff {g : Qualified} (hg : g = csharp ∨ g = java) (path : Path)
    (text : List Char) :
    (g.scan path text).flatMap (·.members) = (g.memberHits text).map Hit.member ∧
    (g.KeepsApart text ↔
      ∀ header ∈ g.classHeader.hits text, ¬g.OpensParen header ∧ ¬g.EndsInMethod header) ∧
    ∀ header ∈ g.classHeader.hits text,
      (g.OpensParen header → header.member ∈ g.methods header.text) ∧
      ∀ m ∈ g.memberHits text, g.Overlaps text header m →
        m.text = header.text ∧ m.name = header.name ∧ g.OpensParen header ∨
        m.text = "public".toList ++ g.behind header ∧ g.EndsInMethod header := by
  obtain ⟨words, between, isType, hdeclares⟩ :
      ∃ words between isType, g.Declares words between isType := by
    rcases hg with rfl | rfl
    · exact ⟨_, _, _, declares_csharp⟩
    · exact ⟨_, _, _, declares_java⟩
  refine ⟨members_scan g path text, ?_, fun header hheader => ⟨?_, ?_⟩⟩
  · refine forall₂_congr fun header hheader => ?_
    rw [← not_or, ← hdeclares.exists_overlap_iff hheader]
    simp only [not_exists, not_and]
  · intro hparen
    obtain ⟨m, hm, -, hname⟩ := hdeclares.exists_of_opensParen hheader hparen
    rw [methods_eq, List.mem_map]
    exact ⟨m, hm, by rw [Hit.member, hname]; rfl⟩
  · intro m hm
    exact hdeclares.overlap_cases hheader hm

theorem keepsApart_plain :
    java.KeepsApart "public class A \x7b public int f(".toList ∧
      java.methods "public class A \x7b public int f(".toList = [{ name := "f", kind := .method }] := by
  refine ⟨((keepsApart_iff (.inr rfl) (.ofString "A.java") _).2.1).mpr ?_, by decide⟩
  have hheaders : java.classHeader.hits "public class A \x7b public int f(".toList =
      [⟨(), ['A'], "public class A \x7b public int f(".toList⟩] := by rfl
  rw [hheaders, List.forall_mem_singleton]
  unfold OpensParen EndsInMethod behind
  decide

/-- A class with parameters behind its name is listed as a method of its own. -/
theorem not_keepsApart_parameters :
    ¬csharp.KeepsApart "public class A(int x);".toList ∧
      (csharp.scan (.ofString "a.cs") "public class A(int x);".toList).map (·.members) =
        [[{ name := "A", kind := .method }]] := by
  refine ⟨fun h => ?_, by decide⟩
  have hheaders : csharp.classHeader.hits "public class A(int x);".toList =
      [⟨(), ['A'], "public class A(int x);".toList⟩] := by rfl
  have hmethods : csharp.memberHits "public class A(int x);".toList =
      [⟨(), ['A'], "public class A(int x);".toList⟩] := by rfl
  unfold KeepsApart at h
  rw [hheaders, hmethods, List.forall_mem_singleton, List.forall_mem_singleton] at h
  exact h (by unfold Overlaps; decide)

end Qualified

end ApiAtlas.Scan
