import ApiAtlas.Proofs.Extraction
import ApiAtlas.Proofs.Scan.Hits
import ApiAtlas.Proofs.Scan.Returns
import ApiAtlas.Proofs.Utf8
import Mathlib

/-!
Line breaks. Every header is a lead that cannot begin inside a line break, a name without one, and a
tail that does not stop in one. So with a carriage return before every line feed the same headers
are found at the same places, and every grammar finds the same entries.
-/
namespace ApiAtlas

namespace Scan

open Text (crlf)

variable {r : Reading}

structure SteadyLead {κ : Type} (lead : List Char → List (κ × Taken)) : Prop where
  reads : ∃ leads, LeadReads lead leads
  steady : ∀ cs, ((lead (crlf cs)).map fun (note, taken) => (note, taken.rest)).filter
    (isWhole ·.2) = (lead cs).map fun (note, taken) => (note, crlf taken.rest)
  stuck : ∀ cs, ∀ taken ∈ lead ('\n' :: cs), isWhole taken.2.rest = false

theorem IsLead.steadyLead {κ : Type} (h : IsLead r) (note : κ) :
    SteadyLead fun cs => (r cs).map (note, ·) where
  reads := by
    obtain ⟨L, hL, -⟩ := h.reads
    exact ⟨_, hL.lead note⟩
  steady cs := by
    have hsteady : ((stops r (crlf cs)).map (note, ·)).filter (isWhole ·.2) =
        ((stops r cs).map crlf).map (note, ·) := by
      rw [← h.steady cs, List.filter_map]
      rfl
    simpa [stops, Function.comp_def] using hsteady
  stuck cs := by
    rw [h.refuses]
    exact List.forall_mem_nil _

theorem SteadyLead.append {κ : Type} {lead other : List Char → List (κ × Taken)}
    (h : SteadyLead lead) (h' : SteadyLead other) :
    SteadyLead fun cs => lead cs ++ other cs where
  reads := by
    obtain ⟨leads, hleads⟩ := h.reads
    obtain ⟨others, hothers⟩ := h'.reads
    exact ⟨_, hleads.append hothers⟩
  steady cs := by
    rw [List.map_append, List.filter_append, h.steady, h'.steady, List.map_append]
  stuck cs := List.forall_mem_append.mpr ⟨h.stuck cs, h'.stuck cs⟩

namespace Header

variable {κ : Type} {h : Header κ}

/-- What makes a header blind to returns. -/
structure Steady (h : Header κ) : Prop where
  lead : SteadyLead h.lead
  inName_return : h.inName '\r' = false
  inName_feed : h.inName '\n' = false
  tail : IsTail h.tail

theorem Steady.spells (hs : h.Steady) : ∃ leads tails, h.Spells leads tails := by
  obtain ⟨leads, hleads⟩ := hs.lead.reads
  obtain ⟨tails, htails⟩ := hs.tail.reads
  exact ⟨leads, tails, hleads, htails⟩

theorem Steady.of_word (hlead : SteadyLead h.lead) (hname : h.inName = Text.isWord)
    (htail : IsTail h.tail) : h.Steady where
  lead := hlead
  inName_return := by rw [hname]; decide
  inName_feed := by rw [hname]; decide
  tail := htail

def nameAt (h : Header κ) (cs : List Char) : Option (List Char × List Char) :=
  (some1 h.inName cs).findSome? fun name =>
    (stops h.tail name.rest).head?.map (cs.take name.size, ·)

/-- The preferred reading of a header, told by the text behind it. -/
def preferred (h : Header κ) (cs : List Char) : Option (κ × List Char × List Char) :=
  ((h.lead cs).map fun (note, lead) => (note, lead.rest)).findSome? fun (note, rest) =>
    (h.nameAt rest).map (note, ·)

theorem findSome?_congr {α β : Type} {l : List α} {f g : α → Option β} (h : ∀ x ∈ l, f x = g x) :
    l.findSome? f = l.findSome? g := by
  rw [← List.head?_filterMap, ← List.head?_filterMap, List.filterMap_congr h]

theorem nameAt_crlf (hs : h.Steady) (cs : List Char) :
    h.nameAt (crlf cs) = (h.nameAt cs).map fun (name, rest) => (name, crlf rest) := by
  unfold nameAt
  rw [some1_crlf hs.inName_return hs.inName_feed, List.findSome?_map, List.map_findSome?]
  apply findSome?_congr
  intro taken htaken
  obtain ⟨name, rest, hname, rfl, rfl⟩ := (reads_some1 h.inName _ _).mp htaken
  have hfeed : '\n' ∉ name := by
    intro hmem
    have hin := hname.all _ hmem
    rw [hs.inName_feed] at hin
    cases hin
  simp only [Function.comp_apply, Text.crlf_append, Text.crlf_eq_self hfeed, List.take_left,
    hs.tail.even rest, List.head?_map, Option.map_map]
  rfl

theorem nameAt_feed (hs : h.Steady) (cs : List Char) : h.nameAt ('\n' :: cs) = none := by
  unfold nameAt
  rw [refuses_some1 hs.inName_feed]
  rfl

theorem preferred_crlf (hs : h.Steady) (cs : List Char) :
    h.preferred (crlf cs) =
      (h.preferred cs).map fun (note, name, rest) => (note, name, crlf rest) := by
  have hcut (leads : List (κ × List Char)) :
      (leads.filter (isWhole ·.2)).findSome? (fun (note, rest) => (h.nameAt rest).map (note, ·)) =
        leads.findSome? fun (note, rest) => (h.nameAt rest).map (note, ·) := by
    rw [← List.head?_filterMap, ← List.head?_filterMap, List.filterMap_filter]
    congr 1
    apply List.filterMap_congr
    rintro ⟨note, rest⟩ -
    simp only
    split
    · rfl
    · rename_i hrest
      obtain ⟨x, rfl⟩ := eq_feed_of_isWhole (Bool.not_eq_true _ ▸ hrest)
      rw [nameAt_feed hs]
      rfl
  unfold preferred
  rw [← hcut, hs.lead.steady, List.findSome?_map, List.findSome?_map, List.map_findSome?]
  apply findSome?_congr
  rintro ⟨note, lead⟩ -
  simp only [Function.comp_apply, nameAt_crlf hs, Option.map_map]
  rfl

theorem preferred_feed (hs : h.Steady) (cs : List Char) : h.preferred ('\n' :: cs) = none := by
  unfold preferred
  rw [List.findSome?_map, List.findSome?_eq_none_iff]
  rintro ⟨note, lead⟩ hlead
  obtain ⟨x, hx⟩ := eq_feed_of_isWhole (hs.lead.stuck cs _ hlead)
  simp only at hx
  simp only [Function.comp_apply, hx, nameAt_feed hs, Option.map_none]

theorem readAt_eq (hs : h.Steady) (cs : List Char) :
    h.readAt cs = (h.preferred cs).map fun (note, name, rest) =>
      (⟨note, name, cs⟩, cs.length - rest.length) := by
  obtain ⟨leads, tails, hspells⟩ := hs.spells
  unfold readAt preferred nameAt
  rw [List.findSome?_map, List.map_findSome?]
  apply findSome?_congr
  rintro ⟨note, taken⟩ hlead
  obtain ⟨lead, after, -, rfl, rfl⟩ := (hspells.lead _ _ _).mp hlead
  simp only [Function.comp_apply]
  rw [List.map_findSome?, List.map_findSome?]
  apply findSome?_congr
  intro taken hname
  obtain ⟨name, behind, -, rfl, rfl⟩ := (reads_some1 h.inName _ _).mp hname
  unfold stops
  cases htail : (h.tail behind).head? with
  | none => simp [htail]
  | some taken =>
    obtain ⟨tail, rest, -, rfl, rfl⟩ := (hspells.tail _ _).mp (List.mem_of_head? htail)
    simp only [Function.comp_apply, htail, List.head?_map, Option.map_some, List.length_append]
    congr 2
    omega

theorem preferred_suffix (hs : h.Steady) {cs name rest : List Char} {note : κ}
    (hpreferred : h.preferred cs = some (note, name, rest)) :
    ∃ front, front ≠ [] ∧ cs = front ++ rest := by
  obtain ⟨leads, tails, hspells⟩ := hs.spells
  unfold preferred at hpreferred
  rw [List.findSome?_map] at hpreferred
  obtain ⟨⟨_, taken⟩, hlead, hname⟩ := List.exists_of_findSome?_eq_some hpreferred
  obtain ⟨lead, after, -, rfl, rfl⟩ := (hspells.lead _ _ _).mp hlead
  obtain ⟨_, hname, heq⟩ := Option.map_eq_some_iff.mp hname
  obtain ⟨-, rfl⟩ := Prod.mk.inj heq
  obtain ⟨_, hsome, htail⟩ := List.exists_of_findSome?_eq_some hname
  obtain ⟨name, behind, hrun, rfl, rfl⟩ := (reads_some1 h.inName _ _).mp hsome
  obtain ⟨_, hstop, heq⟩ := Option.map_eq_some_iff.mp htail
  obtain ⟨-, rfl⟩ := Prod.mk.inj heq
  obtain ⟨taken, htaken, rfl⟩ := List.mem_map.mp (List.mem_of_head? hstop)
  obtain ⟨tail, rest, -, rfl, rfl⟩ := (hspells.tail _ _).mp htaken
  exact ⟨lead ++ (name ++ tail), by simp [hrun.ne_nil], by simp [List.append_assoc]⟩

theorem readAt_crlf_none (hs : h.Steady) {cs : List Char} (hread : h.readAt cs = none) :
    h.readAt (crlf cs) = none := by
  rw [readAt_eq hs, Option.map_eq_none_iff] at hread
  rw [readAt_eq hs, preferred_crlf hs, hread]
  rfl

theorem readAt_crlf_some (hs : h.Steady) {cs : List Char} {hit : Hit κ} {size : Nat}
    (hread : h.readAt cs = some (hit, size)) :
    ∃ front rest, front ≠ [] ∧ cs = front ++ rest ∧ size = front.length ∧ hit.text = cs ∧
      h.readAt (crlf cs) = some (⟨hit.note, hit.name, crlf cs⟩, (crlf front).length) := by
  rw [readAt_eq hs, Option.map_eq_some_iff] at hread
  obtain ⟨⟨note, name, rest⟩, hpreferred, hhit⟩ := hread
  obtain ⟨rfl, rfl⟩ := Prod.mk.inj hhit
  obtain ⟨front, hfront, rfl⟩ := preferred_suffix hs hpreferred
  refine ⟨front, rest, hfront, rfl, by simp, rfl, ?_⟩
  rw [readAt_eq hs, preferred_crlf hs, hpreferred]
  simp

theorem readAt_feed (hs : h.Steady) (cs : List Char) : h.readAt ('\n' :: cs) = none := by
  rw [readAt_eq hs, preferred_feed hs]
  rfl

end Header

def Hit.crlf {κ : Type} (hit : Hit κ) : Hit κ := { hit with text := Text.crlf hit.text }

namespace Header

variable {κ : Type} {h : Header κ}

/-- Scanning goes along both texts at once; what belongs to the hit before is as much of the one as
of the other. -/
theorem hitsFrom_crlf (hs : h.Steady) (skip : Nat) (atLineStart : Bool) (cs : List Char) :
    h.hitsFrom (crlf (cs.take skip)).length atLineStart (crlf cs) =
      (h.hitsFrom skip atLineStart cs).map Hit.crlf := by
  induction cs generalizing skip atLineStart with
  | nil => rfl
  | cons c cs ih =>
    cases skip with
    | succ n =>
      rw [List.take_succ_cons, hitsFrom_succ]
      by_cases hc : c = '\n'
      · subst hc
        exact ih n true
      · rw [Text.crlf_cons hc, Text.crlf_cons hc, List.length_cons, hitsFrom_succ]
        exact ih n _
    | zero =>
      rw [List.take_zero, Text.crlf_nil, List.length_nil]
      by_cases hc : c = '\n'
      · subst hc
        have hnone := readAt_feed hs cs
        have hreturn : h.readAt ('\r' :: '\n' :: crlf cs) = none := readAt_crlf_none hs hnone
        rw [hitsFrom_of_none hnone, Text.crlf_feed, hitsFrom_of_none hreturn,
          hitsFrom_of_none (readAt_feed hs (crlf cs))]
        exact ih 0 true
      · cases hread : h.readAt (c :: cs) with
        | none =>
          have hreturn := readAt_crlf_none hs hread
          rw [Text.crlf_cons hc] at hreturn ⊢
          rw [hitsFrom_of_none hread, hitsFrom_of_none hreturn]
          exact ih 0 _
        | some found =>
          obtain ⟨hit, size⟩ := found
          obtain ⟨front, rest, hfront, hcs, rfl, htext, hreturn⟩ := readAt_crlf_some hs hread
          obtain ⟨d, front, rfl⟩ := List.exists_cons_of_ne_nil hfront
          obtain ⟨rfl, rfl⟩ := List.cons.inj hcs
          rw [Text.crlf_cons hc] at hreturn ⊢
          rw [hitsFrom, hitsFrom, if_neg (not_not_intro rfl), if_neg (not_not_intro rfl), hread,
            hreturn]
          split
          · exact ih 0 _
          · have hrest := ih front.length (c = '\n')
            rw [List.append_eq, List.take_left] at hrest
            simp only [Text.crlf_cons hc, List.length_cons, Nat.add_sub_cancel, List.append_eq,
              List.map_cons, hrest]
            rw [Hit.crlf, htext, List.append_eq, Text.crlf_cons hc]

theorem hits_crlf (hs : h.Steady) (text : List Char) :
    h.hits (crlf text) = (h.hits text).map Hit.crlf :=
  hitsFrom_crlf hs 0 true text

theorem names_crlf (hs : h.Steady) (text : List Char) : h.names (crlf text) = h.names text := by
  unfold names
  rw [hits_crlf hs, List.map_map]
  rfl

end Header

structure Qualified.Steady (g : Qualified) : Prop where
  scope : g.scope.Steady
  classHeader : g.classHeader.Steady
  method : g.method.Steady

theorem Qualified.scan_crlf {g : Qualified} (hg : g.Steady) (path : Path) (text : List Char) :
    g.scan path (crlf text) = g.scan path text := by
  unfold scan
  rw [Header.names_crlf hg.scope, Header.hits_crlf hg.classHeader, List.map_map]
  apply List.map_congr_left
  intro hit _
  have hmethods : g.methods (crlf hit.text) = g.methods hit.text := by
    unfold methods
    rw [Header.names_crlf hg.method]
  simp only [Function.comp_apply, Hit.crlf, hmethods]

structure Module.Steady (g : Module) : Prop where
  types : ∀ h ∈ g.types, h.Steady
  functions : ∀ h ∈ g.functions, h.Steady

theorem Module.scan_crlf {g : Module} (hg : g.Steady) (path : Path) (text : List Char) :
    g.scan path (crlf text) = g.scan path text := by
  have htypes : g.types.flatMap (·.names (crlf text)) = g.types.flatMap (·.names text) :=
    List.flatMap_congr fun h hh => Header.names_crlf (hg.types h hh) text
  have hhits : g.functions.flatMap (·.hits (crlf text)) =
      (g.functions.flatMap (·.hits text)).map Hit.crlf := by
    rw [List.map_flatMap]
    exact List.flatMap_congr fun h hh => Header.hits_crlf (hg.functions h hh) text
  have hmembers : g.members (crlf text) = g.members text := by
    unfold members
    rw [hhits, List.filter_map, List.map_map]
    rfl
  unfold scan typeEntries
  rw [htypes, hmembers]

theorem isLead_keyword (s : String) (h : OnOneLine s := by decide) : IsLead (spaced s) :=
  isLead_spaced h

theorem steady_csharp : csharp.Steady where
  scope :=
    { lead := (isLead_keyword "namespace").steadyLead ()
      inName_return := by decide
      inName_feed := by decide
      tail := isTail_nothing }
  classHeader := by
    have hlead := (isLead_keyword "public").seq (isLead_keyword "class")
    exact .of_word (hlead.steadyLead ()) rfl isTail_nothing
  method := by
    have htype : IsLead (seq (some1 isCSharpType) blanks1) := isLead_type (by decide) (by decide)
    have hlead := (isLead_keyword "public").seq ((isLead_keyword "async").optional_seq htype)
    exact .of_word (hlead.steadyLead ()) rfl isTail_openParen

theorem steady_java : java.Steady where
  scope :=
    { lead := (isLead_keyword "package").steadyLead ()
      inName_return := by decide
      inName_feed := by decide
      tail := isTail_word (by decide) }
  classHeader := by
    have hmodifier : IsLead (oneOf (["abstract", "final", "static"].map spaced)) :=
      isLead_oneOf_spaced (by decide)
    have hlead := (isLead_keyword "public").seq (hmodifier.repeated_seq (isLead_keyword "class"))
    exact .of_word (hlead.steadyLead ()) rfl isTail_nothing
  method := by
    have hmodifier :
        IsLead (oneOf (["static", "final", "abstract", "synchronized"].map spaced)) :=
      isLead_oneOf_spaced (by decide)
    have htype : IsLead (seq (some1 isJavaType) blanks1) := isLead_type (by decide) (by decide)
    have hlead := (isLead_keyword "public").seq (hmodifier.repeated_seq htype)
    exact .of_word (hlead.steadyLead ()) rfl isTail_openParen

theorem steady_go : go.Steady where
  types := List.forall_mem_nil _
  functions := by
    have hmethod := ((isLead_keyword "func").seq isLead_receiver).steadyLead MemberKind.method
    have hfunction := (isLead_keyword "func").steadyLead MemberKind.function
    exact List.forall_mem_singleton.mpr (.of_word (hmethod.append hfunction) rfl isTail_openParen)

theorem steady_javascript : javascript.Steady where
  types := List.forall_mem_nil _
  functions := by
    have hfunction := (isLead_keyword "export").seq (isLead_keyword "function")
    have hconst := (isLead_keyword "export").seq (isLead_keyword "const")
    have hequals : OnOneLine "=" := by decide
    have hassigned : IsTail (seq blanks (seq (word "=") openParen)) :=
      ((isTail_word hequals).seq isTail_openParen).blanks_seq ((refuses_word hequals).seq _)
    refine List.forall_mem_cons.mpr ⟨?_, List.forall_mem_singleton.mpr ?_⟩
    · exact .of_word (hfunction.steadyLead MemberKind.function) rfl isTail_openParen
    · exact .of_word (hconst.steadyLead MemberKind.function) rfl hassigned

theorem steady_typescript : typescript.Steady where
  types := by
    have hlead := (isLead_keyword "export").seq (isLead_keyword "class")
    exact List.forall_mem_singleton.mpr (.of_word (hlead.steadyLead ()) rfl isTail_nothing)
  functions := by
    have hlead := (isLead_keyword "export").seq (isLead_keyword "function")
    exact List.forall_mem_singleton.mpr
      (.of_word (hlead.steadyLead MemberKind.function) rfl isTail_openParen)

theorem steady_python : python.Steady where
  types := by
    have hmarks : ∀ s ∈ ["(", ":"], OnOneLine s := by decide
    have htail : IsTail (seq blanks (oneOf (["(", ":"].map word))) :=
      (isTail_oneOf_word hmarks).blanks_seq
        (refuses_oneOf (List.forall_mem_map.mpr fun s hs => refuses_word (hmarks s hs)))
    exact List.forall_mem_singleton.mpr
      (.of_word ((isLead_keyword "class").steadyLead ()) rfl htail)
  functions := by
    have hlead := (isLead_keyword "async").optional_seq (isLead_keyword "def")
    exact List.forall_mem_singleton.mpr
      (.of_word (hlead.steadyLead MemberKind.function) rfl isTail_openParen)

theorem steady_rust : rust.Steady where
  types := by
    have hkinds : IsLead (oneOf (["struct", "enum", "trait"].map spaced)) :=
      isLead_oneOf_spaced (by decide)
    exact List.forall_mem_singleton.mpr
      (.of_word (((isLead_keyword "pub").seq hkinds).steadyLead ()) rfl isTail_nothing)
  functions := by
    have hunsafe := (isLead_keyword "unsafe").optional_seq (isLead_keyword "fn")
    have hasync := (isLead_keyword "async").optional_seq hunsafe
    have hlead := (isLead_keyword "pub").seq ((isLead_keyword "const").optional_seq hasync)
    exact List.forall_mem_singleton.mpr
      (.of_word (hlead.steadyLead MemberKind.function) rfl isTail_nothing)

end Scan

namespace Grammar

theorem scan_crlf {g : Grammar} (hg : g ∈ all) (path : Path) (text : List Char) :
    g.scan path (Text.crlf text) = g.scan path text := by
  simp only [all, List.mem_cons, List.not_mem_nil, or_false] at hg
  rcases hg with rfl | rfl | rfl | rfl | rfl | rfl | rfl
  · exact Scan.Qualified.scan_crlf Scan.steady_csharp path text
  · exact Scan.Module.scan_crlf Scan.steady_typescript path text
  · exact Scan.Module.scan_crlf Scan.steady_javascript path text
  · exact Scan.Module.scan_crlf Scan.steady_python path text
  · exact Scan.Qualified.scan_crlf Scan.steady_java path text
  · exact Scan.Module.scan_crlf Scan.steady_go path text
  · exact Scan.Module.scan_crlf Scan.steady_rust path text

theorem report_of_text (g : Grammar) {t : FileTree} {path : Path} {text : List Char}
    (h : t.readBytes path = .ok (Utf8.encode text)) :
    (Scanner.grammar g).report t [path] = ⟨g.scan path text, []⟩ := by
  have hread : t.readText path = .ok text := by
    unfold FileTree.readText
    rw [h]
    simp only [bind, Except.bind, Utf8.decode_encode]
    rfl
  simp [Scanner.report, Scanner.reportFile, hread, Report.concat]

/-- A file is extracted with returns as it is without. -/
theorem report_crlf {g : Grammar} (hg : g ∈ all) {t later : FileTree} {path : Path}
    {text : List Char} (h : t.readBytes path = .ok (Utf8.encode text))
    (hlater : later.readBytes path = .ok (Utf8.encode (Text.crlf text))) :
    (Scanner.grammar g).report t [path] = ⟨g.scan path text, []⟩ ∧
      (Scanner.grammar g).report later [path] = ⟨g.scan path text, []⟩ := by
  refine ⟨report_of_text g h, ?_⟩
  rw [report_of_text g hlater, scan_crlf hg]

end Grammar

namespace FileTree

def folded : FileTree where
  top := .dir [(Bytes.ofString "a.go", .file (Bytes.ofString "func\nF()"))]
  workingDir := []

def foldedByReturn : FileTree where
  top := .dir [(Bytes.ofString "a.go", .file (Bytes.ofString "func\r\nF()"))]
  workingDir := []

end FileTree

theorem Grammar.report_crlf_folded :
    (Scanner.grammar (.module Scan.go)).report .folded [.ofString "a.go"] =
      (Scanner.grammar (.module Scan.go)).report .foldedByReturn [.ofString "a.go"] ∧
    Grammar.scan (.module Scan.go) (.ofString "a.go") "func\nF()".toList =
      [{ file := .ofString "a.go", language := .go, container := "a.go", kind := .module,
         members := [{ name := "F", kind := .function }] }] := by
  have hgo : Grammar.module Scan.go ∈ all := by simp [all]
  have hread : FileTree.folded.readBytes (.ofString "a.go") =
      .ok (Utf8.encode "func\nF()".toList) := by cbv
  have hlater : FileTree.foldedByReturn.readBytes (.ofString "a.go") =
      .ok (Utf8.encode (Text.crlf "func\nF()".toList)) := by cbv
  obtain ⟨h, h'⟩ := report_crlf hgo hread hlater
  exact ⟨h.trans h'.symm, by decide⟩

end ApiAtlas
