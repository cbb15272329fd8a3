import ApiAtlas.Proofs.Scan.Fronts

/-!
Texts with a line between them that holds a semicolon only. No header has such a line in it or ends
where it starts: between a line break and a semicolon nothing of a header can go on. So the headers
of both texts are found, and no others.
-/
namespace ApiAtlas

def Text.parted (a b : List Char) : List Char := a ++ '\n' :: ';' :: '\n' :: b

namespace Scan

open Text (isBlank isWord parted)

/-- No semicolon stands in front, or behind a line break. -/
structure Unbroken (cs : List Char) : Prop where
  line : ¬['\n', ';'] <:+: cs
  head : cs.head? ≠ some ';'

section

variable {cs more : List Char}

theorem unbroken_of_notMem (h : ';' ∉ cs) : Unbroken cs where
  line hline := h (hline.subset (by simp))
  head heq := h (List.mem_of_head? heq)

theorem Unbroken.append (h : Unbroken cs) (h' : Unbroken more) : Unbroken (cs ++ more) where
  line hline := by
    rcases List.infix_append_iff.mp hline with hcs | hmore | ⟨l₁, l₂, hsplit, hl₁, hl₂⟩
    · exact h.line hcs
    · exact h'.line hmore
    · rcases l₁ with - | ⟨c, - | ⟨d, l₁⟩⟩
      · exact h'.line (hsplit ▸ hl₂.isInfix)
      · obtain ⟨-, rfl⟩ := List.cons.inj hsplit
        obtain ⟨rest, rfl⟩ := hl₂
        exact h'.head rfl
      · obtain ⟨rfl, hsecond⟩ := List.cons.inj hsplit
        obtain ⟨rfl, hnil⟩ := List.cons.inj hsecond
        rw [(List.append_eq_nil_iff.mp hnil.symm).1] at hl₁
        exact h.line hl₁.isInfix
  head := by
    cases cs with
    | nil => exact h'.head
    | cons c cs => exact h.head

theorem Unbroken.length_le {front rest behind : List Char} (h : Unbroken cs)
    (hlast : cs.getLast? ≠ some '\n') (heq : front ++ '\n' :: ';' :: behind = cs ++ rest) :
    cs.length ≤ front.length := by
  rcases List.append_eq_append_iff.mp heq with ⟨beyond, rfl, hbeyond⟩ | ⟨left, rfl, -⟩
  · cases beyond with
    | nil => simp
    | cons c beyond =>
      obtain ⟨rfl, hsecond⟩ := List.cons.inj hbeyond
      cases beyond with
      | nil => simp at hlast
      | cons d beyond =>
        obtain ⟨rfl, -⟩ := List.cons.inj hsecond
        exact absurd ⟨front, beyond, by simp⟩ h.line
  · simp

end

structure IsPart (r : Reading) : Prop where
  reads : ∃ L, Reads r L ∧ ∀ cs, L cs → Unbroken cs
  isLocal : Local r

structure IsOpening (r : Reading) : Prop extends IsPart r where
  refuses : ∀ c cs, isWord c = false → r (c :: cs) = []

structure IsClosing (r : Reading) : Prop extends IsPart r where
  last : ∀ cs, ∀ taken ∈ r cs, (cs.take taken.size).getLast? ≠ some '\n'

section

variable {r a b : Reading}

theorem isPart_word {s : String} (h : ';' ∉ s.toList) : IsPart (word s) where
  reads := ⟨_, reads_word s, fun _ hcs => unbroken_of_notMem (hcs ▸ h)⟩
  isLocal := local_word s

theorem notMem_of_forall {p : Char → Bool} (hp : p ';' = false) {cs : List Char}
    (h : ∀ c ∈ cs, p c = true) : ';' ∉ cs := by
  intro hmem
  rw [h _ hmem] at hp
  cases hp

theorem isPart_blanks : IsPart blanks where
  reads := ⟨_, reads_blanks, fun _ hcs => unbroken_of_notMem (notMem_of_forall (by decide) hcs)⟩
  isLocal := local_many isBlank

theorem isPart_blanks1 : IsPart blanks1 where
  reads := ⟨_, reads_some1 isBlank, fun _ hcs =>
    unbroken_of_notMem (notMem_of_forall (by decide) hcs.all)⟩
  isLocal := local_some1 isBlank

theorem IsPart.seq (ha : IsPart a) (hb : IsPart b) : IsPart (seq a b) where
  reads := by
    obtain ⟨L, hL, hfirst⟩ := ha.reads
    obtain ⟨M, hM, hsecond⟩ := hb.reads
    refine ⟨_, hL.seq hM, ?_⟩
    rintro _ ⟨front, next, hfront, hnext, rfl⟩
    exact (hfirst front hfront).append (hsecond next hnext)
  isLocal := ha.isLocal.seq hb.isLocal

theorem IsPart.optional (h : IsPart r) : IsPart (optional r) where
  reads := by
    obtain ⟨L, hL, hunbroken⟩ := h.reads
    refine ⟨_, hL.optional, ?_⟩
    rintro cs (hcs | rfl)
    · exact hunbroken cs hcs
    · exact unbroken_of_notMem List.not_mem_nil
  isLocal := h.isLocal.optional

theorem isPart_oneOf {items : List String} {f : String → Reading}
    (h : ∀ s ∈ items, IsPart (f s)) : IsPart (oneOf (items.map f)) where
  reads := by
    choose! L hL hunbroken using fun s hs => (h s hs).reads
    refine ⟨_, reads_oneOf hL, ?_⟩
    rintro cs ⟨s, hs, hcs⟩
    exact hunbroken s hs cs hcs
  isLocal := local_oneOf (List.forall_mem_map.mpr fun s hs => (h s hs).isLocal)

theorem isPart_receiver : IsPart receiver where
  reads := by
    refine ⟨_, (reads_word "(").seq ((reads_upTo ')').seq reads_blanks), ?_⟩
    rintro _ ⟨_, _, rfl, ⟨_, gap, ⟨inside, hinside, rfl⟩, hgap, rfl⟩, rfl⟩
    have hparens : Unbroken ("(".toList ++ (inside ++ [')'])) := by
      refine ⟨fun hline => ?_, by simp⟩
      have hmem := hline.subset List.mem_cons_self
      simp [hinside] at hmem
    have hblanks := unbroken_of_notMem (notMem_of_forall (by decide) hgap)
    rw [← List.append_assoc]
    exact hparens.append hblanks
  isLocal := (local_word "(").seq ((local_upTo ')').seq (local_many isBlank))

theorem isOpening_spaced {s : String} (hne : s.toList ≠ []) (hword : s.toList.all isWord = true) :
    IsOpening (spaced s) where
  toIsPart := by
    have hall := List.all_eq_true.mp hword
    exact (isPart_word (notMem_of_forall (by decide) hall)).seq isPart_blanks1
  refuses c cs hc := by
    obtain ⟨w, ws, hs⟩ := List.exists_cons_of_ne_nil hne
    have hw : isWord w = true := List.all_eq_true.mp hword w (hs ▸ List.mem_cons_self)
    have hother : c ≠ w := by
      rintro rfl
      rw [hw] at hc
      cases hc
    rw [spaced, Scan.seq, word, hs, literalFrom, if_neg hother]
    rfl

theorem IsOpening.seq (ha : IsOpening a) (hb : IsPart b) : IsOpening (seq a b) where
  toIsPart := ha.toIsPart.seq hb
  refuses c cs hc := by
    rw [Scan.seq, ha.refuses c cs hc]
    rfl

theorem IsOpening.optional_seq (ha : IsOpening a) (hb : IsOpening b) :
    IsOpening (Scan.seq (optional a) b) where
  toIsPart := ha.toIsPart.optional.seq hb.toIsPart
  refuses c cs hc := by
    rw [Scan.seq, optional, ha.refuses c cs hc, List.nil_append, List.flatMap_singleton,
      hb.refuses c cs hc]
    rfl

theorem isClosing_word {s : String} (h : ';' ∉ s.toList) (hlast : s.toList.getLast? ≠ some '\n') :
    IsClosing (word s) where
  toIsPart := isPart_word h
  last cs taken htaken := by
    obtain ⟨_, rest, rfl, rfl, rfl⟩ := (reads_word s _ _).mp htaken
    rwa [List.take_left]

theorem isClosing_oneOf {items : List String} {f : String → Reading}
    (h : ∀ s ∈ items, IsClosing (f s)) : IsClosing (oneOf (items.map f)) where
  toIsPart := isPart_oneOf fun s hs => (h s hs).toIsPart
  last cs taken htaken := by
    obtain ⟨_, hr, htaken⟩ := List.mem_flatMap.mp htaken
    obtain ⟨s, hs, rfl⟩ := List.mem_map.mp hr
    exact (h s hs).last cs taken htaken

theorem IsClosing.seq (ha : IsPart a) (hb : IsClosing b) (hne : b [] = []) :
    IsClosing (Scan.seq a b) where
  toIsPart := ha.seq hb.toIsPart
  last cs taken htaken := by
    obtain ⟨L, hL, -⟩ := ha.reads
    obtain ⟨M, hM, -⟩ := hb.reads
    obtain ⟨first, hfirst, htaken⟩ := List.mem_flatMap.mp htaken
    obtain ⟨second, hsecond, rfl⟩ := List.mem_map.mp htaken
    have hlast := hb.last _ second hsecond
    obtain ⟨front, _, -, rfl, rfl⟩ := (hL _ _).mp hfirst
    obtain ⟨next, rest, hnext, hrest, rfl⟩ := (hM _ _).mp hsecond
    simp only at hrest
    have hmore : next ≠ [] := by
      rintro rfl
      have hmem := hM.mem hnext []
      rw [List.append_nil, hne] at hmem
      cases hmem
    simp only [hrest, List.take_left] at hlast
    rw [hrest, ← List.append_assoc, Taken.size_plus, ← List.length_append, List.take_left,
      List.getLast?_append_of_ne_nil _ hmore]
    exact hlast

theorem isClosing_openParen : IsClosing openParen :=
  .seq isPart_blanks (isClosing_word (by decide) (by decide)) rfl

end

structure IsOpeningLead {κ : Type} (lead : List Char → List (κ × Taken)) : Prop where
  reads : ∃ leads, LeadReads lead leads ∧ ∀ note cs, leads note cs → Unbroken cs
  isLocal : LocalLead lead
  refuses : ∀ c cs, isWord c = false → lead (c :: cs) = []

section

variable {κ : Type}

theorem IsOpening.lead {r : Reading} (h : IsOpening r) (note : κ) :
    IsOpeningLead fun cs => (r cs).map (note, ·) where
  reads := by
    obtain ⟨L, hL, hunbroken⟩ := h.reads
    exact ⟨_, hL.lead note, fun _ cs hcs => hunbroken cs hcs.2⟩
  isLocal := h.isLocal.lead note
  refuses c cs hc := by
    rw [h.refuses c cs hc]
    rfl

theorem IsOpeningLead.append {lead other : List Char → List (κ × Taken)}
    (h : IsOpeningLead lead) (h' : IsOpeningLead other) :
    IsOpeningLead fun cs => lead cs ++ other cs where
  reads := by
    obtain ⟨leads, hleads, hunbroken⟩ := h.reads
    obtain ⟨others, hothers, hunbroken'⟩ := h'.reads
    refine ⟨_, hleads.append hothers, ?_⟩
    rintro note cs (hcs | hcs)
    · exact hunbroken note cs hcs
    · exact hunbroken' note cs hcs
  isLocal := h.isLocal.append h'.isLocal
  refuses c cs hc := by
    rw [h.refuses c cs hc, h'.refuses c cs hc]
    rfl

end

def Hit.before {κ : Type} (behind : List Char) (hit : Hit κ) : Hit κ :=
  { hit with text := hit.text ++ behind }

namespace Header

variable {κ : Type} {h : Header κ}

/-- What keeps a header on one side of a line with a semicolon. -/
structure Separable (h : Header κ) : Prop where
  lead : IsOpeningLead h.lead
  inName : h.inName = isWord
  tail : IsClosing h.tail

theorem Separable.spells (hs : h.Separable) :
    ∃ leads tails, h.Spells leads tails ∧ (∀ note cs, leads note cs → Unbroken cs) ∧
      ∀ cs, tails cs → Unbroken cs ∧ cs.getLast? ≠ some '\n' := by
  obtain ⟨leads, hleads, hunbroken⟩ := hs.lead.reads
  obtain ⟨tails, htails, hunbroken'⟩ := hs.tail.reads
  refine ⟨leads, tails, ⟨hleads, htails⟩, hunbroken, fun cs hcs => ⟨hunbroken' cs hcs, ?_⟩⟩
  have hlast := hs.tail.last _ _ (htails.mem hcs [])
  rwa [List.take_left] at hlast

theorem Separable.size_le (hs : h.Separable) {cs behind : List Char} {hit : Hit κ} {size : Nat}
    (hread : h.readAt (cs ++ '\n' :: ';' :: behind) = some (hit, size)) : size ≤ cs.length := by
  obtain ⟨leads, tails, hspells, hleads, htails⟩ := hs.spells
  obtain ⟨-, lead, tail, rest, hlead, hname, htail, hcs, rfl⟩ := hspells.parts hread
  rw [hs.inName] at hname
  have hwhole : Unbroken (lead ++ (hit.name ++ tail)) := by
    have hword := unbroken_of_notMem (notMem_of_forall (p := isWord) (by decide) hname.all)
    exact (hleads _ _ hlead).append (hword.append (htails _ htail).1)
  have hlast : (lead ++ (hit.name ++ tail)).getLast? ≠ some '\n' := by
    rw [List.getLast?_append_of_ne_nil _ (by simp [hname.ne_nil]), List.getLast?_append]
    cases htaillast : tail.getLast? with
    | some c => simpa [htaillast] using (htails _ htail).2
    | none =>
      intro hfeed
      have hword := hname.all _ (List.mem_of_getLast? hfeed)
      exact absurd hword (by decide)
  have hparts : cs ++ '\n' :: ';' :: behind = lead ++ (hit.name ++ tail) ++ rest := by
    rw [hcs, List.append_assoc, List.append_assoc]
  have hle := hwhole.length_le hlast hparts
  simp only [List.length_append] at hle
  omega

theorem Separable.readAt_before (hs : h.Separable) (cs rest : List Char) :
    h.readAt (parted cs rest) = (h.readAt cs).map fun (hit, size) =>
      (⟨hit.note, hit.name, parted cs rest⟩, size) := by
  obtain ⟨leads, tails, hspells, -, -⟩ := hs.spells
  exact hspells.readAt_before hs.lead.isLocal hs.tail.isLocal fun _ _ hread => hs.size_le hread

theorem Separable.readAt_of_not_isWord (hs : h.Separable) {c : Char} (hc : isWord c = false)
    (cs : List Char) : h.readAt (c :: cs) = none := by
  rw [readAt, hs.lead.refuses c cs hc]
  rfl

/-- Scanning goes along the first text as if it stood alone, and behind the line between them as if
the second stood alone. -/
theorem Separable.hitsFrom_parted (hs : h.Separable) {skip : Nat} {front : List Char}
    (hskip : skip ≤ front.length) (atLineStart : Bool) (rest : List Char) :
    h.hitsFrom skip atLineStart (parted front rest) =
      (h.hitsFrom skip atLineStart front).map (.before ('\n' :: ';' :: '\n' :: rest)) ++
        h.hits rest := by
  induction front generalizing skip atLineStart with
  | nil =>
    have hnone {c : Char} (hc : isWord c = false) (cs : List Char) :=
      hitsFrom_of_none (hs.readAt_of_not_isWord hc cs)
    rw [Nat.le_zero.mp hskip, parted, List.nil_append, hnone (by decide), hnone (by decide),
      hnone (by decide)]
    rfl
  | cons c front ih =>
    cases skip with
    | succ n =>
      rw [parted, List.cons_append, hitsFrom_succ, hitsFrom_succ]
      exact ih (Nat.le_of_succ_le_succ hskip) _
    | zero =>
      have hparted := hs.readAt_before (c :: front) rest
      have hskipped := ih (Nat.zero_le _) (c = '\n')
      rw [parted, List.cons_append] at hparted ⊢
      rw [hitsFrom, hitsFrom, if_neg (not_not_intro rfl), if_neg (not_not_intro rfl)]
      split
      · exact hskipped
      · rw [hparted]
        cases hread : h.readAt (c :: front) with
        | none => exact hskipped
        | some found =>
          obtain ⟨hit, size⟩ := found
          have hsize : size ≤ front.length + 1 := by
            rw [hread, ← List.cons_append] at hparted
            exact hs.size_le hparted
          have hmore := ih (show size - 1 ≤ front.length by omega) (c = '\n')
          simp only [Option.map_some, List.map_cons, List.cons_append]
          rw [← parted, hmore, Hit.before, text_of_readAt hread]
          rfl

theorem Separable.hits_parted (hs : h.Separable) (a b : List Char) :
    h.hits (parted a b) =
      (h.hits a).map (.before ('\n' :: ';' :: '\n' :: b)) ++ h.hits b :=
  hs.hitsFrom_parted (Nat.zero_le _) true b

theorem Separable.names_parted (hs : h.Separable) (a b : List Char) :
    h.names (parted a b) = h.names a ++ h.names b := by
  unfold names
  rw [hs.hits_parted, List.map_append, List.map_map]
  rfl

end Header

def typesOf (entries : List Entry) : List Entry := entries.filter (·.kind = .type)

def membersOf (entries : List Entry) : List Member :=
  (entries.filter (·.kind = .module)).flatMap (·.members)

namespace Module

variable {g : Module}

def membersBy (g : Module) (h : Header MemberKind) (text : List Char) : List Member :=
  ((h.hits text).filter (g.isExported ·.name)).map fun hit =>
    { name := String.ofList hit.name, kind := hit.note }

theorem members_eq (g : Module) (text : List Char) :
    g.members text = g.functions.flatMap (g.membersBy · text) := by
  unfold members membersBy
  rw [List.filter_flatMap, List.map_flatMap]

theorem kind_of_mem_typeEntries {path : Path} {text : List Char} {entry : Entry}
    (h : entry ∈ g.typeEntries path text) : entry.kind = .type := by
  obtain ⟨name, -, rfl⟩ := List.mem_map.mp h
  rfl

theorem kind_of_mem_moduleEntry {path : Path} {members : List Member} {entry : Entry}
    (h : entry ∈ g.moduleEntry path members) : entry.kind = .module := by
  unfold moduleEntry at h
  split at h
  · cases h
  · rw [List.mem_singleton.mp h]

theorem typesOf_scan (g : Module) (path : Path) (text : List Char) :
    typesOf (g.scan path text) = g.typeEntries path text := by
  unfold typesOf scan
  rw [List.filter_append, List.filter_eq_self.mpr, List.filter_eq_nil_iff.mpr, List.append_nil]
  · intro entry hentry
    simp [kind_of_mem_moduleEntry hentry]
  · intro entry hentry
    simp [kind_of_mem_typeEntries hentry]

theorem membersOf_scan (g : Module) (path : Path) (text : List Char) :
    membersOf (g.scan path text) = g.members text := by
  unfold membersOf scan
  rw [List.filter_append, List.filter_eq_nil_iff.mpr, List.filter_eq_self.mpr, List.nil_append]
  · unfold moduleEntry
    split
    · rename_i hempty
      rw [List.isEmpty_iff.mp hempty]
      rfl
    · exact List.flatMap_singleton _ _
  · intro entry hentry
    simp [kind_of_mem_moduleEntry hentry]
  · intro entry hentry
    simp [kind_of_mem_typeEntries hentry]

/-- Every header of the grammar stays on one side of a line with a semicolon. -/
structure Separable (g : Module) : Prop where
  types : ∀ h ∈ g.types, h.Separable
  functions : ∀ h ∈ g.functions, h.Separable

theorem membersBy_parted {h : Header MemberKind} (hs : h.Separable) (a b : List Char) :
    g.membersBy h (parted a b) = g.membersBy h a ++ g.membersBy h b := by
  unfold membersBy
  rw [hs.hits_parted, List.filter_append, List.map_append, List.filter_map, List.map_map]
  rfl

theorem members_parted (hg : g.Separable) (a b : List Char) :
    g.members (parted a b) = g.functions.flatMap fun h => g.membersBy h a ++ g.membersBy h b := by
  rw [members_eq]
  exact List.flatMap_congr fun h hh => membersBy_parted (hg.functions h hh) a b

theorem typeEntries_parted (hg : g.Separable) (hone : g.types.length ≤ 1) (path : Path)
    (a b : List Char) :
    g.typeEntries path (parted a b) = g.typeEntries path a ++ g.typeEntries path b := by
  have hnames : g.types.flatMap (·.names (parted a b)) =
      g.types.flatMap (·.names a) ++ g.types.flatMap (·.names b) := by
    rcases htypes : g.types with - | ⟨h, - | ⟨h', types⟩⟩
    · rfl
    · have hh : h.Separable := hg.types h (htypes ▸ List.mem_cons_self)
      simp only [List.flatMap_singleton, hh.names_parted]
    · simp [htypes] at hone
  unfold typeEntries
  rw [hnames, List.filter_append, List.map_append]

/-- What is declared in two texts with the line between them is what is declared in the first and
then what is declared in the second. -/
def FoundApart (g : Module) : Prop :=
  ∀ (path : Path) (a b : List Char), g.scan path (parted a b) =
    typesOf (g.scan path a) ++ typesOf (g.scan path b) ++
      g.moduleEntry path (membersOf (g.scan path a) ++ membersOf (g.scan path b))

theorem Separable.foundApart (hg : g.Separable) (hone : g.types.length ≤ 1)
    (hfunctions : g.functions.length = 1) : g.FoundApart := by
  intro path a b
  obtain ⟨h, hh⟩ := List.length_eq_one_iff.mp hfunctions
  have hmembers : g.members (parted a b) = g.members a ++ g.members b := by
    rw [members_parted hg, members_eq, members_eq, hh]
    simp only [List.flatMap_singleton]
  rw [typesOf_scan, typesOf_scan, membersOf_scan, membersOf_scan, scan, typeEntries_parted hg hone,
    hmembers]

end Module

theorem isOpening_keyword (s : String)
    (h : s.toList ≠ [] ∧ s.toList.all isWord = true := by decide) : IsOpening (spaced s) :=
  isOpening_spaced h.1 h.2

theorem isClosing_nothing : IsClosing (word "") := isClosing_word (by decide) (by decide)

theorem separable_python : python.Separable where
  types := by
    have hmarks : ∀ s ∈ ["(", ":"], IsClosing (word s) := fun s hs =>
      isClosing_word (by revert s; decide) (by revert s; decide)
    have htail : IsClosing (seq blanks (oneOf (["(", ":"].map word))) :=
      .seq isPart_blanks (isClosing_oneOf hmarks) rfl
    exact List.forall_mem_singleton.mpr ⟨(isOpening_keyword "class").lead (), rfl, htail⟩
  functions := by
    have hlead := (isOpening_keyword "async").optional_seq (isOpening_keyword "def")
    exact List.forall_mem_singleton.mpr
      ⟨hlead.lead MemberKind.function, rfl, isClosing_openParen⟩

theorem separable_rust : rust.Separable where
  types := by
    have hkinds : IsPart (oneOf (["struct", "enum", "trait"].map spaced)) :=
      isPart_oneOf fun s hs =>
        (isOpening_spaced (by revert s; decide) (by revert s; decide)).toIsPart
    exact List.forall_mem_singleton.mpr
      ⟨((isOpening_keyword "pub").seq hkinds).lead (), rfl, isClosing_nothing⟩
  functions := by
    have hunsafe := (isOpening_keyword "unsafe").optional_seq (isOpening_keyword "fn")
    have hasync := (isOpening_keyword "async").optional_seq hunsafe
    have hconst := (isOpening_keyword "const").optional_seq hasync
    have hlead := (isOpening_keyword "pub").seq hconst.toIsPart
    exact List.forall_mem_singleton.mpr ⟨hlead.lead MemberKind.function, rfl, isClosing_nothing⟩

theorem separable_typescript : typescript.Separable where
  types := by
    have hlead := (isOpening_keyword "export").seq (isOpening_keyword "class").toIsPart
    exact List.forall_mem_singleton.mpr ⟨hlead.lead (), rfl, isClosing_nothing⟩
  functions := by
    have hlead := (isOpening_keyword "export").seq (isOpening_keyword "function").toIsPart
    exact List.forall_mem_singleton.mpr
      ⟨hlead.lead MemberKind.function, rfl, isClosing_openParen⟩

theorem separable_go : go.Separable where
  types := List.forall_mem_nil _
  functions := by
    have hmethod := ((isOpening_keyword "func").seq isPart_receiver).lead MemberKind.method
    have hfunction := (isOpening_keyword "func").lead MemberKind.function
    exact List.forall_mem_singleton.mpr ⟨hmethod.append hfunction, rfl, isClosing_openParen⟩

def declaredFunction : Header MemberKind :=
  ⟨false, telling .function (seq (spaced "export") (spaced "function")), isWord, openParen⟩

def arrowConstant : Header MemberKind :=
  ⟨false, telling .function (seq (spaced "export") (spaced "const")), isWord,
    seq blanks (seq (word "=") openParen)⟩

theorem separable_javascript : javascript.Separable where
  types := List.forall_mem_nil _
  functions := by
    have hexport := isOpening_keyword "export"
    have hfunction := hexport.seq (isOpening_keyword "function").toIsPart
    have hconst := hexport.seq (isOpening_keyword "const").toIsPart
    have hassigned : IsClosing (seq blanks (seq (word "=") openParen)) :=
      .seq isPart_blanks (.seq (isPart_word (by decide)) isClosing_openParen rfl) rfl
    refine List.forall_mem_cons.mpr ⟨?_, List.forall_mem_singleton.mpr ?_⟩
    · exact ⟨hfunction.lead MemberKind.function, rfl, isClosing_openParen⟩
    · exact ⟨hconst.lead MemberKind.function, rfl, hassigned⟩

/-- Declarations are found whatever stands around them: with a line between two texts that holds a
semicolon only, the types of both are found, and a module with the members of both, in order. In
JavaScript this goes for each kind of function, and all that are declared come first. -/
theorem scan_parted :
    python.FoundApart ∧ rust.FoundApart ∧ typescript.FoundApart ∧ go.FoundApart ∧
      javascript.functions = [declaredFunction, arrowConstant] ∧
      ∀ (path : Path) (a b : List Char),
        membersOf (javascript.scan path a) =
          javascript.membersBy declaredFunction a ++ javascript.membersBy arrowConstant a ∧
        javascript.scan path (parted a b) =
          javascript.moduleEntry path
            ((javascript.membersBy declaredFunction a ++ javascript.membersBy declaredFunction b) ++
              (javascript.membersBy arrowConstant a ++ javascript.membersBy arrowConstant b)) := by
  have hfunctions : javascript.functions = [declaredFunction, arrowConstant] := rfl
  refine ⟨separable_python.foundApart (by decide) rfl, separable_rust.foundApart (by decide) rfl,
    separable_typescript.foundApart (by decide) rfl, separable_go.foundApart (by decide) rfl,
    hfunctions, fun path a b => ⟨?_, ?_⟩⟩
  · rw [Module.membersOf_scan, Module.members_eq, hfunctions]
    simp only [List.flatMap_cons, List.flatMap_nil, List.append_nil]
  · rw [Module.scan, Module.members_parted separable_javascript, hfunctions]
    simp only [List.flatMap_cons, List.flatMap_nil, List.append_nil]
    rfl

end Scan

end ApiAtlas
