import ApiAtlas.Proofs.Scan.Hits
import ApiAtlas.Proofs.Scan.Reading

/-!
How class headers and methods lie in a text. Both begin with the word for what is public, blanks and
words; a method ends in a name with a parenthesis behind it, and in a class header a further word
follows each word but the last. So a method that starts before a class header also ends before it,
one starts with it exactly if a parenthesis follows the name of the class, and any other that starts
inside it starts in that name.
-/
namespace ApiAtlas

namespace Text

theorem Ranges.holds_of_apart {ranges others : Ranges}
    (h : (ranges.all fun r => others.all fun s => r.2.blt s.1 || s.2.blt r.1) = true) {c : Char}
    (hc : others.holds c = true) : ranges.holds c = false := by
  rw [← Bool.not_eq_true]
  intro hranges
  obtain ⟨s, hs, hin⟩ := List.any_eq_true.mp hc
  obtain ⟨r, hr, hin'⟩ := List.any_eq_true.mp hranges
  have hapart := List.all_eq_true.mp (List.all_eq_true.mp h r hr) s hs
  simp only [Bool.or_eq_true, Nat.blt_eq, Bool.and_eq_true, decide_eq_true_eq] at hin hin' hapart
  omega

theorem isAsciiWord_of_isBlank {c : Char} (hascii : c.val < 0x80) (h : isBlank c = true) :
    isAsciiWord c = false := by
  have hcodes : ∀ n < 0x80, isBlank (Char.ofNat n) = true → isAsciiWord (Char.ofNat n) = false := by
    decide +kernel
  have hcode := hcodes c.toNat (UInt32.lt_iff_toNat_lt.mp hascii)
  rw [Char.ofNat_toNat] at hcode
  exact hcode h

theorem isWord_of_isBlank {c : Char} (h : isBlank c = true) : isWord c = false := by
  unfold isWord
  split
  · rename_i hascii
    exact isAsciiWord_of_isBlank hascii h
  · exact Ranges.holds_of_apart (by decide +kernel) h

end Text

namespace Scan

open Text (isBlank isWord)

def StopsAt (p : Char → Bool) (cs : List Char) : Prop := ∀ c ∈ cs.head?, p c = false

section

variable {p q : Char → Bool} {a b cs : List Char}

theorem stopsAt_cons {c : Char} (hc : p c = false) (cs : List Char) : StopsAt p (c :: cs) := by
  rintro d ⟨⟩
  exact hc

theorem IsRun.stopsAt (h : IsRun q a) (hq : ∀ c, q c = true → p c = false) (b : List Char) :
    StopsAt p (a ++ b) := by
  obtain ⟨c, a, rfl⟩ := List.exists_cons_of_ne_nil h.ne_nil
  exact stopsAt_cons (hq c (h.all c List.mem_cons_self)) (a ++ b)

theorem stopsAt_append (ha : ∀ c ∈ a, p c = false) (hb : StopsAt p b) : StopsAt p (a ++ b) := by
  cases a with
  | nil => exact hb
  | cons c a => exact stopsAt_cons (ha c List.mem_cons_self) (a ++ b)

theorem run_unique {a' b' : List Char} (ha : ∀ c ∈ a, p c = true) (ha' : ∀ c ∈ a', p c = true)
    (hb : StopsAt p b) (hb' : StopsAt p b') (h : a ++ b = a' ++ b') : a = a' ∧ b = b' := by
  have hcut {a b : List Char} (ha : ∀ c ∈ a, p c = true) (hb : StopsAt p b) :
      (a ++ b).takeWhile p = a := by
    rw [List.takeWhile_append_of_pos ha]
    cases b with
    | nil => simp
    | cons c b => simp [hb c rfl]
  have heq : a = a' := by rw [← hcut ha hb, h, hcut ha' hb']
  subst heq
  exact ⟨rfl, List.append_cancel_left h⟩

theorem isBlank_eq_false (hp : ∀ c, isBlank c = true → p c = false) {c : Char} (hc : p c = true) :
    isBlank c = false := by
  by_contra hblank
  rw [Bool.not_eq_false] at hblank
  rw [hp c hblank] at hc
  cases hc

theorem isBlank_of_isWord {c : Char} (h : isWord c = true) : isBlank c = false :=
  isBlank_eq_false (fun _ => Text.isWord_of_isBlank) h

theorem suffix_append (h : cs <:+ a ++ b) :
    cs <:+ b ∨ ∃ here, here <:+ a ∧ here ≠ [] ∧ cs = here ++ b := by
  obtain ⟨before, hcs⟩ := h
  rcases List.append_eq_append_iff.mp hcs with ⟨here, ha, hcs⟩ | ⟨behind, -, hb⟩
  · by_cases hnil : here = []
    · exact .inl ⟨[], by simp [hcs, hnil]⟩
    · exact .inr ⟨here, ⟨before, ha.symm⟩, hnil, hcs⟩
  · exact .inl ⟨behind, hb.symm⟩

theorem suffix_of_notMem {c : Char} {rest : List Char} (hc : c ∉ a) (h : c :: rest <:+ a ++ b) :
    c :: rest <:+ b := by
  rcases suffix_append h with h | ⟨here, hhere, hne, heq⟩
  · exact h
  · obtain ⟨d, here, rfl⟩ := List.exists_cons_of_ne_nil hne
    obtain ⟨rfl, -⟩ := List.cons.inj heq
    exact absurd (hhere.subset List.mem_cons_self) hc

theorem suffix_ne_head {c : Char} (h : cs <:+ c :: b) (hne : cs ≠ c :: b) : cs <:+ b := by
  rcases List.suffix_cons_iff.mp h with rfl | h
  · exact absurd rfl hne
  · exact h

end

def Modifiers (words : List String) : List Char → Prop :=
  Rounds fun front => ∃ s ∈ words, Spaced s front

/-- A class header at the front of a text: what its name is, and what stands behind it. -/
def ClassAt (words : List String) (name rest cs : List Char) : Prop :=
  ∃ gap between gap', IsRun isBlank gap ∧ Modifiers words between ∧ IsRun isBlank gap' ∧
    IsRun isWord name ∧ StopsAt isWord rest ∧
    cs = "public".toList ++ (gap ++ (between ++ ("class".toList ++ (gap' ++ (name ++ rest)))))

/-- A method at the front of a text. -/
def MethodAt (between : List Char → Prop) (isType : Char → Bool) (name rest cs : List Char) :
    Prop :=
  ∃ gap front type gap' gap'', IsRun isBlank gap ∧ between front ∧ IsRun isType type ∧
    IsRun isBlank gap' ∧ IsRun isWord name ∧ (∀ c ∈ gap'', isBlank c = true) ∧
    cs = "public".toList ++ (gap ++ (front ++ (type ++ (gap' ++ (name ++ (gap'' ++ '(' :: rest))))))

structure IsModifier (s : String) : Prop where
  isWord : IsRun isWord s.toList
  notMem : 'p' ∉ s.toList
  other : s.toList ≠ "class".toList

instance : DecidablePred IsModifier := fun s =>
  decidable_of_iff (s.toList ≠ [] ∧ s.toList.all isWord = true ∧ 'p' ∉ s.toList ∧
      s.toList ≠ "class".toList)
    ⟨fun ⟨hne, hall, hp, hclass⟩ => ⟨⟨hne, List.all_eq_true.mp hall⟩, hp, hclass⟩,
      fun h => ⟨h.isWord.ne_nil, List.all_eq_true.mpr h.isWord.all, h.notMem, h.other⟩⟩

section

variable {words : List String} {cs : List Char}

theorem isRun_public : IsRun isWord "public".toList :=
  ⟨by decide, List.all_eq_true.mp (by decide)⟩

theorem isRun_class : IsRun isWord "class".toList := ⟨by decide, List.all_eq_true.mp (by decide)⟩

theorem notMem_blank {gap : List Char} (h : ∀ c ∈ gap, isBlank c = true) : 'p' ∉ gap := by
  intro hmem
  exact absurd (h _ hmem) (by decide)

theorem notMem_spaced {s : String} (hs : IsModifier s) (h : Spaced s cs) : 'p' ∉ cs := by
  obtain ⟨_, gap, rfl, hgap, rfl⟩ := h
  rw [List.mem_append, not_or]
  exact ⟨hs.notMem, notMem_blank hgap.all⟩

theorem notMem_modifiers (hwords : ∀ s ∈ words, IsModifier s) (h : Modifiers words cs) :
    'p' ∉ cs := by
  induction h with
  | none => exact List.not_mem_nil
  | more head tail ih =>
    obtain ⟨s, hs, hhead⟩ := head
    rw [List.mem_append, not_or]
    exact ⟨notMem_spaced (hwords s hs) hhead, ih⟩

def Continues (cs : List Char) : Prop :=
  ∃ word gap c rest, IsRun isWord word ∧ IsRun isBlank gap ∧ isWord c = true ∧
    cs = word ++ (gap ++ c :: rest)

theorem continues_header (hwords : ∀ s ∈ words, IsModifier s) {between gap name : List Char}
    (hbetween : Modifiers words between) (hgap : IsRun isBlank gap) (hname : IsRun isWord name)
    (rest : List Char) :
    Continues (between ++ ("class".toList ++ (gap ++ (name ++ rest)))) := by
  cases hbetween with
  | none =>
    obtain ⟨c, name, rfl⟩ := List.exists_cons_of_ne_nil hname.ne_nil
    exact ⟨_, gap, c, name ++ rest, isRun_class, hgap, hname.all c List.mem_cons_self, rfl⟩
  | more head tail =>
    obtain ⟨s, hs, _, gap', rfl, hgap', rfl⟩ := head
    cases tail with
    | none =>
      exact ⟨_, gap', 'c', "lass".toList ++ (gap ++ (name ++ rest)), (hwords s hs).isWord, hgap',
        by decide, by simp⟩
    | @more _ more head' tail' =>
      obtain ⟨s', hs', _, gap'', rfl, -, rfl⟩ := head'
      have hword := (hwords s' hs').isWord
      obtain ⟨c, next, hnext⟩ := List.exists_cons_of_ne_nil hword.ne_nil
      have hc : isWord c = true := hword.all c (hnext ▸ List.mem_cons_self)
      exact ⟨_, gap', c, next ++ (gap'' ++ (more ++ ("class".toList ++ (gap ++ (name ++ rest))))),
        (hwords s hs).isWord, hgap', hc, by simp [hnext]⟩

theorem stopsAt_mark {gap : List Char} (hgap : ∀ c ∈ gap, isBlank c = true) {mark : Char}
    (hmark : isWord mark = false) (rest : List Char) : StopsAt isWord (gap ++ mark :: rest) :=
  stopsAt_append (fun c hc => Text.isWord_of_isBlank (hgap c hc)) (stopsAt_cons hmark rest)

theorem not_continues {name gap rest : List Char} (hname : IsRun isWord name)
    (hgap : ∀ c ∈ gap, isBlank c = true) {mark : Char} (hmark : isWord mark = false)
    (hmark' : isBlank mark = false) : ¬Continues (name ++ (gap ++ mark :: rest)) := by
  rintro ⟨word, gap', c, rest', hword, hgap', hc, heq⟩
  have hblank := hgap'.stopsAt (fun _ => Text.isWord_of_isBlank) (c :: rest')
  obtain ⟨-, heq⟩ := run_unique hname.all hword.all (stopsAt_mark hgap hmark rest) hblank heq
  have hstop : StopsAt isBlank (mark :: rest) := stopsAt_cons hmark' rest
  have hstop' : StopsAt isBlank (c :: rest') := stopsAt_cons (isBlank_of_isWord hc) rest'
  obtain ⟨-, heq⟩ := run_unique hgap hgap'.all hstop hstop' heq
  rw [← (List.cons.inj heq).1, hmark] at hc
  cases hc

end

/-- A word with blanks behind it can be cut off in only one way. -/
theorem token_unique {p : Char → Bool} (hp : ∀ c, isBlank c = true → p c = false)
    {word gap rest word' gap' rest' : List Char} (hword : ∀ c ∈ word, p c = true)
    (hword' : ∀ c ∈ word', p c = true) (hgap : IsRun isBlank gap) (hgap' : IsRun isBlank gap')
    (hrest : StopsAt isBlank rest) (hrest' : StopsAt isBlank rest')
    (h : word ++ (gap ++ rest) = word' ++ (gap' ++ rest')) : word = word' ∧ rest = rest' := by
  obtain ⟨hwords, h⟩ := run_unique hword hword' (hgap.stopsAt hp rest) (hgap'.stopsAt hp rest') h
  exact ⟨hwords, (run_unique hgap.all hgap'.all hrest hrest' h).2⟩

theorem Continues.exists_cons {cs : List Char} (h : Continues cs) :
    ∃ c rest, isWord c = true ∧ cs = c :: rest := by
  obtain ⟨word, gap, _, rest, hword, -, -, rfl⟩ := h
  obtain ⟨c, word, rfl⟩ := List.exists_cons_of_ne_nil hword.ne_nil
  exact ⟨c, _, hword.all c List.mem_cons_self, rfl⟩

theorem Continues.stopsAt {cs : List Char} (h : Continues cs) : StopsAt isBlank cs := by
  obtain ⟨c, rest, hc, rfl⟩ := h.exists_cons
  exact stopsAt_cons (isBlank_of_isWord hc) rest

section

variable {words : List String} {name rest cs : List Char}

theorem ClassAt.behind_public (hwords : ∀ s ∈ words, IsModifier s)
    (h : ClassAt words name rest cs) :
    ∃ gap more, IsRun isBlank gap ∧ Continues more ∧ cs = "public".toList ++ (gap ++ more) := by
  obtain ⟨gap, between, gap', hgap, hbetween, hgap', hname, -, rfl⟩ := h
  exact ⟨gap, _, hgap, continues_header hwords hbetween hgap' hname rest, rfl⟩

theorem ClassAt.suffix (h : ClassAt words name rest cs) : name ++ rest <:+ cs := by
  obtain ⟨gap, between, gap', -, -, -, -, -, rfl⟩ := h
  exact ⟨"public".toList ++ (gap ++ (between ++ ("class".toList ++ gap'))),
    by simp only [List.append_assoc]⟩

theorem ClassAt.length_lt (h : ClassAt words name rest cs) : rest.length < cs.length := by
  have hname : 0 < name.length := List.length_pos_iff.mpr (by
    obtain ⟨gap, between, gap', -, -, -, hname, -⟩ := h
    exact hname.ne_nil)
  have hle := h.suffix.length_le
  rw [List.length_append] at hle
  omega

theorem ClassAt.continues (hwords : ∀ s ∈ words, IsModifier s) (h : ClassAt words name rest cs) :
    Continues cs := by
  obtain ⟨gap, more, hgap, hmore, rfl⟩ := h.behind_public hwords
  obtain ⟨c, rest', hc, rfl⟩ := hmore.exists_cons
  exact ⟨_, gap, c, rest', isRun_public, hgap, hc, rfl⟩

end

/-- What the methods of a grammar look like between the word for what is public and the name. -/
structure MethodShape (between : List Char → Prop) (isType : Char → Bool) : Prop where
  isType_of_isWord : ∀ c, isWord c = true → isType c = true
  isType_of_isBlank : ∀ c, isBlank c = true → isType c = false
  modifiers : ∃ others, (∀ s ∈ others, IsModifier s) ∧ ∀ cs, between cs → Modifiers others cs

section

variable {words : List String} {between : List Char → Prop} {isType : Char → Bool}
  {name rest cs className behind here : List Char}

theorem MethodAt.length_lt (h : MethodAt between isType name rest cs) : rest.length < cs.length := by
  obtain ⟨gap, front, type, gap', gap'', -, -, -, -, -, -, rfl⟩ := h
  simp only [List.length_append, List.length_cons]
  omega

theorem MethodShape.isBlank_of_isType (hshape : MethodShape between isType) {c : Char}
    (hc : isType c = true) : isBlank c = false :=
  isBlank_eq_false hshape.isType_of_isBlank hc

theorem MethodAt.class_behind (hwords : ∀ s ∈ words, IsModifier s)
    (hshape : MethodShape between isType) (hmethod : MethodAt between isType name rest cs)
    (hclass : ClassAt words className behind here) (hsuffix : here <:+ cs) (hne : here ≠ cs) :
    here <:+ rest := by
  obtain ⟨gap, front, type, gap', gap'', hgap, hfront, htype, hgap', hname, hgap'', rfl⟩ := hmethod
  obtain ⟨others, hothers, hmodifiers⟩ := hshape.modifiers
  obtain ⟨cgap, more, hcgap, hmore, hhere⟩ := hclass.behind_public hwords
  obtain ⟨tail, hp⟩ : ∃ tail, here = 'p' :: tail := ⟨_, hhere⟩
  rw [hp] at hsuffix hne ⊢
  -- There is no start before the type, for want of a `p`.
  have hsuffix := suffix_ne_head hsuffix hne
  have hsuffix := suffix_of_notMem (by decide) hsuffix
  have hsuffix := suffix_of_notMem (notMem_blank hgap.all) hsuffix
  have hsuffix := suffix_of_notMem (notMem_modifiers hothers (hmodifiers _ hfront)) hsuffix
  rcases suffix_append hsuffix with hsuffix | ⟨inner, hinner, -, heq⟩
  · have hsuffix := suffix_of_notMem (notMem_blank hgap'.all) hsuffix
    rcases suffix_append hsuffix with hsuffix | ⟨inner, hinner, hnil, heq⟩
    · have hsuffix := suffix_of_notMem (notMem_blank hgap'') hsuffix
      exact suffix_of_notMem (a := ['(']) (by decide) hsuffix
    · -- The name would be the first word of the class header.
      have hrun : IsRun isWord inner := ⟨hnil, fun c hc => hname.all c (hinner.subset hc)⟩
      rw [← hp] at heq
      exact absurd (heq ▸ hclass.continues hwords) (not_continues hrun hgap'' (by decide) (by decide))
  · -- The type would end in the first word of the class header, and the name be the second.
    have hword (c : Char) (hc : c ∈ "public".toList) : isType c = true :=
      hshape.isType_of_isWord c (isRun_public.all c hc)
    have hblank := hname.stopsAt (fun _ => isBlank_of_isWord) (gap'' ++ '(' :: rest)
    rw [← hp, hhere] at heq
    obtain ⟨-, rfl⟩ := token_unique hshape.isType_of_isBlank hword
      (fun c hc => htype.all c (hinner.subset hc)) hcgap hgap' hmore.stopsAt hblank heq
    exact absurd hmore (not_continues hname hgap'' (by decide) (by decide))

theorem stopsAt_modifiers {others : List String} (hothers : ∀ s ∈ others, IsModifier s)
    {front more : List Char} (hfront : Modifiers others front) (hmore : StopsAt isBlank more) :
    StopsAt isBlank (front ++ more) := by
  cases hfront with
  | none => exact hmore
  | more head tail =>
    obtain ⟨s, hs, _, gap, rfl, -, rfl⟩ := head
    rw [List.append_assoc, List.append_assoc]
    exact (hothers s hs).isWord.stopsAt (fun _ => isBlank_of_isWord) _

/-- A method and a class header with the same start share all their words: the word for the class
is the type of the method, and they have one name. -/
theorem name_unique (hwords : ∀ s ∈ words, IsModifier s) (hshape : MethodShape between isType)
    {others : List String} (hothers : ∀ s ∈ others, IsModifier s)
    {front mods type gap gap' tail : List Char} (hfront : Modifiers others front)
    (hmods : Modifiers words mods) (htype : IsRun isType type) (hgap' : IsRun isBlank gap')
    (hname : IsRun isWord name) (htail : StopsAt isWord tail) (hlast : ¬Continues (name ++ tail))
    (hgap : IsRun isBlank gap) (hclassName : IsRun isWord className)
    (hbehind : StopsAt isWord behind)
    (h : front ++ (type ++ (gap' ++ (name ++ tail))) =
      mods ++ ("class".toList ++ (gap ++ (className ++ behind)))) :
    name = className ∧ tail = behind := by
  have hblank := hname.stopsAt (fun _ => isBlank_of_isWord) tail
  have hblank' := hclassName.stopsAt (fun _ => isBlank_of_isWord) behind
  -- Each round takes the same word off both texts, until the method has no modifier left.
  induction hfront generalizing mods with
  | none =>
    have hisType {word : List Char} (hword : IsRun isWord word) (c : Char) (hc : c ∈ word) :
        isType c = true := hshape.isType_of_isWord c (hword.all c hc)
    cases hmods with
    | none =>
      obtain ⟨-, heq⟩ := token_unique hshape.isType_of_isBlank htype.all (hisType isRun_class) hgap'
        hgap hblank hblank' h
      exact run_unique hname.all hclassName.all htail hbehind heq
    | more head more =>
      obtain ⟨s, hs, _, sep, rfl, hsep, rfl⟩ := head
      have hmore := continues_header hwords more hgap hclassName behind
      rw [List.append_assoc, List.append_assoc] at h
      obtain ⟨-, heq⟩ := token_unique hshape.isType_of_isBlank htype.all
        (hisType (hwords s hs).isWord) hgap' hsep hblank hmore.stopsAt h
      exact absurd (heq ▸ hmore) hlast
  | more head others' ih =>
    obtain ⟨s, hs, _, sep, rfl, hsep, rfl⟩ := head
    have hfront := stopsAt_modifiers hothers others'
      (htype.stopsAt (fun _ => hshape.isBlank_of_isType) (gap' ++ (name ++ tail)))
    rw [List.append_assoc, List.append_assoc] at h
    cases hmods with
    | none =>
      obtain ⟨heq, -⟩ := token_unique (fun _ => Text.isWord_of_isBlank) (hothers s hs).isWord.all
        isRun_class.all hsep hgap hfront hblank' h
      exact absurd heq (hothers s hs).other
    | more head' more =>
      obtain ⟨s', hs', _, sep', rfl, hsep', rfl⟩ := head'
      have hmore := continues_header hwords more hgap hclassName behind
      rw [List.append_assoc, List.append_assoc] at h
      obtain ⟨-, heq⟩ := token_unique (fun _ => Text.isWord_of_isBlank) (hothers s hs).isWord.all
        (hwords s' hs').isWord.all hsep hsep' hfront hmore.stopsAt h
      exact ih more heq

theorem MethodAt.class_same (hwords : ∀ s ∈ words, IsModifier s)
    (hshape : MethodShape between isType) (hmethod : MethodAt between isType name rest cs)
    (hclass : ClassAt words className behind cs) :
    name = className ∧ ∃ gap, (∀ c ∈ gap, isBlank c = true) ∧ behind = gap ++ '(' :: rest := by
  obtain ⟨gap, front, type, gap', gap'', hgap, hfront, htype, hgap', hname, hgap'', rfl⟩ := hmethod
  obtain ⟨sep, mods, sep', hsep, hmods, hsep', hclassName, hbehind, heq⟩ := hclass
  obtain ⟨others, hothers, hmodifiers⟩ := hshape.modifiers
  have hfront := hmodifiers _ hfront
  have hblank := stopsAt_modifiers hothers hfront
    (htype.stopsAt (fun _ => hshape.isBlank_of_isType) (gap' ++ (name ++ (gap'' ++ '(' :: rest))))
  have hblank' := (continues_header hwords hmods hsep' hclassName behind).stopsAt
  obtain ⟨-, heq⟩ := run_unique hgap.all hsep.all hblank hblank' (List.append_cancel_left heq)
  obtain ⟨hnames, htails⟩ := name_unique hwords hshape hothers hfront hmods htype hgap' hname
    (stopsAt_mark hgap'' (by decide) rest) (not_continues hname hgap'' (by decide) (by decide)) hsep'
    hclassName hbehind heq
  exact ⟨hnames, gap'', hgap'', htails.symm⟩

theorem ClassAt.methodAt (hshape : MethodShape between isType)
    (hbetween : ∀ mods, Modifiers words mods → between mods)
    (hclass : ClassAt words className behind cs) {gap : List Char}
    (hgap : ∀ c ∈ gap, isBlank c = true) (hbehind : behind = gap ++ '(' :: rest) :
    MethodAt between isType className rest cs := by
  obtain ⟨sep, mods, sep', hsep, hmods, hsep', hclassName, -, rfl⟩ := hclass
  have hclass : IsRun isType "class".toList :=
    ⟨isRun_class.ne_nil, fun c hc => hshape.isType_of_isWord c (isRun_class.all c hc)⟩
  exact ⟨sep, mods, _, sep', gap, hsep, hbetween mods hmods, hclass, hsep', hclassName, hgap,
    by rw [hbehind]⟩

theorem MethodAt.class_before (hwords : ∀ s ∈ words, IsModifier s)
    (hmethod : MethodAt between isType name rest here) (hclass : ClassAt words className behind cs)
    (hsuffix : here <:+ cs) (hne : here ≠ cs) :
    here <:+ behind ∨ "public".toList <:+ className ∧ here = "public".toList ++ behind := by
  obtain ⟨sep, mods, sep', hsep, hmods, hsep', hclassName, hbehind, rfl⟩ := hclass
  obtain ⟨gap, front, type, gap', gap'', hgap, -, -, -, -, -, hhere⟩ := hmethod
  obtain ⟨tail, hp⟩ : ∃ tail, here = 'p' :: tail := ⟨_, hhere⟩
  rw [hp] at hsuffix hne
  -- Behind its first letter there is no `p` in a class header before the name.
  have hsuffix := suffix_ne_head hsuffix hne
  have hsuffix := suffix_of_notMem (by decide) hsuffix
  have hsuffix := suffix_of_notMem (notMem_blank hsep.all) hsuffix
  have hsuffix := suffix_of_notMem (notMem_modifiers hwords hmods) hsuffix
  have hsuffix := suffix_of_notMem (by decide) hsuffix
  have hsuffix := suffix_of_notMem (notMem_blank hsep'.all) hsuffix
  rcases suffix_append hsuffix with hsuffix | ⟨inner, hinner, -, heq⟩
  · exact .inl (hp ▸ hsuffix)
  · have hinner' (c : Char) (hc : c ∈ inner) : isWord c = true := hclassName.all c (hinner.subset hc)
    have hstop := hgap.stopsAt (fun _ => Text.isWord_of_isBlank)
      (front ++ (type ++ (gap' ++ (name ++ (gap'' ++ '(' :: rest)))))
    rw [← hp] at heq
    obtain ⟨rfl, -⟩ := run_unique isRun_public.all hinner' hstop hbehind (hhere.symm.trans heq)
    exact .inr ⟨hinner, heq⟩

end

theorem some1_first (p : Char → Bool) (cs : List Char) :
    some1 p cs = [] ∨ ∃ run rest shorter, IsRun p run ∧ StopsAt p rest ∧ cs = run ++ rest ∧
      some1 p cs = ⟨run.length, rest⟩ :: shorter := by
  cases cs with
  | nil => exact .inl rfl
  | cons c cs =>
    rw [some1_cons]
    split
    · rename_i hc
      obtain ⟨shorter, hmany⟩ := List.head?_eq_some_iff.mp (head?_many p cs)
      refine .inr ⟨c :: cs.takeWhile p, cs.dropWhile p, shorter.map (.plus 1), ?_, ?_, ?_, ?_⟩
      · exact ⟨List.cons_ne_nil _ _, List.forall_mem_cons.mpr ⟨hc, List.all_eq_true.mp List.all_takeWhile⟩⟩
      · intro d hd
        have hnot := List.head?_dropWhile_not p cs
        rw [Option.mem_def.mp hd] at hnot
        exact hnot
      · rw [List.cons_append, List.takeWhile_append_dropWhile]
      · rw [hmany, List.map_cons, Taken.plus_mk, List.length_cons, Nat.add_comm]
    · exact .inl rfl

theorem Header.parts_of_noTail {κ : Type} {h : Header κ} {leads : κ → List Char → Prop}
    (hlead : LeadReads h.lead leads) (htail : h.tail = word "") {cs : List Char} {hit : Hit κ}
    {size : Nat} (hread : h.readAt cs = some (hit, size)) :
    ∃ lead rest, leads hit.note lead ∧ IsRun h.inName hit.name ∧ StopsAt h.inName rest ∧
      cs = lead ++ (hit.name ++ rest) ∧ size = lead.length + hit.name.length := by
  obtain ⟨⟨note, _⟩, hfirst, hread⟩ := List.exists_of_findSome?_eq_some hread
  obtain ⟨lead, after, hlead, rfl, rfl⟩ := (hlead _ _ _).mp hfirst
  simp only at hread
  rcases some1_first h.inName after with hnone | ⟨name, rest, shorter, hname, hrest, rfl, hsome⟩
  · rw [hnone] at hread
    cases hread
  · rw [hsome, htail] at hread
    obtain ⟨rfl, rfl⟩ := Prod.mk.inj (Option.some.inj hread)
    simp only [List.take_left]
    exact ⟨lead, rest, hlead, hname, hrest, rfl, rfl⟩

theorem Reads.plain {r : Reading} {L : List Char → Prop} (h : Reads r L) :
    LeadReads (plain r) fun _ => L := by
  intro cs note taken
  rw [Scan.plain, h.lead () cs note taken]
  simp

theorem reads_modifiers (words : List String) : Reads (modifiers words) (Modifiers words) := by
  refine (reads_oneOf fun s _ => reads_spaced s).repeated ?_
  rintro ⟨s, -, a, gap, -, hgap, hnil⟩
  exact hgap.ne_nil (List.append_eq_nil_iff.mp hnil.symm).2

theorem modifiers_nil {cs : List Char} : Modifiers [] cs ↔ cs = [] := by
  constructor
  · intro h
    cases h with
    | none => rfl
    | more head tail =>
      obtain ⟨s, hs, -⟩ := head
      cases hs
  · rintro rfl
    exact .none

theorem modifiers_mono {words others : List String} (h : ∀ s ∈ words, s ∈ others) {cs : List Char}
    (hcs : Modifiers words cs) : Modifiers others cs := by
  induction hcs with
  | none => exact .none
  | more head tail ih =>
    obtain ⟨s, hs, hhead⟩ := head
    exact .more ⟨s, h s hs, hhead⟩ ih

namespace Qualified

/-- The headers of a grammar: what stands before the word for a class, between what is public and
the type of a method, and in that type. -/
structure Declares (g : Qualified) (words : List String) (between : List Char → Prop)
    (isType : Char → Bool) : Prop where
  isModifier : ∀ s ∈ words, IsModifier s
  shape : MethodShape between isType
  between_of_modifiers : ∀ mods, Modifiers words mods → between mods
  classLead : LeadReads g.classHeader.lead fun _ =>
    Then (Spaced "public") (Then (Modifiers words) (Spaced "class"))
  className : g.classHeader.inName = isWord
  classTail : g.classHeader.tail = word ""
  method : g.method.Spells
    (fun _ => Then (Spaced "public") (Then between (Then (IsRun isType) (IsRun isBlank))))
    (Then (fun front => ∀ c ∈ front, isBlank c = true) (· = ['(']))
  methodName : g.method.inName = isWord
  lineStart : g.method.lineStart = false

section

variable {g : Qualified} {words : List String} {between : List Char → Prop} {isType : Char → Bool}
  (hg : g.Declares words between isType) {cs : List Char} {hit : Hit Unit} {size : Nat}
include hg

theorem Declares.classAt (hread : g.classHeader.readAt cs = some (hit, size)) :
    ∃ rest, ClassAt words hit.name rest cs ∧ cs.length = size + rest.length := by
  obtain ⟨_, rest, hlead, hname, hrest, rfl, rfl⟩ :=
    Header.parts_of_noTail hg.classLead hg.classTail hread
  obtain ⟨_, _, ⟨_, gap, rfl, hgap, rfl⟩, ⟨mods, _, hmods, ⟨_, gap', rfl, hgap', rfl⟩, rfl⟩, rfl⟩ :=
    hlead
  rw [hg.className] at hname hrest
  refine ⟨rest, ⟨gap, mods, gap', hgap, hmods, hgap', hname, hrest, ?_⟩, ?_⟩
  · simp only [List.append_assoc]
  · simp only [List.length_append]
    omega

theorem Declares.methodAt (hread : g.method.readAt cs = some (hit, size)) :
    ∃ rest, MethodAt between isType hit.name rest cs ∧ cs.length = size + rest.length := by
  obtain ⟨-, _, _, rest, hlead, hname, ⟨gap'', _, hgap'', rfl, rfl⟩, rfl, rfl⟩ :=
    hg.method.parts hread
  obtain ⟨_, _, ⟨_, gap, rfl, hgap, rfl⟩, ⟨front, _, hfront, ⟨type, gap', htype, hgap', rfl⟩, rfl⟩,
    rfl⟩ := hlead
  rw [hg.methodName] at hname
  refine ⟨rest, ⟨gap, front, type, gap', gap'', hgap, hfront, htype, hgap', hname, hgap'', ?_⟩, ?_⟩
  · simp only [List.append_assoc, List.singleton_append]
  · simp only [List.length_append]
    omega

theorem Declares.isSome_readAt {name rest : List Char} (h : MethodAt between isType name rest cs) :
    (g.method.readAt cs).isSome := by
  obtain ⟨gap, front, type, gap', gap'', hgap, hfront, htype, hgap', hname, hgap'', rfl⟩ := h
  rw [← hg.methodName] at hname
  have hsome := hg.method.isSome_readAt ()
    ⟨_, _, ⟨_, gap, rfl, hgap, rfl⟩, ⟨front, _, hfront, ⟨type, gap', htype, hgap', rfl⟩, rfl⟩, rfl⟩
    hname ⟨gap'', _, hgap'', rfl, rfl⟩ rest
  simpa only [List.append_assoc, List.singleton_append] using hsome

/-- No method reaches over the start of a class header. -/
theorem Declares.clear (hread : g.classHeader.readAt cs = some (hit, size)) (front : List Char) :
    g.method.Clear front cs := by
  intro here hhere hne method extent hmethod
  obtain ⟨behind, hclass, -⟩ := hg.classAt hread
  obtain ⟨rest, hmethodAt, hlength⟩ := hg.methodAt hmethod
  have hsuffix := hmethodAt.class_behind hg.isModifier hg.shape hclass (List.suffix_append here cs)
    (by simpa using hne)
  have hle := hsuffix.length_le
  rw [List.length_append] at hlength
  omega

end

theorem notMem_of_isBlank {marks : List Char} (hmarks : marks.any isBlank = false) {c : Char}
    (h : isBlank c = true) : c ∉ marks := by
  intro hmem
  rw [List.any_eq_true.mpr ⟨c, hmem, h⟩] at hmarks
  cases hmarks

theorem isCSharpType_of_isBlank {c : Char} (h : isBlank c = true) : isCSharpType c = false := by
  have hmarks : c ∉ ['<', '>', ',', '[', ']'] := notMem_of_isBlank (by decide) h
  rw [isCSharpType, Text.isWord_of_isBlank h, Bool.false_or, decide_eq_false hmarks]

theorem isJavaType_of_isBlank {c : Char} (h : isBlank c = true) : isJavaType c = false := by
  have hmarks : c ∉ ['.', '?'] := notMem_of_isBlank (by decide) h
  rw [isJavaType, isCSharpType_of_isBlank h, Bool.false_or, decide_eq_false hmarks]

theorem declares_csharp :
    csharp.Declares [] (fun cs => Spaced "async" cs ∨ cs = []) isCSharpType where
  isModifier := List.forall_mem_nil _
  shape :=
    { isType_of_isWord := fun c hc => by simp [isCSharpType, hc]
      isType_of_isBlank := fun _ => isCSharpType_of_isBlank
      modifiers := by
        refine ⟨["async"], by decide, ?_⟩
        rintro cs (hcs | rfl)
        · rw [← List.append_nil cs]
          exact .more ⟨"async", List.mem_cons_self, hcs⟩ .none
        · exact .none }
  between_of_modifiers := fun mods hmods => .inr (modifiers_nil.mp hmods)
  classLead := by
    have hnone : Then (Modifiers []) (Spaced "class") = Spaced "class" := by
      funext cs
      simp [Then, modifiers_nil]
    rw [hnone]
    exact ((reads_spaced "public").seq (reads_spaced "class")).plain
  className := rfl
  classTail := rfl
  method := by
    have htype := (reads_some1 isCSharpType).seq (reads_some1 isBlank)
    have hlead := (reads_spaced "async").optional.seq htype
    exact ⟨((reads_spaced "public").seq hlead).plain, reads_openParen⟩
  methodName := rfl
  lineStart := rfl

theorem declares_java :
    java.Declares ["abstract", "final", "static"]
      (Modifiers ["static", "final", "abstract", "synchronized"]) isJavaType where
  isModifier := by decide
  shape :=
    { isType_of_isWord := fun c hc => by simp [isJavaType, isCSharpType, hc]
      isType_of_isBlank := fun _ => isJavaType_of_isBlank
      modifiers := ⟨_, by decide, fun _ => id⟩ }
  between_of_modifiers := fun _ => modifiers_mono (by decide)
  classLead := by
    have hclass := (reads_modifiers ["abstract", "final", "static"]).seq (reads_spaced "class")
    exact ((reads_spaced "public").seq hclass).plain
  className := rfl
  classTail := rfl
  method := by
    have htype := (reads_some1 isJavaType).seq (reads_some1 isBlank)
    have hlead := (reads_modifiers ["static", "final", "abstract", "synchronized"]).seq htype
    exact ⟨((reads_spaced "public").seq hlead).plain, reads_openParen⟩
  methodName := rfl
  lineStart := rfl

end Qualified

end Scan

end ApiAtlas
