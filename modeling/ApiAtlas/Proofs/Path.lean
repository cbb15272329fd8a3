import ApiAtlas.FileTree.Walk
import ApiAtlas.Proofs.Utf8
import Mathlib.Data.List.Basic
import Mathlib.Data.List.Induction

/-!
Paths part by part. A slash splits a path in two whose parts stand side by side, so a name put below
a directory is one part more, and the rest of the way is that of the directory.
-/
namespace ApiAtlas

namespace Path

theorem splitSlash_append_slash (left right : Bytes) :
    splitSlash (left ++ slash :: right) = splitSlash left ++ splitSlash right := by
  induction left with
  | nil => simp [splitSlash]
  | cons b left ih =>
    rw [List.cons_append, splitSlash, splitSlash]
    split
    · rw [ih, List.cons_append]
    · rw [ih]
      cases hparts : splitSlash left with
      | nil => exact absurd hparts (splitSlash_ne_nil left)
      | cons part parts => rfl

theorem splitSlash_of_notMem {bs : Bytes} (h : slash ∉ bs) : splitSlash bs = [bs] := by
  induction bs with
  | nil => rfl
  | cons b bs ih =>
    rw [List.mem_cons, not_or] at h
    rw [splitSlash, if_neg (Ne.symm h.1), ih h.2]

theorem noSlash_of_mem_splitSlash {bs part : Bytes} (h : part ∈ splitSlash bs) : slash ∉ part := by
  induction bs generalizing part with
  | nil => simp_all [splitSlash]
  | cons b bs ih =>
    rw [splitSlash] at h
    split at h
    · rcases List.mem_cons.1 h with rfl | h
      · simp
      · exact ih h
    · rename_i hb
      split at h
      · rename_i first parts hparts
        rw [hparts] at ih
        rcases List.mem_cons.1 h with rfl | h
        · rw [List.mem_cons, not_or]
          exact ⟨Ne.symm hb, ih List.mem_cons_self⟩
        · exact ih (List.mem_cons_of_mem first h)
      · rename_i hparts
        exact absurd hparts (splitSlash_ne_nil bs)

def way (p : Path) : List Bytes := (splitSlash p.bytes).filter (· ≠ [])

theorem way_append_slash (front back : Bytes) :
    way ⟨front ++ slash :: back⟩ = way ⟨front⟩ ++ way ⟨back⟩ := by
  unfold way
  rw [splitSlash_append_slash, List.filter_append]

theorem noSlash_of_mem_way {p : Path} {part : Bytes} (h : part ∈ p.way) : slash ∉ part :=
  noSlash_of_mem_splitSlash (List.mem_of_mem_filter h)

theorem ne_nil_of_mem_way {p : Path} {part : Bytes} (h : part ∈ p.way) : part ≠ [] :=
  of_decide_eq_true (List.mem_filter.1 h).2

/-- A name a directory can give to a child. -/
structure IsName (name : Bytes) : Prop where
  ne_nil : name ≠ []
  noSlash : slash ∉ name
  ne_dot : name ≠ [dot]
  ne_dots : name ≠ [dot, dot]

theorem IsName.not_void {name : Bytes} (h : IsName name) : ¬(name = [] ∨ name = [dot]) :=
  not_or.mpr ⟨h.ne_nil, h.ne_dot⟩

theorem IsName.not_isAbsolute {name : Bytes} (h : IsName name) : isAbsolute ⟨name⟩ = false := by
  unfold isAbsolute
  cases name with
  | nil => rfl
  | cons b bs =>
    have hb : b ≠ slash := fun he => h.noSlash (he ▸ List.mem_cons_self)
    simpa using hb

def frontOf (dir : Path) : Bytes :=
  if dir.bytes = [] ∨ dir.bytes.getLast? = some slash then dir.bytes else dir.bytes ++ [slash]

theorem bytes_join_of_relative {p : Path} (h : p.isAbsolute = false) (dir : Path) :
    (dir.join p).bytes = dir.frontOf ++ p.bytes := by
  unfold join frontOf
  rw [h, if_neg Bool.false_ne_true]
  split
  · rfl
  · simp

theorem bytes_join {name : Bytes} (h : IsName name) (dir : Path) :
    (dir.join ⟨name⟩).bytes = dir.frontOf ++ name :=
  bytes_join_of_relative h.not_isAbsolute dir

theorem frontOf_cases (dir : Path) :
    dir.frontOf = [] ∨ ∃ front, dir.frontOf = front ++ [slash] := by
  unfold frontOf
  split
  · rename_i h
    rcases h with hempty | hslash
    · exact .inl hempty
    · exact .inr (List.getLast?_eq_some_iff.mp hslash)
  · exact .inr ⟨dir.bytes, rfl⟩

theorem length_le_frontOf (dir : Path) : dir.bytes.length ≤ dir.frontOf.length := by
  unfold frontOf
  split
  · exact Nat.le_refl _
  · rw [List.length_append]
    exact Nat.le_add_right _ _

theorem join_injective_of_relative {p q : Path} (hp : p.isAbsolute = false)
    (hq : q.isAbsolute = false) (dir : Path) (h : dir.join p = dir.join q) : p = q := by
  have hbytes := congrArg Path.bytes h
  rw [bytes_join_of_relative hp, bytes_join_of_relative hq] at hbytes
  exact Path.ext (List.append_cancel_left hbytes)

theorem join_injective {left right : Bytes} (hleft : IsName left) (hright : IsName right)
    (dir : Path) (h : dir.join ⟨left⟩ = dir.join ⟨right⟩) : left = right :=
  congrArg Path.bytes
    (join_injective_of_relative hleft.not_isAbsolute hright.not_isAbsolute dir h)

theorem way_join {name : Bytes} (h : IsName name) (dir : Path) :
    (dir.join ⟨name⟩).way = dir.way ++ [name] := by
  have hname : splitSlash name = [name] := splitSlash_of_notMem h.noSlash
  have hkeep : [name].filter (· ≠ []) = [name] := by simp [h.ne_nil]
  unfold way
  rw [bytes_join h, frontOf]
  split
  · rename_i hfront
    rcases hfront with hempty | hslash
    · rw [hempty, List.nil_append, hname, hkeep]
      rfl
    · obtain ⟨front, hfront⟩ := List.getLast?_eq_some_iff.1 hslash
      rw [hfront, List.append_assoc, List.singleton_append, splitSlash_append_slash,
        splitSlash_append_slash, List.filter_append, List.filter_append, hname, hkeep]
      simp [splitSlash]
  · rw [List.append_assoc, List.singleton_append, splitSlash_append_slash, List.filter_append,
      hname, hkeep]

/-- A path from a start to something below it: names with a slash between them. -/
def IsPlain (p : Path) : Prop := ∀ part ∈ splitSlash p.bytes, IsName part

theorem isPlain_name {name : Bytes} (h : IsName name) : IsPlain ⟨name⟩ := by
  intro part hpart
  rw [splitSlash_of_notMem h.noSlash, List.mem_singleton] at hpart
  rw [hpart]
  exact h

theorem joinSlash_concat (parts : List Bytes) (name : Bytes) (h : parts ≠ []) :
    joinSlash (parts ++ [name]) = joinSlash parts ++ slash :: name := by
  induction parts with
  | nil => exact absurd rfl h
  | cons part parts ih =>
    cases parts with
    | nil => rfl
    | cons next parts =>
      have hrest := ih (List.cons_ne_nil next parts)
      simp only [List.cons_append, joinSlash, List.append_assoc] at hrest ⊢
      rw [hrest]

theorem IsPlain.exists_name {p : Path} (h : p.IsPlain) :
    ∃ front name, p.bytes = front ++ name ∧ IsName name ∧
      (front = [] ∨ ∃ rest, front = rest ++ [slash]) := by
  have hjoin := joinSlash_splitSlash p.bytes
  rcases List.eq_nil_or_concat (splitSlash p.bytes) with hnil | ⟨parts, name, hparts⟩
  · exact absurd hnil (splitSlash_ne_nil p.bytes)
  · rw [List.concat_eq_append] at hparts
    have hname : IsName name := by
      apply h
      rw [hparts]
      exact List.mem_append_right parts List.mem_cons_self
    rw [hparts] at hjoin
    cases parts with
    | nil => exact ⟨[], name, hjoin.symm, hname, .inl rfl⟩
    | cons part parts =>
      refine ⟨joinSlash (part :: parts) ++ [slash], name, ?_, hname, .inr ⟨_, rfl⟩⟩
      rw [← hjoin, joinSlash_concat _ _ (List.cons_ne_nil part parts), List.append_assoc,
        List.singleton_append]

theorem IsPlain.ne_nil {p : Path} (h : p.IsPlain) : p.bytes ≠ [] := by
  intro hnil
  have hpart := h [] (by simp [hnil, splitSlash])
  exact hpart.ne_nil rfl

theorem IsPlain.not_isAbsolute {p : Path} (h : p.IsPlain) : p.isAbsolute = false := by
  unfold isAbsolute
  cases hbytes : p.bytes with
  | nil => rfl
  | cons b bs =>
    have hb : b ≠ slash := by
      intro hslash
      have hpart := h [] (by simp [hbytes, hslash, splitSlash])
      exact hpart.ne_nil rfl
    simpa using hb

theorem IsPlain.getLast? {p : Path} (h : p.IsPlain) : p.bytes.getLast? ≠ some slash := by
  obtain ⟨front, name, hbytes, hname, -⟩ := h.exists_name
  rw [hbytes, List.getLast?_append_of_ne_nil _ hname.ne_nil]
  exact fun he => hname.noSlash (List.mem_of_getLast? he)

theorem isPlain_below {p : Path} (h : p.bytes = [] ∨ p.IsPlain) {name : Bytes}
    (hname : IsName name) : (p.below name).IsPlain := by
  unfold Path.below
  split
  · exact isPlain_name hname
  · rename_i hne
    rcases h with hnil | hplain
    · exact absurd hnil hne
    · intro part hpart
      rw [splitSlash_append_slash, List.mem_append] at hpart
      rcases hpart with hpart | hpart
      · exact hplain part hpart
      · exact isPlain_name hname part hpart

/-- Whether something is strictly below a path, with the same names on the way to it. -/
def Above (p q : Path) : Prop := p.bytes ++ [slash] <+: q.bytes

def AtOrAbove (p q : Path) : Prop := p = q ∨ p.Above q

theorem above_iff {p q : Path} : p.Above q ↔ ∃ rest, q.bytes = p.bytes ++ slash :: rest := by
  constructor
  · rintro ⟨rest, hrest⟩
    exact ⟨rest, by rw [← hrest, List.append_assoc, List.singleton_append]⟩
  · rintro ⟨rest, hrest⟩
    exact ⟨rest, by rw [hrest, List.append_assoc, List.singleton_append]⟩

theorem Above.length_lt {p q : Path} (h : p.Above q) : p.bytes.length < q.bytes.length := by
  have hlength := h.length_le
  rw [List.length_append, List.length_singleton] at hlength
  omega

theorem Above.slash_mem {p q : Path} (h : p.Above q) : slash ∈ q.bytes :=
  h.subset (List.mem_append_right _ List.mem_cons_self)

theorem AtOrAbove.isPrefix {p q : Path} (h : p.AtOrAbove q) : p.bytes <+: q.bytes := by
  rcases h with rfl | h
  · exact List.prefix_rfl
  · exact (List.prefix_append _ _).trans h

theorem AtOrAbove.length_le {p q : Path} (h : p.AtOrAbove q) : p.bytes.length ≤ q.bytes.length :=
  h.isPrefix.length_le

theorem Above.trans {p q r : Path} (h : p.Above q) (h' : q.AtOrAbove r) : p.Above r :=
  List.IsPrefix.trans h h'.isPrefix

theorem AtOrAbove.trans {p q r : Path} (h : p.AtOrAbove q) (h' : q.AtOrAbove r) :
    p.AtOrAbove r := by
  rcases h with rfl | h
  · exact h'
  · exact .inr (h.trans h')

theorem AtOrAbove.above_of_length_lt {p q r : Path} (hp : p.AtOrAbove r) (hq : q.AtOrAbove r)
    (h : p.bytes.length < q.bytes.length) : p.Above q := by
  rcases hp with rfl | hp
  · exact absurd hq.length_le (Nat.not_le.mpr h)
  · apply List.prefix_of_prefix_length_le hp hq.isPrefix
    rw [List.length_append, List.length_singleton]
    exact h

theorem AtOrAbove.eq_of_length_eq {p q r : Path} (hp : p.AtOrAbove r) (hq : q.AtOrAbove r)
    (h : p.bytes.length = q.bytes.length) : p = q :=
  Path.ext ((List.prefix_of_prefix_length_le hp.isPrefix hq.isPrefix (Nat.le_of_eq h)).eq_of_length h)

theorem AtOrAbove.total {p q r : Path} (hp : p.AtOrAbove r) (hq : q.AtOrAbove r) :
    p.Above q ∨ q.AtOrAbove p := by
  rcases Nat.lt_trichotomy p.bytes.length q.bytes.length with h | h | h
  · exact .inl (hp.above_of_length_lt hq h)
  · exact .inr (.inl (hq.eq_of_length_eq hp h.symm))
  · exact .inr (.inr (hq.above_of_length_lt hp h))

theorem AtOrAbove.isPlain {p q : Path} (h : p.AtOrAbove q) (hq : q.IsPlain) : p.IsPlain := by
  rcases h with rfl | h
  · exact hq
  · obtain ⟨rest, hrest⟩ := above_iff.mp h
    intro part hpart
    apply hq
    rw [hrest, splitSlash_append_slash]
    exact List.mem_append_left _ hpart

theorem IsPlain.behind_slash {p : Path} (h : p.IsPlain) {front rest : Bytes}
    (hbytes : p.bytes = front ++ slash :: rest) : (⟨rest⟩ : Path).IsPlain := by
  intro part hpart
  apply h
  rw [hbytes, splitSlash_append_slash]
  exact List.mem_append_right _ hpart

theorem Above.length_add_two_le {p q : Path} (h : p.Above q) (hq : q.IsPlain) :
    p.bytes.length + 2 ≤ q.bytes.length := by
  obtain ⟨rest, hrest⟩ := above_iff.mp h
  have hpos := List.length_pos_iff.mpr (hq.behind_slash hrest).ne_nil
  rw [hrest, List.length_append, List.length_cons]
  simp only at hpos
  omega

theorem above_child (within : Path) (name : Bytes) :
    within.bytes = [] ∨ within.Above (within.below name) := by
  by_cases hempty : within.bytes = []
  · exact .inl hempty
  · rw [above_iff, below, if_neg hempty]
    exact .inr ⟨name, rfl⟩

theorem above_below {within p v : Path} {name : Bytes} (hname : IsName name)
    (hp : within.bytes = [] ∨ within.Above p) (hpv : p.Above v)
    (hv : (within.below name).AtOrAbove v) : (within.below name).AtOrAbove p := by
  rcases hv.total (.inr hpv : p.AtOrAbove v) with h | h
  · exact .inr h
  · rcases h with h | h
    · exact .inl h.symm
    · -- Nothing is between the start and its child.
      exfalso
      apply hname.noSlash
      obtain ⟨rest, hrest⟩ := above_iff.mp h
      unfold below at hrest
      split at hrest
      · simp only at hrest
        rw [hrest]
        simp
      · rename_i hne
        obtain ⟨front, hfront⟩ := above_iff.mp (hp.resolve_left hne)
        simp only [hfront, List.append_assoc, List.cons_append, List.append_cancel_left_eq,
          List.cons.injEq, true_and] at hrest
        rw [hrest]
        simp

theorem join_below {p : Path} (h : p.IsPlain) {name : Bytes} (hname : IsName name)
    (root : Path) : (root.join p).join ⟨name⟩ = root.join (p.below name) := by
  have hbelow : (p.below name).isAbsolute = false := (isPlain_below (.inr h) hname).not_isAbsolute
  have hlast : (root.join p).bytes.getLast? ≠ some slash := by
    rw [bytes_join_of_relative h.not_isAbsolute, List.getLast?_append_of_ne_nil _ h.ne_nil]
    exact h.getLast?
  have hne : (root.join p).bytes ≠ [] := by
    rw [bytes_join_of_relative h.not_isAbsolute]
    exact List.append_ne_nil_of_right_ne_nil _ h.ne_nil
  apply Path.ext
  rw [bytes_join hname, bytes_join_of_relative hbelow, frontOf, if_neg (not_or.mpr ⟨hne, hlast⟩),
    bytes_join_of_relative h.not_isAbsolute, Path.below, if_neg h.ne_nil]
  simp

theorem length_lead_le (p : Path) : p.lead.length ≤ 1 := by
  unfold lead
  split
  · simp
  · split
    · simp
    · split <;> simp

theorem lead_name {name : Bytes} (h : IsName name) : lead ⟨name⟩ = [] := by
  unfold lead
  cases name with
  | nil => rfl
  | cons b rest =>
    have hslash := h.noSlash
    rw [List.mem_cons, not_or] at hslash
    have hb : b ≠ slash := Ne.symm hslash.1
    have hdot : ¬ (b = dot ∧ (rest = [] ∨ rest.head? = some slash)) := by
      rintro ⟨hb, hrest | hrest⟩
      · exact h.ne_dot (by rw [hb, hrest])
      · exact hslash.2 (List.mem_of_head? hrest)
    simp only [hb, hdot, if_false]

theorem getLast?_splitSlash_drop (rest : Bytes) {name : Bytes} (hname : slash ∉ name) {k : Nat}
    (hk : k ≤ rest.length + 1) :
    (splitSlash ((rest ++ slash :: name).drop k)).getLast? = some name := by
  by_cases hrest : k ≤ rest.length
  · rw [List.drop_append_of_le_length hrest, splitSlash_append_slash, splitSlash_of_notMem hname,
      List.getLast?_concat]
  · have hall : k = (rest ++ [slash]).length := by
      rw [List.length_append, List.length_singleton]
      omega
    have hsplit : rest ++ slash :: name = (rest ++ [slash]) ++ name := by simp
    rw [hall, hsplit, List.drop_left, splitSlash_of_notMem hname]
    rfl

theorem fileName?_eq {p : Path} {front name : Bytes} (hbytes : p.bytes = front ++ name)
    (hname : IsName name) (hfront : front = [] ∨ ∃ rest, front = rest ++ [slash]) :
    p.fileName? = some name := by
  have hlast : (splitSlash (p.bytes.drop p.lead.length)).getLast? = some name := by
    rcases hfront with hnil | ⟨rest, hrest⟩
    · have hp : p = ⟨name⟩ := by
        apply Path.ext
        rw [hbytes, hnil, List.nil_append]
      rw [hp, lead_name hname, List.length_nil, List.drop_zero, splitSlash_of_notMem hname.noSlash]
      rfl
    · rw [hbytes, hrest, List.append_assoc, List.singleton_append]
      apply getLast?_splitSlash_drop rest hname.noSlash
      have hlead := length_lead_le p
      omega
  have hvoid : isVoidPart name = false := by simp [isVoidPart, hname.ne_nil, hname.ne_dot]
  obtain ⟨parts, hparts⟩ := List.getLast?_eq_some_iff.mp hlast
  have hkept : p.parts = parts ++ [name] := by
    unfold Path.parts dropVoidEnd
    rw [hparts]
    simp [hvoid]
  unfold fileName?
  rw [hkept]
  simp [hname.ne_dots]

theorem fileName?_join {p : Path} (h : p.IsPlain) (root : Path) :
    (root.join p).fileName? = p.fileName? := by
  obtain ⟨front, name, hbytes, hname, hfront⟩ := h.exists_name
  rw [fileName?_eq hbytes hname hfront]
  have hjoin : (root.join p).bytes = (root.frontOf ++ front) ++ name := by
    rw [bytes_join_of_relative h.not_isAbsolute, hbytes, List.append_assoc]
  apply fileName?_eq hjoin hname
  rcases hfront with hnil | ⟨rest, hrest⟩
  · rw [hnil, List.append_nil]
    exact root.frontOf_cases
  · exact .inr ⟨root.frontOf ++ rest, by rw [hrest, List.append_assoc]⟩

theorem isAbsolute_join {name : Bytes} (h : IsName name) (dir : Path) :
    (dir.join ⟨name⟩).isAbsolute = dir.isAbsolute := by
  have hname := h.not_isAbsolute
  unfold isAbsolute at hname ⊢
  rw [bytes_join h, frontOf]
  cases hbytes : dir.bytes with
  | nil => simpa using hname
  | cons b bs => split <;> rfl

def ofNames (location : Location) : Path := ⟨joinSlash location⟩

/-- The path of a location below a start: its names put below the start one after the other. -/
def along (root : Path) (location : Location) : Path :=
  location.foldl (fun path name => path.join ⟨name⟩) root

theorem along_concat (root : Path) (front : Location) (name : Bytes) :
    root.along (front ++ [name]) = (root.along front).join ⟨name⟩ := by
  unfold along
  rw [List.foldl_append]
  rfl

@[simp] theorem ofNames_nil : ofNames [] = ⟨[]⟩ := rfl

theorem joinSlash_append {front back : Location} (hfront : front ≠ []) (hback : back ≠ []) :
    joinSlash (front ++ back) = joinSlash front ++ slash :: joinSlash back := by
  induction front with
  | nil => exact absurd rfl hfront
  | cons name front ih =>
    cases front with
    | nil =>
      cases back with
      | nil => exact absurd rfl hback
      | cons next back => rfl
    | cons next front =>
      have hrest := ih (List.cons_ne_nil next front)
      simp only [List.cons_append, joinSlash, List.append_assoc] at hrest ⊢
      rw [hrest]

theorem splitSlash_joinSlash {location : Location} (hne : location ≠ [])
    (h : ∀ name ∈ location, slash ∉ name) : splitSlash (joinSlash location) = location := by
  induction location with
  | nil => exact absurd rfl hne
  | cons name rest ih =>
    rw [List.forall_mem_cons] at h
    cases rest with
    | nil => exact splitSlash_of_notMem h.1
    | cons next rest =>
      rw [joinSlash, splitSlash_append_slash, splitSlash_of_notMem h.1,
        ih (List.cons_ne_nil next rest) h.2]
      · rfl
      · exact List.cons_ne_nil next rest

theorem ofNames_splitSlash (p : Path) : ofNames (splitSlash p.bytes) = p := by
  apply Path.ext
  exact joinSlash_splitSlash p.bytes

section

variable {location : Location} (h : ∀ name ∈ location, IsName name)
include h

theorem splitSlash_ofNames (hne : location ≠ []) :
    splitSlash (ofNames location).bytes = location :=
  splitSlash_joinSlash hne fun name hname => (h name hname).noSlash

theorem isPlain_ofNames (hne : location ≠ []) : (ofNames location).IsPlain := by
  intro part hpart
  rw [splitSlash_ofNames h hne] at hpart
  exact h part hpart

theorem below_ofNames (name : Bytes) :
    (ofNames location).below name = ofNames (location ++ [name]) := by
  unfold below
  cases location with
  | nil => rfl
  | cons first rest =>
    have hne := (isPlain_ofNames h (List.cons_ne_nil first rest)).ne_nil
    rw [if_neg hne]
    apply Path.ext
    exact (joinSlash_append (List.cons_ne_nil first rest) (List.cons_ne_nil name [])).symm

theorem above_ofNames_iff (hne : location ≠ []) (p : Path) :
    p.Above (ofNames location) ↔
      ∃ front name rest, location = front ++ name :: rest ∧ front ≠ [] ∧ p = ofNames front := by
  rw [above_iff]
  constructor
  · rintro ⟨rest, hrest⟩
    have hsplit := splitSlash_ofNames h hne
    rw [hrest, splitSlash_append_slash] at hsplit
    cases hback : splitSlash rest with
    | nil => exact absurd hback (splitSlash_ne_nil rest)
    | cons name back =>
      rw [hback] at hsplit
      exact ⟨splitSlash p.bytes, name, back, hsplit.symm, splitSlash_ne_nil p.bytes,
        (ofNames_splitSlash p).symm⟩
  · rintro ⟨front, name, rest, hlocation, hfront, rfl⟩
    refine ⟨joinSlash (name :: rest), ?_⟩
    rw [hlocation]
    exact joinSlash_append hfront (List.cons_ne_nil name rest)

theorem along_eq_join (root : Path) (hne : location ≠ []) :
    root.along location = root.join (ofNames location) := by
  induction location using List.reverseRecOn with
  | nil => exact absurd rfl hne
  | append_singleton front name ih =>
    rw [List.forall_mem_append, List.forall_mem_singleton] at h
    rw [along_concat]
    by_cases hfront : front = []
    · rw [hfront]
      rfl
    · rw [ih h.1 hfront, join_below (isPlain_ofNames h.1 hfront) h.2, below_ofNames h.1]

end

theorem fileName?_along {name : Bytes} (h : IsName name) (root : Path) (front : Location) :
    (root.along (front ++ [name])).fileName? = some name := by
  rw [along_concat]
  exact fileName?_eq (bytes_join h _) h (frontOf_cases _)

theorem length_along_le (root : Path) {front location : Location} (hfront : front <+: location)
    (h : ∀ name ∈ location, IsName name) :
    (root.along front).bytes.length ≤ (root.along location).bytes.length := by
  obtain ⟨back, rfl⟩ := hfront
  induction back using List.reverseRecOn with
  | nil => rw [List.append_nil]
  | append_singleton back name ih =>
    rw [← List.append_assoc, List.forall_mem_append, List.forall_mem_singleton] at h
    rw [← List.append_assoc, along_concat, bytes_join h.2, List.length_append]
    have hback := ih h.1
    have hfront := length_le_frontOf (root.along (front ++ back))
    omega

theorem way_along (root : Path) {location : Location} (h : ∀ name ∈ location, IsName name) :
    (root.along location).way = root.way ++ location := by
  induction location using List.reverseRecOn with
  | nil => simp [along]
  | append_singleton front name ih =>
    rw [List.forall_mem_append, List.forall_mem_singleton] at h
    rw [along_concat, way_join h.2, ih h.1, List.append_assoc]

theorem isAbsolute_along (root : Path) {location : Location} (h : ∀ name ∈ location, IsName name) :
    (root.along location).isAbsolute = root.isAbsolute := by
  induction location using List.reverseRecOn with
  | nil => rfl
  | append_singleton front name ih =>
    rw [List.forall_mem_append, List.forall_mem_singleton] at h
    rw [along_concat, isAbsolute_join h.2, ih h.1]

theorem isSome_toText? (p : Path) : p.toText?.isSome = (Utf8.decode p.bytes).isSome :=
  Option.isSome_map

theorem isSome_toText?_ofString (s : String) : (ofString s).toText?.isSome := by
  rw [isSome_toText?, ofString, Bytes.ofString, Utf8.decode_encode]
  rfl

theorem isSome_toText?_join {q : Path} (h : q.isAbsolute = false) (p : Path) :
    (p.join q).toText?.isSome ↔ p.toText?.isSome ∧ q.toText?.isSome := by
  rw [isSome_toText?, isSome_toText?, isSome_toText?]
  unfold join
  rw [h, if_neg Bool.false_ne_true]
  split
  · rename_i hfront
    rcases hfront with hempty | hslash
    · rw [hempty]
      simp
    · obtain ⟨front, hfront⟩ := List.getLast?_eq_some_iff.mp hslash
      rw [hfront, List.append_assoc, List.singleton_append, Utf8.isSome_decode_append_slash,
        Utf8.isSome_decode_append_slash]
      simp
  · exact Utf8.isSome_decode_append_slash _ _

theorem isSome_toText?_along (root : Path) {location : Location}
    (h : ∀ name ∈ location, IsName name) :
    (root.along location).toText?.isSome ↔
      root.toText?.isSome ∧ ∀ name ∈ location, (Utf8.decode name).isSome := by
  induction location using List.reverseRecOn with
  | nil => simp [along]
  | append_singleton front name ih =>
    rw [List.forall_mem_append, List.forall_mem_singleton] at h ⊢
    rw [along_concat, isSome_toText?_join h.2.not_isAbsolute, ih h.1, and_assoc,
      isSome_toText? ⟨name⟩]

def dotted (n : Nat) : Path := ⟨(List.replicate n [dot, slash]).flatten⟩

theorem bytes_dotted_succ (n : Nat) :
    (dotted (n + 1)).bytes = [dot] ++ slash :: (dotted n).bytes := rfl

theorem way_dotted (n : Nat) : (dotted n).way = List.replicate n [dot] := by
  induction n with
  | zero => rfl
  | succ n ih =>
    have hway := way_append_slash [dot] (dotted n).bytes
    rw [← bytes_dotted_succ] at hway
    rw [hway, List.replicate_succ, ← ih]
    rfl

theorem length_dotted (n : Nat) : (dotted n).bytes.length = 2 * n := by
  simp [dotted, Nat.mul_comm]

theorem isDash_dotted_succ (n : Nat) : (dotted (n + 1)).isDash = false := rfl

theorem spelled_dotted_succ (n : Nat) :
    (dotted (n + 1)).bytes ≠ [] ∧ (dotted (n + 1)).bytes ≠ Bytes.ofString "-" := by
  rw [bytes_dotted_succ]
  exact ⟨by simp, fun h => absurd (List.cons.inj h).1 (by decide)⟩

end Path

namespace FileTree

theorem steps_join {name : Bytes} (h : Path.IsName name) (dir : Path) :
    steps (dir.join ⟨name⟩) = dir.way ++ [name] := by
  have hlast : (dir.join ⟨name⟩).bytes.getLast? ≠ some Path.slash := by
    rw [Path.bytes_join h, List.getLast?_append_of_ne_nil _ h.ne_nil]
    exact fun he => h.noSlash (List.mem_of_getLast? he)
  unfold steps
  rw [if_neg hlast]
  exact Path.way_join h dir

theorem startOf_join {name : Bytes} (h : Path.IsName name) (here : Location) (dir : Path) :
    startOf here (dir.join ⟨name⟩) = startOf here dir := by
  unfold startOf
  rw [Path.isAbsolute_join h]

end FileTree

end ApiAtlas
