import ApiAtlas.Proofs.Locations
import Mathlib.Data.List.DropRight

/-!
Paths by what they say: a lead, and the parts behind it that are not void. A path below another says
what that says and then its own, so taking the one off the other again gives back what was put below
it, however many slashes and dots the other is spelled with.
-/
namespace ApiAtlas

namespace Path

theorem lead_cases (p : Path) :
    p.lead = [slash] ∧ p.isAbsolute = true ∨ p.isAbsolute = false ∧ (p.lead = [] ∨
      p.lead = [dot] ∧ (p.bytes = [dot] ∨ ∃ rest, p.bytes = [dot] ++ slash :: rest)) := by
  unfold lead isAbsolute
  cases p.bytes with
  | nil => simp
  | cons b rest =>
    simp only [List.head?_cons, Option.some.injEq, decide_eq_true_eq, decide_eq_false_iff_not]
    split_ifs with hslash hdot
    · exact .inl ⟨rfl, hslash⟩
    · refine .inr ⟨hslash, .inr ⟨rfl, ?_⟩⟩
      obtain ⟨rfl, rfl | hrest⟩ := hdot
      · exact .inl rfl
      · obtain ⟨back, rfl⟩ := List.head?_eq_some_iff.mp hrest
        exact .inr ⟨back, rfl⟩
    · exact .inr ⟨hslash, .inl rfl⟩

theorem isAbsolute_iff {p : Path} : p.isAbsolute = true ↔ ∃ rest, p.bytes = slash :: rest := by
  unfold isAbsolute
  rw [decide_eq_true_iff, List.head?_eq_some_iff]

theorem lead_isPrefix (p : Path) : p.lead <+: p.bytes := by
  rcases p.lead_cases with ⟨hlead, habsolute⟩ | ⟨-, hlead | ⟨hlead, hdot | ⟨rest, hrest⟩⟩⟩
  · obtain ⟨rest, hrest⟩ := isAbsolute_iff.mp habsolute
    rw [hlead, hrest]
    exact ⟨rest, rfl⟩
  · rw [hlead]
    exact List.nil_prefix
  · exact ⟨[], by rw [hlead, hdot, List.append_nil]⟩
  · exact ⟨slash :: rest, by rw [hlead, hrest]⟩

theorem IsPlain.lead_eq {p : Path} (h : p.IsPlain) : p.lead = [] := by
  rcases p.lead_cases with ⟨-, habsolute⟩ | ⟨-, hempty | ⟨-, hdot⟩⟩
  · rw [h.not_isAbsolute] at habsolute
    cases habsolute
  · exact hempty
  · -- A plain path has no part that is a dot.
    exfalso
    refine (h [dot] ?_).ne_dot rfl
    rcases hdot with hdot | ⟨rest, hrest⟩
    · rw [hdot]
      decide
    · rw [hrest, splitSlash_append_slash]
      exact List.mem_append_left _ List.mem_cons_self

theorem dropVoidEnd_isPrefix (parts : List Bytes) : dropVoidEnd parts <+: parts := by
  unfold dropVoidEnd
  rw [← List.reverse_suffix, List.reverse_reverse]
  exact List.dropWhile_suffix _

theorem dropVoidEnd_concat (parts : List Bytes) (part : Bytes) :
    dropVoidEnd (parts ++ [part]) =
      if isVoidPart part then dropVoidEnd parts else parts ++ [part] :=
  List.rdropWhile_concat isVoidPart parts part

theorem IsName.not_isVoidPart {name : Bytes} (h : IsName name) : isVoidPart name = false := by
  simp [isVoidPart, h.ne_nil, h.ne_dot]

theorem IsPlain.dropVoidEnd_splitSlash {p : Path} (h : p.IsPlain) :
    dropVoidEnd (splitSlash p.bytes) = splitSlash p.bytes := by
  obtain ⟨parts, last, hsplit⟩ :=
    (splitSlash p.bytes).eq_nil_or_concat.resolve_left (splitSlash_ne_nil p.bytes)
  have hlast : IsName last := h last (by simp [hsplit])
  rw [hsplit, List.concat_eq_append, dropVoidEnd_concat, hlast.not_isVoidPart,
    if_neg Bool.false_ne_true]

/-- What a path says: its lead, and the parts behind it that are not void. -/
def components (p : Path) : Bytes × List Bytes :=
  (p.lead, (splitSlash (p.bytes.drop p.lead.length)).filter (!isVoidPart ·))

theorem lead_append_slash {front : Bytes} (h : front ≠ []) (back : Bytes) :
    lead ⟨front ++ slash :: back⟩ = lead ⟨front⟩ := by
  obtain ⟨b, rest, rfl⟩ := List.exists_cons_of_ne_nil h
  unfold lead
  cases rest with
  | nil => simp
  | cons next rest => simp

section

variable {p : Path} (hp : p.IsPlain) (dir : Path)
include hp

theorem lead_join : (dir.join p).lead = dir.lead := by
  have hdir : dir.lead = lead ⟨dir.bytes⟩ := rfl
  have hjoin : (dir.join p).lead = lead ⟨dir.frontOf ++ p.bytes⟩ :=
    congrArg lead (Path.ext (bytes_join_of_relative hp.not_isAbsolute dir))
  rw [hjoin, hdir]
  unfold frontOf
  split
  · rename_i hend
    rcases hend with hempty | hslash
    · rw [hempty, List.nil_append]
      exact hp.lead_eq
    · obtain ⟨front, hfront⟩ := List.getLast?_eq_some_iff.mp hslash
      rw [hfront, List.append_assoc, List.singleton_append]
      by_cases hnil : front = []
      · rw [hnil]
        rfl
      · rw [lead_append_slash hnil, lead_append_slash hnil]
  · rename_i hend
    rw [List.append_assoc, List.singleton_append, lead_append_slash (not_or.mp hend).1]

theorem exists_parts_join : ∃ front,
    splitSlash ((dir.join p).bytes.drop dir.lead.length) = front ++ splitSlash p.bytes ∧
      front.filter (!isVoidPart ·) = dir.components.2 := by
  obtain ⟨rest, hrest⟩ := dir.lead_isPrefix
  have hdrop : dir.bytes.drop dir.lead.length = rest := by rw [← hrest, List.drop_left]
  unfold components
  rw [hdrop, bytes_join_of_relative hp.not_isAbsolute, frontOf]
  split
  · rename_i hend
    -- What is behind the lead ends in a slash, or there is nothing.
    have hcases : rest = [] ∨ ∃ back, rest = back ++ [slash] := by
      by_cases hnil : rest = []
      · exact .inl hnil
      · rw [← hrest, List.getLast?_append_of_ne_nil _ hnil] at hend
        exact .inr (List.getLast?_eq_some_iff.mp (hend.resolve_left (by simp [hnil])))
    rw [← hrest, List.append_assoc, List.drop_left]
    rcases hcases with rfl | ⟨back, rfl⟩
    · exact ⟨[], rfl, rfl⟩
    · refine ⟨splitSlash back, ?_, ?_⟩
      · rw [List.append_assoc, List.singleton_append, splitSlash_append_slash]
      · rw [splitSlash_append_slash, List.filter_append]
        exact (List.append_nil _).symm
  · refine ⟨splitSlash rest, ?_, rfl⟩
    rw [← hrest, List.append_assoc, List.append_assoc, List.drop_left, List.singleton_append,
      splitSlash_append_slash]

end

theorem components_join {name : Bytes} (hname : IsName name) (dir : Path) :
    (dir.join ⟨name⟩).components = (dir.components.1, dir.components.2 ++ [name]) := by
  obtain ⟨front, hparts, hfront⟩ := exists_parts_join (isPlain_name hname) dir
  unfold components at hfront ⊢
  rw [lead_join (isPlain_name hname), hparts, splitSlash_of_notMem hname.noSlash,
    List.filter_append, hfront]
  simp [hname.not_isVoidPart]

/-- What is left of parts when names are taken off their front one by one; void parts before a name
go with it. -/
def dropNames : List Bytes → List Bytes → Option (List Bytes)
  | [], parts => some parts
  | _ :: _, [] => none
  | name :: names, part :: parts =>
    if isVoidPart part then dropNames (name :: names) parts
    else if part = name then dropNames names parts
    else none

/-- What a path is from another that stands in front of it, compared by what they say. -/
def relativeTo? (p base : Path) : Option Path :=
  if p.lead = base.lead then
    (dropNames base.components.2 (splitSlash (p.bytes.drop p.lead.length))).map fun rest =>
      ⟨joinSlash (dropVoidEnd (rest.dropWhile isVoidPart))⟩
  else if base.bytes = [] then some ⟨p.lead ++ joinSlash p.parts⟩
  else none

def relativeTo (p base : Path) : Path := (p.relativeTo? base).getD p

theorem dropNames_append (front rest : List Bytes) :
    ∃ void : List Bytes, (∀ part ∈ void, isVoidPart part = true) ∧
      dropNames (front.filter (!isVoidPart ·)) (front ++ rest) = some (void ++ rest) := by
  induction front with
  | nil => exact ⟨[], by simp, by simp [dropNames]⟩
  | cons part front ih =>
    obtain ⟨void, hvoid, hdrop⟩ := ih
    cases hpart : isVoidPart part with
    | true =>
      rw [List.filter_cons_of_neg (by simp [hpart])]
      cases hnames : front.filter (!isVoidPart ·) with
      | nil =>
        refine ⟨part :: front, List.forall_mem_cons.mpr ⟨hpart, ?_⟩, by rw [dropNames]⟩
        simpa [List.filter_eq_nil_iff] using hnames
      | cons name names =>
        rw [hnames] at hdrop
        rw [List.cons_append, dropNames, if_pos hpart]
        exact ⟨void, hvoid, hdrop⟩
    | false =>
      rw [List.filter_cons_of_pos (by simp [hpart]), List.cons_append, dropNames,
        if_neg (by simp [hpart]), if_pos rfl]
      exact ⟨void, hvoid, hdrop⟩

/-- However a start is spelled, a path put below it is taken off it as it was. -/
theorem relativeTo?_join {p : Path} (hp : p.IsPlain) (base : Path) :
    (base.join p).relativeTo? base = some p := by
  obtain ⟨front, hparts, hfront⟩ := exists_parts_join hp base
  obtain ⟨void, hvoid, hdrop⟩ := dropNames_append front (splitSlash p.bytes)
  have hstart : (void ++ splitSlash p.bytes).dropWhile isVoidPart = splitSlash p.bytes := by
    rw [List.dropWhile_append_of_pos hvoid]
    cases hsplit : splitSlash p.bytes with
    | nil => rfl
    | cons part parts =>
      have hpart : IsName part := hp part (by rw [hsplit]; exact List.mem_cons_self)
      rw [List.dropWhile_cons_of_neg (by simp [hpart.not_isVoidPart])]
  unfold relativeTo?
  rw [if_pos (lead_join hp base), lead_join hp base, hparts, ← hfront, hdrop, Option.map_some,
    hstart, hp.dropVoidEnd_splitSlash, joinSlash_splitSlash]

theorem relativeTo_join {p : Path} (hp : p.IsPlain) (base : Path) :
    (base.join p).relativeTo base = p := by
  rw [relativeTo, relativeTo?_join hp, Option.getD_some]

theorem relativeTo_self (p : Path) : p.relativeTo p = ⟨[]⟩ := by
  obtain ⟨void, hvoid, hdrop⟩ := dropNames_append (splitSlash (p.bytes.drop p.lead.length)) []
  rw [List.append_nil, List.append_nil] at hdrop
  have hstart : void.dropWhile isVoidPart = [] := List.dropWhile_eq_nil_iff.mpr hvoid
  unfold relativeTo relativeTo? components
  rw [if_pos rfl, hdrop, Option.map_some, hstart]
  rfl

example :
    (Path.ofString ".//a/./b//c").relativeTo? (.ofString "./a/b/") = some (.ofString "c") := by
  decide

example : (Path.ofString "ab/c").relativeTo? (.ofString "a") = none := by decide

end Path

end ApiAtlas
