import ApiAtlas.Template
import Mathlib.Data.List.DropRight
import Mathlib.Data.List.Forall2

/-!
The list of members on a page. A bullet is trimmed as a whole, and the dash in it is no blank: what
goes is the end of the summary, and the blank behind the dash if no summary is left. So each member
has a line of its own, and the names can be read back from the lines.
-/
namespace ApiAtlas

namespace Text

/-- `kept` is a text without the blanks at its end. -/
structure IsTrimmed (text kept : List Char) : Prop where
  exists_blanks : ∃ blanks, text = kept ++ blanks ∧ ∀ c ∈ blanks, isBlank c = true
  last : ∀ c, kept.getLast? = some c → isBlank c = false

theorem isTrimmed_trimRight (text : List Char) : IsTrimmed text (trimRight text) where
  exists_blanks :=
    ⟨text.rtakeWhile isBlank, List.rdropWhile_append_rtakeWhile.symm,
      fun _ hc => List.mem_rtakeWhile_imp hc⟩
  last c hc := by
    obtain ⟨hne, rfl⟩ := List.mem_getLast?_eq_getLast hc
    exact Bool.eq_false_iff.mpr (List.rdropWhile_last_not isBlank text hne)

section

variable {text kept : List Char} (h : IsTrimmed text kept)

include h

theorem IsTrimmed.eq_trimRight : kept = trimRight text := by
  obtain ⟨blanks, rfl, hblanks⟩ := h.exists_blanks
  have hself : kept.rdropWhile isBlank = kept := by
    rw [List.rdropWhile_eq_self_iff]
    intro hne
    rw [h.last _ (List.getLast?_eq_some_getLast hne)]
    exact Bool.false_ne_true
  unfold trimRight
  rw [List.reverse_append, List.dropWhile_append_of_pos (by simpa using hblanks)]
  exact hself.symm

theorem IsTrimmed.subset : kept ⊆ text := by
  obtain ⟨blanks, rfl, -⟩ := h.exists_blanks
  exact List.subset_append_left kept blanks

theorem IsTrimmed.ne_nil (hsome : ∃ c ∈ text, isBlank c = false) : kept ≠ [] := by
  rintro rfl
  obtain ⟨blanks, rfl, hblanks⟩ := h.exists_blanks
  obtain ⟨c, hc, hnot⟩ := hsome
  rw [hblanks c hc] at hnot
  cases hnot

theorem IsTrimmed.append (hne : kept ≠ []) (front : List Char) :
    IsTrimmed (front ++ text) (front ++ kept) where
  exists_blanks := by
    obtain ⟨blanks, rfl, hblanks⟩ := h.exists_blanks
    exact ⟨blanks, (List.append_assoc front kept blanks).symm, hblanks⟩
  last c hc := by
    rw [List.getLast?_append_of_ne_nil front hne] at hc
    exact h.last c hc

end

end Text

namespace Member

def line (m : Member) : List Char := "- `".toList ++ m.name.toList ++ "(...)` —".toList

theorem bullet_eq (m : Member) : m.bullet = Text.trimRight (m.line ++ ' ' :: m.summary.toList) := by
  have hdash : "(...)` — ".toList = "(...)` —".toList ++ [' '] := rfl
  unfold bullet line
  rw [hdash]
  simp only [List.append_assoc, List.singleton_append]

theorem isBlank_of_getLast?_line {m : Member} {c : Char} (h : m.line.getLast? = some c) :
    Text.isBlank c = false := by
  unfold line at h
  rw [List.getLast?_append_of_ne_nil _ (by decide)] at h
  cases h
  decide

/-- The line a member is listed on. It ends in the dash if there is nothing to tell; otherwise the
summary follows, without the blanks at its end. -/
inductive Listed (m : Member) : List Char → Prop
  | silent (h : ∀ c ∈ m.summary.toList, Text.isBlank c = true) : m.Listed m.line
  | told (h : ∃ c ∈ m.summary.toList, Text.isBlank c = false) {kept : List Char}
      (hkept : Text.IsTrimmed m.summary.toList kept) : m.Listed (m.line ++ ' ' :: kept)

theorem Listed.eq_bullet {m : Member} {l : List Char} (h : m.Listed l) : l = m.bullet := by
  rw [bullet_eq]
  apply Text.IsTrimmed.eq_trimRight
  cases h with
  | silent h =>
    -- The blank behind the dash goes with the summary, the dash itself is none.
    exact ⟨⟨_, rfl, List.forall_mem_cons.mpr ⟨rfl, h⟩⟩, fun _ => isBlank_of_getLast?_line⟩
  | told h hkept => simpa using hkept.append (hkept.ne_nil h) (m.line ++ [' '])

theorem listed_bullet (m : Member) : m.Listed m.bullet := by
  by_cases h : ∀ c ∈ m.summary.toList, Text.isBlank c = true
  · have hlisted := Listed.silent h
    rwa [hlisted.eq_bullet] at hlisted
  · push Not at h
    obtain ⟨c, hc, hnot⟩ := h
    have hlisted := Listed.told ⟨c, hc, Bool.eq_false_iff.mpr hnot⟩ (Text.isTrimmed_trimRight _)
    rwa [hlisted.eq_bullet] at hlisted

theorem Listed.line_isPrefix {m : Member} {l : List Char} (h : m.Listed l) : m.line <+: l := by
  cases h with
  | silent => exact List.prefix_rfl
  | told => exact List.prefix_append _ _

structure IsUnbroken (m : Member) : Prop where
  name : '\n' ∉ m.name.toList
  summary : '\n' ∉ m.summary.toList

theorem IsUnbroken.newline_notMem_bullet {m : Member} (h : m.IsUnbroken) : '\n' ∉ m.bullet := by
  intro hmem
  have htext := (Text.isTrimmed_trimRight _).subset hmem
  simp only [List.mem_append] at htext
  rcases htext with ((hmem | hmem) | hmem) | hmem
  · exact absurd hmem (by decide)
  · exact h.name hmem
  · exact absurd hmem (by decide)
  · exact h.summary hmem

theorem bullets_of_ne_nil {members : List Member} (hne : members ≠ []) :
    bullets members = ['\n'].intercalate (members.map bullet) := by
  unfold bullets
  rw [if_neg (by simpa using hne)]

theorem lines_bullets {members : List Member} (hne : members ≠ [])
    (h : ∀ m ∈ members, m.IsUnbroken) : (bullets members).splitOn '\n' = members.map bullet := by
  rw [bullets_of_ne_nil hne]
  apply List.splitOn_intercalate
  · intro l hl
    obtain ⟨m, hm, rfl⟩ := List.mem_map.mp hl
    exact (h m hm).newline_notMem_bullet
  · simpa using hne

theorem head?_bullets {members : List Member} (hne : members ≠ []) :
    (bullets members).head? = some '-' := by
  rw [bullets_of_ne_nil hne]
  cases members with
  | nil => exact absurd rfl hne
  | cons m rest =>
    obtain ⟨behind, hbullet⟩ := m.listed_bullet.line_isPrefix
    rw [List.map_cons, ← hbullet]
    cases rest with
    | nil =>
      rw [List.map_nil, List.intercalate_singleton]
      rfl
    | cons next rest =>
      rw [List.map_cons, List.intercalate_cons_cons]
      rfl

/-- The name on a line: what stands between its ticks, less the parentheses. -/
def nameOn (l : List Char) : String :=
  String.ofList (((l.drop "- `".length).takeWhile (· ≠ '\x60')).rdrop "(...)".length)

theorem nameOn_line {m : Member} (h : '\x60' ∉ m.name.toList) (behind : List Char) :
    nameOn (m.line ++ behind) = m.name := by
  have hticked : ∀ c ∈ m.name.toList ++ "(...)".toList, decide (c ≠ '\x60') = true := by
    intro c hc
    rw [decide_eq_true_eq]
    rintro rfl
    rcases List.mem_append.mp hc with hc | hc
    · exact h hc
    · exact absurd hc (by decide)
  -- No tick stands in the name or its parentheses, so the first that is met is the closing one.
  have hline : m.line ++ behind =
      "- `".toList ++ ((m.name.toList ++ "(...)".toList) ++ '\x60' :: (" —".toList ++ behind)) := by
    have hend : "(...)` —".toList = "(...)".toList ++ '\x60' :: " —".toList := rfl
    unfold line
    rw [hend]
    simp only [List.append_assoc, List.cons_append]
  unfold nameOn
  rw [hline, ← String.length_toList, List.drop_left, List.takeWhile_append_of_pos hticked,
    List.takeWhile_cons_of_neg (by decide), List.append_nil, ← String.length_toList,
    List.rdrop_append_length, String.ofList_toList]

def namesOn (text : List Char) : List String := (text.splitOn '\n').map nameOn

theorem namesOn_bullets {members : List Member} (hne : members ≠ [])
    (h : ∀ m ∈ members, m.IsUnbroken) (hticks : ∀ m ∈ members, '\x60' ∉ m.name.toList) :
    namesOn (bullets members) = members.map (·.name) := by
  unfold namesOn
  rw [lines_bullets hne h, List.map_map]
  apply List.map_congr_left
  intro m hm
  obtain ⟨behind, hbullet⟩ := m.listed_bullet.line_isPrefix
  rw [Function.comp_apply, ← hbullet, nameOn_line (hticks m hm)]

/-- Members never pass for none. If nothing in them breaks a line, they stand on one line each, no
line ends in a blank, and names without ticks are read back from the list. -/
theorem bullets_list_each (members : List Member) (hne : members ≠ []) :
    bullets members ≠ "_No public members detected._".toList ∧
    ((∀ m ∈ members, m.IsUnbroken) →
      List.Forall₂ Listed members ((bullets members).splitOn '\n') ∧
      (∀ l ∈ (bullets members).splitOn '\n', ∀ c, l.getLast? = some c → Text.isBlank c = false) ∧
      ((∀ m ∈ members, '\x60' ∉ m.name.toList) →
        namesOn (bullets members) = members.map (·.name))) := by
  refine ⟨?_, fun h => ⟨?_, ?_, namesOn_bullets hne h⟩⟩
  · intro hnone
    have hhead := head?_bullets hne
    rw [hnone] at hhead
    exact absurd hhead (by decide)
  · rw [lines_bullets hne h, List.forall₂_map_right_iff, List.forall₂_same]
    intro m _
    exact m.listed_bullet
  · rw [lines_bullets hne h, List.forall_mem_map]
    intro m _
    exact (Text.isTrimmed_trimRight _).last

def spaced : List Member :=
  [{ name := "load", summary := " from disk\u3000\t" }, { name := "save", summary := "\u2003 " },
    { name := "a(...)", summary := "` — `b(...)` —" }]

theorem bullets_list_each_spaced :
    spaced ≠ [] ∧ (∀ m ∈ spaced, m.IsUnbroken) ∧ (∀ m ∈ spaced, '\x60' ∉ m.name.toList) ∧
      bullets spaced ≠ "_No public members detected._".toList ∧
      (bullets spaced).splitOn '\n' =
        ["- `load(...)` —  from disk".toList, "- `save(...)` —".toList,
          "- `a(...)(...)` — ` — `b(...)` —".toList] ∧
      List.Forall₂ Listed spaced ((bullets spaced).splitOn '\n') ∧
      (∀ l ∈ (bullets spaced).splitOn '\n', ∀ c, l.getLast? = some c → Text.isBlank c = false) ∧
      namesOn (bullets spaced) = ["load", "save", "a(...)"] := by
  have hne : spaced ≠ [] := List.cons_ne_nil _ _
  have hunbroken : ∀ m ∈ spaced, m.IsUnbroken := by
    have hall : ∀ m ∈ spaced, '\n' ∉ m.name.toList ∧ '\n' ∉ m.summary.toList := by decide
    exact fun m hm => ⟨(hall m hm).1, (hall m hm).2⟩
  have hticks : ∀ m ∈ spaced, '\x60' ∉ m.name.toList := by decide
  obtain ⟨hsome, hlines⟩ := bullets_list_each spaced hne
  obtain ⟨hlisted, hends, hnames⟩ := hlines hunbroken
  exact ⟨hne, hunbroken, hticks, hsome, by decide +kernel, hlisted, hends, hnames hticks⟩

end Member

end ApiAtlas
