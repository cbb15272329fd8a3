/-!
Occurrences of a word in a text, and replacing single characters.
-/
namespace ApiAtlas.Text

def occurs (word : List Char) : List Char → Bool
  | [] => word.isEmpty
  | c :: cs => word.isPrefixOf (c :: cs) || occurs word cs

theorem occurs_iff (word text : List Char) : occurs word text = true ↔ word <:+: text := by
  induction text with
  | nil => simp [occurs]
  | cons c cs ih =>
    rw [occurs, Bool.or_eq_true, ih, List.isPrefixOf_iff_prefix, List.infix_cons_iff]

theorem infix_behind_iff {c : Char} {word front : List Char} (h : c ∉ front) (rest : List Char) :
    c :: word <:+: front ++ rest ↔ c :: word <:+: rest := by
  constructor
  · intro hword
    rcases List.infix_append_iff.mp hword with hfront | hrest | ⟨l₁, l₂, hsplit, hl₁, hl₂⟩
    · exact absurd (hfront.subset List.mem_cons_self) h
    · exact hrest
    · cases l₁ with
      | nil =>
        rw [List.nil_append] at hsplit
        exact hsplit ▸ hl₂.isInfix
      | cons a l₁ =>
        obtain ⟨rfl, -⟩ := List.cons.inj hsplit
        exact absurd (hl₁.subset List.mem_cons_self) h
  · exact fun hrest => hrest.trans (List.suffix_append front rest).isInfix

theorem infix_around_iff {c : Char} {word : List Char} (h : c ∉ word) (front rest : List Char) :
    word <:+: front ++ c :: rest ↔ word <:+: front ∨ word <:+: rest := by
  constructor
  · intro hword
    rcases List.infix_append_iff.mp hword with hfront | hrest | ⟨l₁, l₂, rfl, hl₁, hl₂⟩
    · exact .inl hfront
    · rcases List.infix_cons_iff.mp hrest with hprefix | hrest
      · cases word with
        | nil => exact .inr List.nil_infix
        | cons d word =>
          obtain ⟨rfl, -⟩ := List.cons_prefix_cons.mp hprefix
          exact absurd List.mem_cons_self h
      · exact .inr hrest
    · cases l₂ with
      | nil =>
        rw [List.append_nil]
        exact .inl hl₁.isInfix
      | cons d l₂ =>
        obtain ⟨rfl, -⟩ := List.cons_prefix_cons.mp hl₂
        exact absurd (List.mem_append_right l₁ List.mem_cons_self) h
  · rintro (hfront | hrest)
    · exact hfront.trans (List.prefix_append front _).isInfix
    · exact hrest.trans ((List.suffix_cons c rest).trans (List.suffix_append front _)).isInfix

def replaceChar (old new : Char) (text : List Char) : List Char :=
  text.map fun c => if c = old then new else c

def slashed (text : List Char) : List Char := replaceChar '\\' '/' text

@[simp] theorem slashed_append (a b : List Char) : slashed (a ++ b) = slashed a ++ slashed b :=
  List.map_append

end ApiAtlas.Text
