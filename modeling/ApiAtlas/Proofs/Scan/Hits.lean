import ApiAtlas.Scan.Header
import Mathlib.Data.List.Basic
import Mathlib.Tactic.Common

/-!
Where hits are found. A hit stands in the text as the text from its start on, hits follow one another
in the text, and where no header reaches over a place the hits behind it are those of the text from
there on.
-/
namespace ApiAtlas.Scan

def Hit.start {κ : Type} (text : List Char) (hit : Hit κ) : Nat := text.length - hit.text.length

section

variable {κ : Type} {a b : Hit κ} {text : List Char} (ha : a.text.length ≤ text.length)
  (hb : b.text.length ≤ text.length)
include ha hb

theorem Hit.start_le_iff : a.start text ≤ b.start text ↔ b.text.length ≤ a.text.length := by
  unfold start
  omega

theorem Hit.start_lt_iff : a.start text < b.start text ↔ b.text.length < a.text.length := by
  unfold start
  omega

end

namespace Header

variable {κ : Type} {h : Header κ} {text : List Char}

def extent (h : Header κ) (hit : Hit κ) : Nat := ((h.readAt hit.text).map (·.2)).getD 0

theorem text_of_readAt {hit : Hit κ} {size : Nat} (hread : h.readAt text = some (hit, size)) :
    hit.text = text := by
  obtain ⟨lead, -, hread⟩ := List.exists_of_findSome?_eq_some hread
  obtain ⟨name, -, hread⟩ := List.exists_of_findSome?_eq_some hread
  obtain ⟨tail, -, hhit⟩ := Option.map_eq_some_iff.mp hread
  obtain ⟨rfl, -⟩ := Prod.mk.inj hhit
  rfl

theorem extent_of_readAt {hit : Hit κ} {size : Nat} (hread : h.readAt text = some (hit, size)) :
    h.extent hit = size := by
  unfold extent
  rw [text_of_readAt hread, hread]
  rfl

theorem hitsFrom_of_none {c : Char} {cs : List Char} (hread : h.readAt (c :: cs) = none)
    (atLineStart : Bool) : h.hitsFrom 0 atLineStart (c :: cs) = h.hitsFrom 0 (c = '\n') cs := by
  rw [hitsFrom, if_neg (not_not_intro rfl), hread]
  split <;> rfl

theorem hitsFrom_succ (n : Nat) (atLineStart : Bool) (c : Char) (cs : List Char) :
    h.hitsFrom (n + 1) atLineStart (c :: cs) = h.hitsFrom n (c = '\n') cs := by
  rw [hitsFrom, if_pos (Nat.succ_ne_zero n), Nat.add_sub_cancel]

theorem hitsFrom_of_some (hline : h.lineStart = false) {c : Char} {cs : List Char} {hit : Hit κ}
    {size : Nat} (hread : h.readAt (c :: cs) = some (hit, size)) (atLineStart : Bool) :
    h.hitsFrom 0 atLineStart (c :: cs) = hit :: h.hitsFrom (size - 1) (c = '\n') cs := by
  rw [hitsFrom, if_neg (not_not_intro rfl), hline, hread]
  rfl

theorem hitsFrom_flag (hline : h.lineStart = false) (skip : Nat) (a b : Bool) :
    h.hitsFrom skip a text = h.hitsFrom skip b text := by
  cases text with
  | nil => rfl
  | cons c cs => simp [hitsFrom, hline]

theorem readAt_of_mem_hitsFrom {skip : Nat} {atLineStart : Bool} {hit : Hit κ}
    (hhit : hit ∈ h.hitsFrom skip atLineStart text) :
    hit.text <:+ text ∧ h.readAt hit.text = some (hit, h.extent hit) := by
  induction text generalizing skip atLineStart with
  | nil => cases hhit
  | cons c cs ih =>
    have hlater {n : Nat} {b : Bool} (hmem : hit ∈ h.hitsFrom n b cs) :
        hit.text <:+ c :: cs ∧ h.readAt hit.text = some (hit, h.extent hit) :=
      (ih hmem).imp_left fun hsuffix => hsuffix.trans (List.suffix_cons c cs)
    rw [hitsFrom] at hhit
    split_ifs at hhit
    · exact hlater hhit
    · exact hlater hhit
    · split at hhit
      · rename_i first size hread
        rcases List.mem_cons.mp hhit with rfl | hhit
        · rw [extent_of_readAt hread, text_of_readAt hread]
          exact ⟨List.suffix_refl _, hread⟩
        · exact hlater hhit
      · exact hlater hhit

theorem readAt_of_mem_hits {hit : Hit κ} (hhit : hit ∈ h.hits text) :
    hit.text <:+ text ∧ h.readAt hit.text = some (hit, h.extent hit) :=
  readAt_of_mem_hitsFrom hhit

theorem drop_start {hit : Hit κ} (hhit : hit ∈ h.hits text) :
    hit.text = text.drop (hit.start text) :=
  List.suffix_iff_eq_drop.mp (readAt_of_mem_hits hhit).1

theorem pairwise_hitsFrom (skip : Nat) (atLineStart : Bool) (text : List Char) :
    (h.hitsFrom skip atLineStart text).Pairwise fun a b => b.text.length < a.text.length := by
  induction text generalizing skip atLineStart with
  | nil => exact List.Pairwise.nil
  | cons c cs ih =>
    rw [hitsFrom]
    split_ifs
    · exact ih _ _
    · exact ih _ _
    · split
      · rename_i hit size hread
        refine List.pairwise_cons.mpr ⟨?_, ih _ _⟩
        intro later hlater
        have hle := (readAt_of_mem_hitsFrom hlater).1.length_le
        rw [text_of_readAt hread, List.length_cons]
        omega
      · exact ih _ _

theorem pairwise_start (text : List Char) :
    (h.hits text).Pairwise fun a b => a.start text < b.start text := by
  refine List.Pairwise.imp_of_mem ?_ (pairwise_hitsFrom (h := h) 0 true text)
  intro a b ha hb hless
  exact (Hit.start_lt_iff (readAt_of_mem_hits ha).1.length_le
    (readAt_of_mem_hits hb).1.length_le).mpr hless

theorem length_of_mem_hitsFrom {skip : Nat} {atLineStart : Bool} {hit : Hit κ}
    (hhit : hit ∈ h.hitsFrom skip atLineStart text) : hit.text.length + skip ≤ text.length := by
  induction text generalizing skip atLineStart with
  | nil => cases hhit
  | cons c cs ih =>
    cases skip with
    | zero => exact (readAt_of_mem_hitsFrom hhit).1.length_le
    | succ n =>
      rw [hitsFrom_succ] at hhit
      have hle := ih hhit
      rw [List.length_cons]
      omega

theorem pairwise_extent_hitsFrom (skip : Nat) (atLineStart : Bool) (text : List Char) :
    (h.hitsFrom skip atLineStart text).Pairwise fun a b =>
      b.text.length + h.extent a ≤ a.text.length := by
  induction text generalizing skip atLineStart with
  | nil => exact List.Pairwise.nil
  | cons c cs ih =>
    rw [hitsFrom]
    split_ifs
    · exact ih _ _
    · exact ih _ _
    · split
      · rename_i hit size hread
        refine List.pairwise_cons.mpr ⟨?_, ih _ _⟩
        intro later hlater
        have hle := length_of_mem_hitsFrom hlater
        rw [extent_of_readAt hread, text_of_readAt hread, List.length_cons]
        omega
      · exact ih _ _

theorem pairwise_extent (text : List Char) :
    (h.hits text).Pairwise fun a b => b.text.length + h.extent a ≤ a.text.length :=
  pairwise_extent_hitsFrom 0 true text

/-- No header that starts in `front` reaches over its end. -/
def Clear (h : Header κ) (front rest : List Char) : Prop :=
  ∀ here, here <:+ front → here ≠ [] → ∀ hit size, h.readAt (here ++ rest) = some (hit, size) →
    size ≤ here.length

theorem hitsFrom_append (hline : h.lineStart = false) {front rest : List Char}
    (hclear : h.Clear front rest) {skip : Nat} (hskip : skip ≤ front.length) (atLineStart : Bool) :
    ∃ first, h.hitsFrom skip atLineStart (front ++ rest) = first ++ h.hits rest ∧
      ∀ hit ∈ first, rest.length < hit.text.length := by
  induction front generalizing skip atLineStart with
  | nil =>
    rw [Nat.le_zero.mp hskip]
    exact ⟨[], hitsFrom_flag hline 0 _ _, List.forall_mem_nil _⟩
  | cons c front ih =>
    have hclear' : h.Clear front rest := fun here hhere =>
      hclear here (hhere.trans (List.suffix_cons c front))
    rw [List.cons_append]
    cases skip with
    | succ n =>
      rw [hitsFrom_succ]
      exact ih hclear' (Nat.le_of_succ_le_succ hskip) _
    | zero =>
      cases hread : h.readAt (c :: (front ++ rest)) with
      | none =>
        rw [hitsFrom_of_none hread]
        exact ih hclear' (Nat.zero_le _) _
      | some found =>
        obtain ⟨hit, size⟩ := found
        have hsize := hclear _ (List.suffix_refl _) (List.cons_ne_nil c front) hit size hread
        rw [List.length_cons] at hsize
        obtain ⟨first, hfirst, hlong⟩ := ih hclear' (show size - 1 ≤ front.length by omega) (c = '\n')
        refine ⟨hit :: first, ?_, List.forall_mem_cons.mpr ⟨?_, hlong⟩⟩
        · rw [hitsFrom_of_some hline hread, hfirst, List.cons_append]
        · rw [text_of_readAt hread, List.length_cons, List.length_append]
          omega

/-- The hits from a clear place on are those of the text from there on. -/
theorem hits_append (hline : h.lineStart = false) {front rest : List Char}
    (hclear : h.Clear front rest) :
    (h.hits (front ++ rest)).filter (·.text.length ≤ rest.length) = h.hits rest ∧
      (h.hits (front ++ rest)).filter (rest.length < ·.text.length) ++ h.hits rest =
        h.hits (front ++ rest) := by
  obtain ⟨first, hfirst, hlong⟩ := hitsFrom_append hline hclear (Nat.zero_le _) true
  have hshort (hit : Hit κ) (hhit : hit ∈ h.hits rest) : hit.text.length ≤ rest.length :=
    (readAt_of_mem_hits hhit).1.length_le
  have heq : h.hits (front ++ rest) = first ++ h.hits rest := hfirst
  rw [heq, List.filter_append, List.filter_append]
  constructor
  · rw [List.filter_eq_nil_iff.mpr, List.filter_eq_self.mpr, List.nil_append]
    · simpa using hshort
    · simpa using hlong
  · rw [List.filter_eq_self.mpr, List.filter_eq_nil_iff.mpr, List.append_nil]
    · simpa using hshort
    · simpa using hlong

end Header

def AtLineStart (before : List Char) : Prop := before = [] ∨ ['\n'] <:+ before

theorem feed_suffix {a b : List Char} (h : ['\n'] <:+ a ++ b) (hne : b ≠ []) : ['\n'] <:+ b :=
  List.suffix_of_suffix_length_le h (List.suffix_append a b) (List.length_pos_iff.mpr hne)

theorem AtLineStart.feed_suffix {a b : List Char} (h : AtLineStart (a ++ b)) (hne : b ≠ []) :
    ['\n'] <:+ b := by
  rcases h with hnil | hfeed
  · exact absurd (List.append_eq_nil_iff.mp hnil).2 hne
  · exact Scan.feed_suffix hfeed hne

def lineStartAfter (atLineStart : Bool) : List Char → Bool
  | [] => atLineStart
  | c :: cs => lineStartAfter (c = '\n') cs

theorem lineStartAfter_iff {atLineStart : Bool} {before : List Char} :
    lineStartAfter atLineStart before = true ↔
      before = [] ∧ atLineStart = true ∨ ['\n'] <:+ before := by
  induction before generalizing atLineStart with
  | nil => simp [lineStartAfter]
  | cons c cs ih =>
    rw [lineStartAfter, ih, List.suffix_cons_iff]
    simp [eq_comm, and_comm]

theorem atLineStart_iff {before : List Char} :
    AtLineStart before ↔ lineStartAfter true before = true := by
  rw [lineStartAfter_iff, AtLineStart, and_iff_left rfl]

namespace Header

variable {κ : Type} {h : Header κ} (hline : h.lineStart = true)
include hline

theorem lineStart_of_mem_hitsFrom {skip : Nat} {atLineStart : Bool} {text : List Char}
    {hit : Hit κ} (hhit : hit ∈ h.hitsFrom skip atLineStart text) :
    ∃ before, lineStartAfter atLineStart before = true ∧ text = before ++ hit.text := by
  induction text generalizing skip atLineStart with
  | nil => cases hhit
  | cons c cs ih =>
    have hlater {n : Nat} (hmem : hit ∈ h.hitsFrom n (c = '\n') cs) :
        ∃ before, lineStartAfter atLineStart before = true ∧ c :: cs = before ++ hit.text := by
      obtain ⟨before, hbefore, rfl⟩ := ih hmem
      exact ⟨c :: before, hbefore, rfl⟩
    rw [hitsFrom, hline] at hhit
    split_ifs at hhit with hskip hstart
    · exact hlater hhit
    · exact hlater hhit
    · split at hhit
      · rename_i first size hread
        rcases List.mem_cons.mp hhit with rfl | hhit
        · exact ⟨[], by simpa [lineStartAfter] using hstart, (text_of_readAt hread).symm⟩
        · exact hlater hhit
      · exact hlater hhit

theorem lineStart_of_mem_hits {text : List Char} {hit : Hit κ} (hhit : hit ∈ h.hits text) :
    ∃ before, AtLineStart before ∧ text = before ++ hit.text := by
  obtain ⟨before, hbefore, htext⟩ := lineStart_of_mem_hitsFrom hline hhit
  exact ⟨before, atLineStart_iff.mpr hbefore, htext⟩

theorem mem_hitsFrom_of_readAt {before rest : List Char} {hit : Hit κ} {size : Nat}
    (hread : h.readAt rest = some (hit, size)) (hrest : rest ≠ []) {skip : Nat}
    (hskip : skip ≤ before.length) {atLineStart : Bool}
    (hstart : lineStartAfter atLineStart before = true)
    (hclear : ∀ a here, before = a ++ here → here ≠ [] → lineStartAfter atLineStart a = true →
      ∀ first n, h.readAt (here ++ rest) = some (first, n) → n ≤ here.length) :
    hit ∈ h.hitsFrom skip atLineStart (before ++ rest) := by
  induction before generalizing skip atLineStart with
  | nil =>
    obtain ⟨c, rest, rfl⟩ := List.exists_cons_of_ne_nil hrest
    rw [List.nil_append, Nat.le_zero.mp hskip, hitsFrom, hline, show atLineStart = true from hstart,
      hread]
    exact List.mem_cons_self
  | cons c before ih =>
    have hclear' (a here : List Char) (heq : before = a ++ here) :=
      hclear (c :: a) here (congrArg (c :: ·) heq)
    rw [List.cons_append]
    cases skip with
    | succ n =>
      rw [hitsFrom_succ]
      exact ih (Nat.le_of_succ_le_succ hskip) hstart hclear'
    | zero =>
      rw [hitsFrom, if_neg (not_not_intro rfl), hline]
      split_ifs with hinside
      · exact ih (Nat.zero_le _) hstart hclear'
      · split
        · rename_i first n hfirst
          have hle := hclear [] (c :: before) rfl (List.cons_ne_nil c before)
            (by simpa [lineStartAfter] using hinside) first n hfirst
          rw [List.length_cons] at hle
          exact List.mem_cons_of_mem _ (ih (by omega) hstart hclear')
        · exact ih (Nat.zero_le _) hstart hclear'

/-- A header at the start of a line is found if none reaches over its start that stands at the start
of a line before. -/
theorem mem_hits_of_readAt {before rest : List Char} {hit : Hit κ} {size : Nat}
    (hread : h.readAt rest = some (hit, size)) (hrest : rest ≠ []) (hstart : AtLineStart before)
    (hclear : ∀ a here, before = a ++ here → here ≠ [] → AtLineStart a →
      ∀ first n, h.readAt (here ++ rest) = some (first, n) → n ≤ here.length) :
    hit ∈ h.hits (before ++ rest) := by
  refine mem_hitsFrom_of_readAt hline hread hrest (Nat.zero_le _) (atLineStart_iff.mp hstart) ?_
  intro a here heq hne ha
  exact hclear a here heq hne (atLineStart_iff.mpr ha)

end Header

end ApiAtlas.Scan
