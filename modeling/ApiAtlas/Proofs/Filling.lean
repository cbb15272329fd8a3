import ApiAtlas.Error
import Mathlib

/-!
Filling templates. A token opens with two braces and has none behind them, so tokens lie apart in a
text, and it falls in one way into them and what is between. Filling puts values in their place, and
a text is a template exactly if every token stands in it.
-/
namespace ApiAtlas

namespace Placeholder

theorem mem_all (p : Placeholder) : p ∈ all := by
  cases p <;> decide

theorem exists_token (p : Placeholder) :
    ∃ c word, p.token.toList = '\x7b' :: '\x7b' :: c :: word ∧ '\x7b' ∉ c :: word := by
  cases p <;> exact ⟨_, _, rfl, by decide⟩

theorem token_ne_nil (p : Placeholder) : p.token.toList ≠ [] := by
  obtain ⟨c, word, htoken, -⟩ := p.exists_token
  rw [htoken]
  exact List.cons_ne_nil _ _

theorem eq_of_isPrefix {p q : Placeholder} (h : p.token.toList <+: q.token.toList) : p = q := by
  have hall : ∀ p ∈ all, ∀ q ∈ all, p.token.toList <+: q.token.toList → p = q := by decide
  exact hall p p.mem_all q q.mem_all h

def StandsAt (p : Placeholder) (text : List Char) (i : Nat) : Prop :=
  p.token.toList <+: text.drop i

section

variable {p q : Placeholder} {text : List Char} {i j : Nat}

theorem standsAt_append (front : List Char) :
    p.StandsAt (front ++ text) (front.length + i) ↔ p.StandsAt text i := by
  unfold StandsAt
  rw [← List.drop_drop, List.drop_left]

theorem not_standsAt_nil : ¬p.StandsAt [] i := by
  unfold StandsAt
  rw [List.drop_nil, List.prefix_nil]
  exact p.token_ne_nil

theorem exists_standsAt_iff : (∃ i, p.StandsAt text i) ↔ p.token.toList <:+: text := by
  constructor
  · rintro ⟨i, h⟩
    exact h.isInfix.trans (List.drop_suffix i text).isInfix
  · rintro ⟨front, rest, rfl⟩
    refine ⟨front.length, ?_⟩
    unfold StandsAt
    rw [List.append_assoc, List.drop_left]
    exact List.prefix_append _ _

theorem StandsAt.unique (h : p.StandsAt text i) (h' : q.StandsAt text i) : p = q := by
  rcases List.prefix_or_prefix_of_prefix h h' with hpq | hqp
  · exact eq_of_isPrefix hpq
  · exact (eq_of_isPrefix hqp).symm

theorem StandsAt.apart (h : p.StandsAt text i) (h' : q.StandsAt text j) (hlt : i < j) :
    i + p.token.length ≤ j := by
  by_contra hover
  obtain ⟨d, rfl⟩ : ∃ d, j = i + (d + 1) := ⟨j - i - 1, by omega⟩
  obtain ⟨c, word, hp, hnone⟩ := p.exists_token
  obtain ⟨c', word', hq, -⟩ := q.exists_token
  obtain ⟨rest, hrest⟩ := h
  have hlength : p.token.length = word.length + 3 := by
    rw [← String.length_toList, hp]
    rfl
  unfold StandsAt at h'
  rw [← List.drop_drop, ← hrest, hp, hq] at h'
  cases d with
  | zero =>
    -- The second brace of the first token would open the other.
    obtain ⟨-, hsecond⟩ := List.cons_prefix_cons.mp h'
    have hbrace : '\x7b' = c := (List.cons_prefix_cons.mp hsecond).1
    exact hnone (hbrace ▸ List.mem_cons_self)
  | succ d =>
    -- A character behind the braces would open it.
    have hin : d < (c :: word).length := by
      rw [List.length_cons]
      omega
    have hdrop : ('\x7b' :: '\x7b' :: c :: word ++ rest).drop (d + 1 + 1) =
        (c :: word ++ rest).drop d := rfl
    rw [hdrop, List.drop_append_of_le_length (Nat.le_of_lt hin), List.drop_eq_getElem_cons hin,
      List.cons_append] at h'
    exact hnone ((List.cons_prefix_cons.mp h').1 ▸ List.getElem_mem hin)

theorem atFront?_eq_some_iff : atFront? text = some p ↔ p.StandsAt text 0 := by
  have hfront {q : Placeholder} (h : atFront? text = some q) : q.StandsAt text 0 := by
    have hprefix := List.find?_some h
    exact List.isPrefixOf_iff_prefix.mp hprefix
  constructor
  · intro h
    exact hfront h
  · intro h
    have hsome : (atFront? text).isSome :=
      List.find?_isSome.mpr ⟨p, p.mem_all, List.isPrefixOf_iff_prefix.mpr h⟩
    obtain ⟨q, hq⟩ := Option.isSome_iff_exists.mp hsome
    rw [hq, h.unique (hfront hq)]

end

end Placeholder

/-- A text cut at its tokens: what stands before the first, and each placeholder with what stands
between its token and the next. -/
structure Cut where
  lead : List Char
  slots : List (Placeholder × List Char)
  deriving DecidableEq

namespace Cut

def put (value : Placeholder → List Char) (cut : Cut) : List Char :=
  cut.lead ++ cut.slots.flatMap fun slot => value slot.1 ++ slot.2

theorem put_cons (value : Placeholder → List Char) (lead behind : List Char) (p : Placeholder)
    (rest : List (Placeholder × List Char)) :
    put value ⟨lead, (p, behind) :: rest⟩ = lead ++ (value p ++ put value ⟨behind, rest⟩) := by
  simp [put]

def placesFrom : Nat → List (Placeholder × List Char) → List (Nat × Placeholder)
  | _, [] => []
  | i, (p, behind) :: rest => (i, p) :: placesFrom (i + p.token.length + behind.length) rest

def places (cut : Cut) : List (Nat × Placeholder) := placesFrom cut.lead.length cut.slots

/-- The cut is one of `text`, and at all tokens that stand in it at any offset. -/
structure Of (cut : Cut) (text : List Char) : Prop where
  put_token : cut.put (·.token.toList) = text
  mem_places : ∀ i p, (i, p) ∈ cut.places ↔ p.StandsAt text i

def moved (n : Nat) (place : Nat × Placeholder) : Nat × Placeholder := (n + place.1, place.2)

theorem placesFrom_add (n i : Nat) (slots : List (Placeholder × List Char)) :
    placesFrom (n + i) slots = (placesFrom i slots).map (moved n) := by
  induction slots generalizing i with
  | nil => rfl
  | cons slot rest ih =>
    rw [placesFrom, placesFrom, List.map_cons, ← ih]
    simp only [moved, Nat.add_assoc]

theorem le_of_mem_placesFrom {i : Nat} {slots : List (Placeholder × List Char)}
    {place : Nat × Placeholder} (h : place ∈ placesFrom i slots) : i ≤ place.1 := by
  have hmoved := placesFrom_add i 0 slots
  rw [Nat.add_zero] at hmoved
  rw [hmoved] at h
  obtain ⟨inner, -, rfl⟩ := List.mem_map.mp h
  exact Nat.le_add_right i inner.1

theorem pairwise_placesFrom (i : Nat) (slots : List (Placeholder × List Char)) :
    (placesFrom i slots).Pairwise fun a b => a.1 < b.1 := by
  induction slots generalizing i with
  | nil => exact List.Pairwise.nil
  | cons slot rest ih =>
    rw [placesFrom, List.pairwise_cons]
    refine ⟨?_, ih _⟩
    intro later hlater
    have hle := le_of_mem_placesFrom hlater
    have hpos : 0 < slot.1.token.length := by
      rw [← String.length_toList]
      exact List.length_pos_iff.mpr slot.1.token_ne_nil
    simp only
    omega

theorem map_snd_places (cut : Cut) : cut.places.map Prod.snd = cut.slots.map Prod.fst := by
  unfold places
  generalize cut.lead.length = i
  induction cut.slots generalizing i with
  | nil => rfl
  | cons slot rest ih => rw [placesFrom, List.map_cons, List.map_cons, ih]

theorem eq_of_placesFrom {lead lead' : List Char} {slots slots' : List (Placeholder × List Char)}
    {i : Nat} (hplaces : placesFrom (i + lead.length) slots = placesFrom (i + lead'.length) slots')
    (hput : put (·.token.toList) ⟨lead, slots⟩ = put (·.token.toList) ⟨lead', slots'⟩) :
    lead = lead' ∧ slots = slots' := by
  induction slots generalizing lead lead' slots' i with
  | nil =>
    cases slots' with
    | nil => exact ⟨by simpa [put] using hput, rfl⟩
    | cons slot' rest' => cases hplaces
  | cons slot rest ih =>
    cases slots' with
    | nil => cases hplaces
    | cons slot' rest' =>
      obtain ⟨p, behind⟩ := slot
      obtain ⟨p', behind'⟩ := slot'
      rw [placesFrom, placesFrom, List.cons.injEq, Prod.mk.injEq] at hplaces
      obtain ⟨⟨hi, rfl⟩, hplaces⟩ := hplaces
      rw [put_cons, put_cons] at hput
      obtain ⟨rfl, hrest⟩ := List.append_inj hput (by omega)
      obtain ⟨rfl, rfl⟩ := ih hplaces (List.append_cancel_left hrest)
      exact ⟨rfl, rfl⟩

/-- A text is cut at its tokens in one way. -/
theorem Of.unique {cut cut' : Cut} {text : List Char} (h : cut.Of text) (h' : cut'.Of text) :
    cut = cut' := by
  have hplaces : cut.places = cut'.places := by
    have : Std.Antisymm fun a b : Nat × Placeholder => a.1 < b.1 := ⟨by omega⟩
    have : Std.Irrefl fun a b : Nat × Placeholder => a.1 < b.1 := ⟨by omega⟩
    apply (pairwise_placesFrom _ _).eq_of_mem_iff (pairwise_placesFrom _ _)
    rintro ⟨i, p⟩
    exact (h.mem_places i p).trans (h'.mem_places i p).symm
  obtain ⟨lead, slots⟩ := cut
  obtain ⟨lead', slots'⟩ := cut'
  unfold places at hplaces
  obtain ⟨rfl, rfl⟩ := eq_of_placesFrom (i := 0) (by simpa using hplaces)
    (h.put_token.trans h'.put_token.symm)
  rfl

def ofPieces : List Template.Piece → Cut
  | [] => ⟨[], []⟩
  | .char c :: rest => ⟨c :: (ofPieces rest).lead, (ofPieces rest).slots⟩
  | .slot p :: rest => ⟨[], (p, (ofPieces rest).lead) :: (ofPieces rest).slots⟩

section

variable (value : Placeholder → List Char) (c : Char) (p : Placeholder)
  (rest : List Template.Piece)

theorem put_ofPieces_char :
    (ofPieces (.char c :: rest)).put value = c :: (ofPieces rest).put value := rfl

theorem put_ofPieces_slot :
    (ofPieces (.slot p :: rest)).put value = value p ++ (ofPieces rest).put value := by
  rw [ofPieces, put_cons, List.nil_append]

theorem places_ofPieces_char :
    (ofPieces (.char c :: rest)).places = (ofPieces rest).places.map (moved 1) := by
  unfold places
  rw [ofPieces, ← placesFrom_add, List.length_cons, Nat.add_comm]

theorem places_ofPieces_slot :
    (ofPieces (.slot p :: rest)).places =
      (0, p) :: (ofPieces rest).places.map (moved p.token.length) := by
  unfold places
  rw [ofPieces, placesFrom, ← placesFrom_add, List.length_nil, Nat.zero_add]

end

theorem mem_map_moved {n i : Nat} {p : Placeholder} {places : List (Nat × Placeholder)} :
    (i, p) ∈ places.map (moved n) ↔ ∃ j, i = n + j ∧ (j, p) ∈ places := by
  simp only [List.mem_map, Prod.exists, moved, Prod.mk.injEq]
  constructor
  · rintro ⟨j, _, hmem, rfl, rfl⟩
    exact ⟨j, rfl, hmem⟩
  · rintro ⟨j, rfl, hmem⟩
    exact ⟨j, p, hmem, rfl, rfl⟩

section

variable {pieces : List Template.Piece} {text : List Char} (h : (ofPieces pieces).Of text)

include h

theorem Of.char {c : Char} (hnone : ∀ p : Placeholder, ¬p.StandsAt (c :: text) 0) :
    (ofPieces (.char c :: pieces)).Of (c :: text) := by
  refine ⟨by rw [put_ofPieces_char, h.put_token], fun i p => ?_⟩
  rw [places_ofPieces_char, mem_map_moved]
  constructor
  · rintro ⟨j, rfl, hmem⟩
    exact (Placeholder.standsAt_append [c]).mpr ((h.mem_places j p).mp hmem)
  · intro hstands
    cases i with
    | zero => exact absurd hstands (hnone p)
    | succ j => exact ⟨j, Nat.add_comm j 1, (h.mem_places j p).mpr hstands⟩

theorem Of.slot (q : Placeholder) : (ofPieces (.slot q :: pieces)).Of (q.token.toList ++ text) := by
  have hfront : q.StandsAt (q.token.toList ++ text) 0 := List.prefix_append _ _
  refine ⟨by rw [put_ofPieces_slot, h.put_token], fun i p => ?_⟩
  rw [places_ofPieces_slot, List.mem_cons, Prod.mk.injEq, mem_map_moved, ← String.length_toList]
  constructor
  · rintro (⟨rfl, rfl⟩ | ⟨j, rfl, hmem⟩)
    · exact hfront
    · exact (Placeholder.standsAt_append _).mpr ((h.mem_places j p).mp hmem)
  · intro hstands
    rcases Nat.eq_zero_or_pos i with rfl | hpos
    · exact .inl ⟨rfl, hstands.unique hfront⟩
    · have hle := hfront.apart hstands hpos
      rw [Nat.zero_add, ← String.length_toList] at hle
      obtain ⟨j, rfl⟩ := Nat.exists_eq_add_of_le hle
      exact .inr ⟨j, rfl, (h.mem_places j p).mpr ((Placeholder.standsAt_append _).mp hstands)⟩

end

theorem of_piecesFrom {skip : Nat} {text : List Char} (h : skip ≤ text.length) :
    (ofPieces (Template.piecesFrom skip text)).Of (text.drop skip) := by
  induction text generalizing skip with
  | nil =>
    rw [List.drop_nil]
    refine ⟨rfl, fun i p => ?_⟩
    exact iff_of_false List.not_mem_nil Placeholder.not_standsAt_nil
  | cons c cs ih =>
    cases skip with
    | succ skip => exact ih (Nat.le_of_succ_le_succ h)
    | zero =>
      rw [Template.piecesFrom, List.drop_zero]
      split
      · rename_i q hfront
        obtain ⟨rest, hrest⟩ := Placeholder.atFront?_eq_some_iff.mp hfront
        obtain ⟨d, word, htoken⟩ := List.exists_cons_of_ne_nil q.token_ne_nil
        rw [List.drop_zero, htoken, List.cons_append, List.cons.injEq] at hrest
        obtain ⟨rfl, rfl⟩ := hrest
        have hlength : q.token.length - 1 = word.length := by
          rw [← String.length_toList, htoken, List.length_cons, Nat.add_sub_cancel]
        have hin : word.length ≤ (word ++ rest).length := by simp
        have hcut := ih hin
        rw [List.drop_left] at hcut
        rw [hlength, ← List.cons_append, ← htoken]
        exact hcut.slot q
      · rename_i hfront
        have hcut := ih (Nat.zero_le _)
        rw [List.drop_zero] at hcut
        refine hcut.char fun p hstands => ?_
        rw [Placeholder.atFront?_eq_some_iff.mpr hstands] at hfront
        cases hfront

theorem of_pieces (t : Template) : (ofPieces t.pieces).Of t.text :=
  of_piecesFrom (Nat.zero_le _)

end Cut

/-- What an entry puts in the place of each placeholder. -/
structure Entry.Inserts (e : Entry) (value : Placeholder → List Char) : Prop where
  containerKind : value .containerKind = e.kind.name.toList
  container : value .container = e.container.toList
  language : value .language = e.language.name.toList
  summary : e.summary ≠ "" → value .summary = e.summary.toList
  noSummary : e.summary = "" → value .summary = "_No summary available._".toList
  members : value .members = Member.bullets e.members

namespace Template

theorem inserts_iff {e : Entry} {value : Placeholder → List Char} :
    e.Inserts value ↔ value = Template.value e := by
  constructor
  · intro h
    funext p
    cases p with
    | containerKind => exact h.containerKind
    | container => exact h.container
    | language => exact h.language
    | summary =>
      unfold Template.value
      by_cases hempty : e.summary = ""
      · simp [hempty, h.noSummary hempty]
      · simp [hempty, h.summary hempty]
    | members => exact h.members
  · rintro rfl
    constructor <;> simp +contextual [Template.value]

theorem fill_eq_put (t : Template) (e : Entry) :
    t.fill e = (Cut.ofPieces t.pieces).put (value e) := by
  unfold fill
  induction t.pieces with
  | nil => rfl
  | cons piece rest ih =>
    rw [List.flatMap_cons, ih]
    cases piece with
    | char c => rw [Cut.put_ofPieces_char]; rfl
    | slot p => rw [Cut.put_ofPieces_slot]; rfl

theorem missing_eq (text : List Char) :
    missing text = Placeholder.all.filter fun p => ¬p.token.toList <:+: text := by
  unfold missing
  refine List.filter_congr fun p _ => ?_
  rw [Bool.eq_iff_iff]
  simp [← Text.occurs_iff]

theorem missing_eq_nil_iff {text : List Char} :
    missing text = [] ↔ ∀ p : Placeholder, p.token.toList <:+: text := by
  rw [missing_eq, List.filter_eq_nil_iff]
  simp [Placeholder.mem_all]

theorem ofText_eq_ok_iff {text : List Char} {t : Template} :
    ofText text = .ok t ↔ t = ⟨text⟩ ∧ ∀ p : Placeholder, p.token.toList <:+: text := by
  rw [← missing_eq_nil_iff]
  unfold ofText
  split
  · rename_i hnone
    simp [hnone, eq_comm]
  · rename_i hsome
    constructor
    · intro h
      cases h
    · rintro ⟨-, hnone⟩
      exact absurd hnone hsome

theorem ofText_eq_error_iff {text : List Char} {lacking : List Placeholder} :
    ofText text = .error lacking ↔ lacking ≠ [] ∧ lacking = missing text := by
  unfold ofText
  split
  · rename_i hnone
    rw [hnone]
    constructor
    · intro h
      cases h
    · rintro ⟨hne, rfl⟩
      exact absurd rfl hne
  · rename_i hsome
    rw [Except.error.injEq, eq_comm]
    constructor
    · rintro rfl
      exact ⟨hsome, rfl⟩
    · exact fun h => h.2

def braces : List Char := ['\x7b', '\x7b']

end Template

theorem Cut.not_braces_put {value : Placeholder → List Char}
    (hvalue : ∀ p, ¬Template.braces <:+: value p) {slots : List (Placeholder × List Char)}
    (hslots : ∀ slot ∈ slots, slot.2 ≠ [] ∧ '\x7b' ∉ slot.2) {lead : List Char}
    (hlead : '\x7b' ∉ lead) : ¬Template.braces <:+: Cut.put value ⟨lead, slots⟩ := by
  induction slots generalizing lead with
  | nil =>
    rw [Cut.put, List.flatMap_nil, List.append_nil]
    exact fun h => hlead (h.subset List.mem_cons_self)
  | cons slot rest ih =>
    obtain ⟨p, behind⟩ := slot
    rw [List.forall_mem_cons] at hslots
    obtain ⟨⟨hne, hnone⟩, hrest⟩ := hslots
    obtain ⟨c, behind, rfl⟩ := List.exists_cons_of_ne_nil hne
    rw [List.mem_cons, not_or] at hnone
    have hc : c ∉ Template.braces := by
      unfold Template.braces
      simp [Ne.symm hnone.1]
    have hput : Cut.put value ⟨c :: behind, rest⟩ = c :: Cut.put value ⟨behind, rest⟩ := rfl
    rw [Cut.put_cons, hput]
    unfold Template.braces at hc ⊢
    rw [Text.infix_behind_iff hlead, Text.infix_around_iff hc, not_or]
    exact ⟨hvalue p, ih hrest hnone.2⟩

namespace Template

theorem ofPieces_standard :
    Cut.ofPieces standard.pieces = ⟨"# ".toList,
      [(.container, "\n\n- **Kind:** ".toList), (.containerKind, "\n- **Language:** ".toList),
        (.language, "\n\n## Summary\n\n".toList), (.summary, "\n\n## Members\n\n".toList),
        (.members, "\n".toList)]⟩ := by
  decide +kernel

/-- Filling puts values in the place of tokens: the text is cut in one way at all tokens that stand
in it, and every placeholder is among them. -/
structure FillsTokens (t : Template) : Prop where
  existsUnique : ∃! cut : Cut, cut.Of t.text
  fill : ∀ cut : Cut, cut.Of t.text → ∀ e value, Entry.Inserts e value → t.fill e = cut.put value
  each : ∀ cut : Cut, cut.Of t.text → ∀ p : Placeholder, p ∈ cut.slots.map Prod.fst

theorem fillsTokens {t : Template} (h : ∀ p : Placeholder, p.token.toList <:+: t.text) :
    t.FillsTokens where
  existsUnique := ⟨_, Cut.of_pieces t, fun cut hcut => hcut.unique (Cut.of_pieces t)⟩
  fill cut hcut e value hvalue := by
    rw [inserts_iff.mp hvalue, fill_eq_put, hcut.unique (Cut.of_pieces t)]
  each cut hcut p := by
    obtain ⟨i, hi⟩ := Placeholder.exists_standsAt_iff.mpr (h p)
    rw [← Cut.map_snd_places]
    exact List.mem_map_of_mem ((hcut.mem_places i p).mpr hi)

theorem not_braces_standard {e : Entry} {value : Placeholder → List Char} (h : e.Inserts value)
    (hvalue : ∀ p, ¬braces <:+: value p) : ¬braces <:+: standard.fill e := by
  rw [fill_eq_put, ← inserts_iff.mp h, ofPieces_standard]
  exact Cut.not_braces_put hvalue (by decide) (by decide)

/-- A text that is taken for a template is filled token by token; it is refused exactly if a token
stands nowhere in it, and the error names those in their order. A page of the standard template has
two braces only where a value has. -/
theorem ofText_fills_tokens (text : List Char) :
    (∀ t, ofText text = .ok t → t.text = text ∧ t.FillsTokens) ∧
    ((∃ lacking, ofText text = .error lacking) ↔
      ∃ p : Placeholder, ¬p.token.toList <:+: text) ∧
    (∀ lacking, ofText text = .error lacking →
      lacking = [.containerKind, .container, .language, .summary, .members].filter
          (fun p : Placeholder => ¬p.token.toList <:+: text) ∧
        (Error.templateLacks lacking).message = "Invalid template: missing placeholders: " ++
          String.intercalate ", " (lacking.map Placeholder.token)) ∧
    ∀ e value, Entry.Inserts e value → (∀ p, ¬braces <:+: value p) →
      ¬braces <:+: standard.fill e := by
  refine ⟨?_, ?_, ?_, ?_⟩
  · intro t ht
    obtain ⟨rfl, hall⟩ := ofText_eq_ok_iff.mp ht
    exact ⟨rfl, fillsTokens hall⟩
  · rw [← not_forall, ← missing_eq_nil_iff]
    constructor
    · rintro ⟨lacking, hlacking⟩
      obtain ⟨hne, rfl⟩ := ofText_eq_error_iff.mp hlacking
      exact hne
    · exact fun hne => ⟨_, ofText_eq_error_iff.mpr ⟨hne, rfl⟩⟩
  · intro lacking hlacking
    obtain ⟨-, rfl⟩ := ofText_eq_error_iff.mp hlacking
    exact ⟨missing_eq text, rfl⟩
  · intro e value hvalue
    exact not_braces_standard hvalue

def braced : List Char :=
  ("\x7b" ++ Placeholder.container.token ++ "\x7d" ++ Placeholder.containerKind.token ++
    Placeholder.language.token ++ Placeholder.summary.token ++ Placeholder.members.token).toList

theorem ofText_fills_tokens_braced :
    ofText braced = .ok ⟨braced⟩ ∧ FillsTokens ⟨braced⟩ ∧
      fill ⟨braced⟩ { container := "a", language := .go, summary := Placeholder.summary.token } =
        "\x7ba\x7dunknowngo\x7b\x7bSUMMARY\x7d\x7d_No public members detected._".toList ∧
      ofText Placeholder.container.token.toList =
        .error [.containerKind, .language, .summary, .members] ∧
      ¬Placeholder.summary.token.toList <:+: Placeholder.container.token.toList ∧
      ¬braces <:+: standard.fill { container := "a" } := by
  have hok : ofText braced = .ok ⟨braced⟩ := by decide +kernel
  have herror : ofText Placeholder.container.token.toList =
      .error [.containerKind, .language, .summary, .members] := by decide +kernel
  obtain ⟨hfills, -, -, hbraces⟩ := ofText_fills_tokens braced
  obtain ⟨-, -, hlacking, -⟩ := ofText_fills_tokens Placeholder.container.token.toList
  refine ⟨hok, (hfills _ hok).2, by decide +kernel, herror, ?_, ?_⟩
  · have hmem : Placeholder.summary ∈ [.containerKind, .language, .summary, .members] := by decide
    rw [(hlacking _ herror).1, List.mem_filter] at hmem
    simpa using hmem.2
  · refine hbraces _ _ (inserts_iff.mpr rfl) fun p => ?_
    cases p <;> decide +kernel

end Template

end ApiAtlas
