import ApiAtlas.Scan.Qualified
import Mathlib.Data.List.Basic
import Mathlib.Tactic.Common

/-!
What readings take. A reading looks at nothing behind what it takes, so it is described by the texts
it can take, and each way to combine readings is one to combine such descriptions. A header then
stands at the front of a text exactly if the text falls into a lead, a name and a tail.
-/
namespace ApiAtlas.Scan

namespace Taken

@[simp] theorem size_plus (n : Nat) (taken : Taken) : (taken.plus n).size = n + taken.size := rfl

@[simp] theorem rest_plus (n : Nat) (taken : Taken) : (taken.plus n).rest = taken.rest := rfl

@[simp] theorem plus_mk (n size : Nat) (rest : List Char) :
    (Taken.mk size rest).plus n = ⟨n + size, rest⟩ := rfl

@[simp] theorem plus_zero : plus 0 = id := by
  funext taken
  simp [plus]

@[simp] theorem plus_plus (n m : Nat) (taken : Taken) :
    (taken.plus m).plus n = taken.plus (n + m) := by
  simp [plus, Nat.add_assoc]

end Taken

/-- `r` takes exactly the texts in `L`, whatever stands behind them. -/
def Reads (r : Reading) (L : List Char → Prop) : Prop :=
  ∀ cs taken, taken ∈ r cs ↔
    ∃ front rest, L front ∧ cs = front ++ rest ∧ taken = ⟨front.length, rest⟩

def Then (L M : List Char → Prop) (cs : List Char) : Prop := ∃ a b, L a ∧ M b ∧ cs = a ++ b

inductive Rounds (L : List Char → Prop) : List Char → Prop where
  | none : Rounds L []
  | more {a b : List Char} (head : L a) (tail : Rounds L b) : Rounds L (a ++ b)

structure IsRun (p : Char → Bool) (cs : List Char) : Prop where
  ne_nil : cs ≠ []
  all : ∀ c ∈ cs, p c = true

theorem Reads.mem {r : Reading} {L : List Char → Prop} (h : Reads r L) {front : List Char}
    (hfront : L front) (rest : List Char) : ⟨front.length, rest⟩ ∈ r (front ++ rest) :=
  (h _ _).mpr ⟨front, rest, hfront, rfl, rfl⟩

section

variable (p : Char → Bool) (c : Char) (cs : List Char)

theorem runFrom_eq (n : Nat) (shorter : List Taken) :
    runFrom p n shorter cs = (many p cs).map (.plus n) ++ shorter := by
  induction cs generalizing n shorter with
  | nil => simp [many, runFrom]
  | cons c cs ih =>
    unfold many
    rw [runFrom, runFrom]
    split
    · rw [ih, ih (0 + 1)]
      simp [Function.comp_def]
    · simp

theorem many_nil : many p [] = [⟨0, []⟩] := rfl

theorem many_cons :
    many p (c :: cs) = (if p c then (many p cs).map (.plus 1) else []) ++ [⟨0, c :: cs⟩] := by
  unfold many
  rw [runFrom]
  split
  · rw [runFrom_eq]
    rfl
  · rfl

theorem some1_nil : some1 p [] = [] := rfl

theorem some1_cons : some1 p (c :: cs) = if p c then (many p cs).map (.plus 1) else [] := by
  rw [some1]
  split
  · rw [runFrom_eq, List.append_nil]
  · rfl

theorem head?_many :
    (many p cs).head? = some ⟨(cs.takeWhile p).length, cs.dropWhile p⟩ := by
  induction cs with
  | nil => rfl
  | cons c cs ih =>
    rw [many_cons]
    by_cases hc : p c
    · simp [hc, ih, Nat.add_comm]
    · simp [hc]

end

section

variable {r a b : Reading} {L M : List Char → Prop}

theorem reads_many (p : Char → Bool) : Reads (many p) fun front => ∀ c ∈ front, p c = true := by
  intro cs taken
  induction cs generalizing taken with
  | nil =>
    rw [many_nil, List.mem_singleton]
    constructor
    · rintro rfl
      exact ⟨[], [], List.forall_mem_nil _, rfl, rfl⟩
    · rintro ⟨front, rest, -, hcs, rfl⟩
      obtain ⟨rfl, rfl⟩ := List.append_eq_nil_iff.mp hcs.symm
      rfl
  | cons c cs ih =>
    rw [many_cons, List.mem_append, List.mem_singleton]
    constructor
    · rintro (hmore | rfl)
      · split at hmore
        · rename_i hc
          obtain ⟨inner, hinner, rfl⟩ := List.mem_map.mp hmore
          obtain ⟨front, rest, hfront, rfl, rfl⟩ := (ih inner).mp hinner
          refine ⟨c :: front, rest, List.forall_mem_cons.mpr ⟨hc, hfront⟩, rfl, ?_⟩
          rw [Taken.plus_mk, List.length_cons, Nat.add_comm]
        · cases hmore
      · exact ⟨[], c :: cs, List.forall_mem_nil _, rfl, rfl⟩
    · rintro ⟨front, rest, hfront, hcs, rfl⟩
      cases front with
      | nil => exact .inr (by rw [hcs]; rfl)
      | cons d front =>
        obtain ⟨rfl, rfl⟩ := List.cons.inj hcs
        rw [List.forall_mem_cons] at hfront
        rw [if_pos hfront.1, List.length_cons, Nat.add_comm]
        exact .inl (List.mem_map_of_mem ((ih _).mpr ⟨front, rest, hfront.2, rfl, rfl⟩))

theorem reads_some1 (p : Char → Bool) : Reads (some1 p) (IsRun p) := by
  intro cs taken
  cases cs with
  | nil =>
    rw [some1_nil]
    constructor
    · intro h
      cases h
    · rintro ⟨front, rest, hfront, hcs, -⟩
      exact absurd (List.append_eq_nil_iff.mp hcs.symm).1 hfront.ne_nil
  | cons c cs =>
    rw [some1_cons]
    constructor
    · intro h
      split at h
      · rename_i hc
        obtain ⟨inner, hinner, rfl⟩ := List.mem_map.mp h
        obtain ⟨front, rest, hfront, rfl, rfl⟩ := (reads_many p cs inner).mp hinner
        refine ⟨c :: front, rest, ⟨List.cons_ne_nil c front, ?_⟩, rfl, ?_⟩
        · exact List.forall_mem_cons.mpr ⟨hc, hfront⟩
        · rw [Taken.plus_mk, List.length_cons, Nat.add_comm]
      · cases h
    · rintro ⟨front, rest, hfront, hcs, rfl⟩
      cases front with
      | nil => exact absurd rfl hfront.ne_nil
      | cons d front =>
        obtain ⟨rfl, rfl⟩ := List.cons.inj hcs
        have hall := List.forall_mem_cons.mp hfront.all
        rw [if_pos hall.1, List.length_cons, Nat.add_comm]
        exact List.mem_map_of_mem ((reads_many p).mem hall.2 rest)

theorem isRun_of_mem_some1 {p : Char → Bool} {cs : List Char} {taken : Taken}
    (h : taken ∈ some1 p cs) : IsRun p (cs.take taken.size) := by
  obtain ⟨front, rest, hfront, rfl, rfl⟩ := (reads_some1 p cs taken).mp h
  rwa [List.take_left]

theorem literalFrom_eq (n : Nat) (ws cs : List Char) :
    literalFrom n ws cs = (literalFrom 0 ws cs).map (.plus n) := by
  induction ws generalizing n cs with
  | nil => simp [literalFrom]
  | cons w ws ih =>
    cases cs with
    | nil => rfl
    | cons c cs =>
      rw [literalFrom, literalFrom]
      split
      · rw [ih, ih (0 + 1), List.map_map]
        simp [Function.comp_def]
      · rfl

theorem reads_word (s : String) : Reads (word s) (· = s.toList) := by
  intro cs taken
  unfold word
  induction s.toList generalizing cs taken with
  | nil =>
    rw [literalFrom, List.mem_singleton]
    constructor
    · rintro rfl
      exact ⟨[], cs, rfl, rfl, rfl⟩
    · rintro ⟨_, rest, rfl, rfl, rfl⟩
      rfl
  | cons w ws ih =>
    cases cs with
    | nil =>
      rw [literalFrom]
      constructor
      · intro h
        cases h
      · rintro ⟨_, rest, rfl, hcs, rfl⟩
        cases hcs
    | cons c cs =>
      rw [literalFrom, literalFrom_eq]
      constructor
      · intro h
        split at h
        · rename_i hc
          obtain ⟨inner, hinner, rfl⟩ := List.mem_map.mp h
          obtain ⟨_, rest, rfl, rfl, rfl⟩ := (ih _ _).mp hinner
          refine ⟨_, rest, rfl, by rw [hc]; rfl, ?_⟩
          rw [Taken.plus_mk, List.length_cons, Nat.add_comm]
        · cases h
      · rintro ⟨_, rest, rfl, hcs, rfl⟩
        obtain ⟨rfl, rfl⟩ := List.cons.inj hcs
        rw [if_pos rfl, List.length_cons, Nat.add_comm ws.length]
        exact List.mem_map_of_mem ((ih _ _).mpr ⟨_, rest, rfl, rfl, rfl⟩)

theorem Reads.seq (ha : Reads a L) (hb : Reads b M) : Reads (seq a b) (Then L M) := by
  intro cs taken
  unfold Scan.seq
  rw [List.mem_flatMap]
  constructor
  · rintro ⟨first, hfirst, htaken⟩
    obtain ⟨second, hsecond, rfl⟩ := List.mem_map.mp htaken
    obtain ⟨front, rest, hfront, rfl, rfl⟩ := (ha _ _).mp hfirst
    obtain ⟨next, rest, hnext, rfl, rfl⟩ := (hb _ _).mp hsecond
    refine ⟨front ++ next, rest, ⟨front, next, hfront, hnext, rfl⟩, ?_, ?_⟩
    · rw [List.append_assoc]
    · rw [Taken.plus_mk, List.length_append]
  · rintro ⟨_, rest, ⟨front, next, hfront, hnext, rfl⟩, rfl, rfl⟩
    refine ⟨_, List.append_assoc front next rest ▸ ha.mem hfront (next ++ rest), ?_⟩
    rw [List.length_append, ← Taken.plus_mk]
    exact List.mem_map_of_mem (hb.mem hnext rest)

theorem Reads.optional (h : Reads r L) :
    Reads (optional r) fun front => L front ∨ front = [] := by
  intro cs taken
  unfold Scan.optional
  rw [List.mem_append, List.mem_singleton, h]
  constructor
  · rintro (⟨front, rest, hfront, rfl, rfl⟩ | rfl)
    · exact ⟨front, rest, .inl hfront, rfl, rfl⟩
    · exact ⟨[], cs, .inr rfl, rfl, rfl⟩
  · rintro ⟨front, rest, hfront | rfl, rfl, rfl⟩
    · exact .inl ⟨front, rest, hfront, rfl, rfl⟩
    · exact .inr rfl

theorem reads_oneOf {ι : Type} {items : List ι} {r : ι → Reading} {L : ι → List Char → Prop}
    (h : ∀ i ∈ items, Reads (r i) (L i)) :
    Reads (oneOf (items.map r)) fun front => ∃ i ∈ items, L i front := by
  intro cs taken
  unfold oneOf
  rw [List.flatMap_map, List.mem_flatMap]
  constructor
  · rintro ⟨i, hi, htaken⟩
    obtain ⟨front, rest, hfront, rfl, rfl⟩ := (h i hi _ _).mp htaken
    exact ⟨front, rest, ⟨i, hi, hfront⟩, rfl, rfl⟩
  · rintro ⟨front, rest, ⟨i, hi, hfront⟩, rfl, rfl⟩
    exact ⟨i, hi, (h i hi).mem hfront rest⟩

/-- The ways to read `r` as often as it can be, or less often, and at most as often as `bound` is
long. -/
def repeats (r : Reading) : (bound : List Char) → Reading
  | [] => fun cs => [⟨0, cs⟩]
  | _ :: bound => optional (seq r (repeats r bound))

theorem repeatOnto_eq (r : Reading) (bound : List Char) (size : Nat) (cs : List Char)
    (others : List Taken) :
    repeatOnto r bound size cs others = (repeats r bound cs).map (.plus size) ++ others := by
  induction bound generalizing size cs others with
  | nil => simp [repeatOnto, repeats]
  | cons d bound ih =>
    rw [repeatOnto, repeats, optional, seq, List.map_append, List.append_assoc]
    induction r cs with
    | nil => simp
    | cons taken more ihmore =>
      rw [List.foldr_cons, ihmore, ih]
      simp [List.append_assoc, Function.comp_def]

theorem flatMap_filter_of {α β : Type} {l : List α} {p : α → Bool} {f : α → List β}
    (h : ∀ x ∈ l, p x = false → f x = []) : (l.filter p).flatMap f = l.flatMap f := by
  induction l with
  | nil => rfl
  | cons x l ih =>
    rw [List.forall_mem_cons] at h
    rw [List.filter_cons]
    split
    · rw [List.flatMap_cons, List.flatMap_cons, ih h.2]
    · rename_i hx
      rw [List.flatMap_cons, h.1 (Bool.not_eq_true _ ▸ hx), List.nil_append, ih h.2]

theorem seq_congr {a b b' : Reading} {cs : List Char}
    (h : ∀ taken ∈ a cs, b taken.rest = b' taken.rest) : seq a b cs = seq a b' cs :=
  List.flatMap_congr fun taken htaken => by rw [h taken htaken]

section

variable (hshort : ∀ cs, ∀ taken ∈ r cs, taken.rest.length < cs.length)
include hshort

theorem repeats_nil (bound : List Char) : repeats r bound [] = [⟨0, []⟩] := by
  have hnone : r [] = [] := by
    rw [List.eq_nil_iff_forall_not_mem]
    intro taken htaken
    exact Nat.not_lt_zero _ (hshort [] taken htaken)
  cases bound with
  | nil => rfl
  | cons d bound => rw [repeats, optional, seq, hnone]; rfl

theorem repeats_congr {bound bound' cs : List Char} (h : cs.length ≤ bound.length)
    (h' : cs.length ≤ bound'.length) : repeats r bound cs = repeats r bound' cs := by
  induction bound generalizing bound' cs with
  | nil =>
    rw [List.length_eq_zero_iff.mp (Nat.le_zero.mp h), repeats_nil hshort, repeats_nil hshort]
  | cons d bound ih =>
    cases bound' with
    | nil =>
      rw [List.length_eq_zero_iff.mp (Nat.le_zero.mp h'), repeats_nil hshort, repeats_nil hshort]
    | cons d' bound' =>
      rw [repeats, repeats, optional, optional, seq_congr]
      intro taken htaken
      have hless := hshort cs taken htaken
      rw [List.length_cons] at h h'
      exact ih (by omega) (by omega)

theorem repeated_eq (cs : List Char) : repeated r cs = optional (seq r (repeated r)) cs := by
  have hrepeated (cs : List Char) : repeated r cs = repeats r cs cs := by
    unfold repeated
    rw [repeatOnto_eq]
    simp
  have hmore : cs.length ≤ (' ' :: cs).length := Nat.le_succ _
  rw [hrepeated, repeats_congr hshort (Nat.le_refl _) hmore, repeats, optional, optional, seq_congr]
  intro taken htaken
  rw [hrepeated]
  exact repeats_congr hshort (Nat.le_of_lt (hshort cs taken htaken)) (Nat.le_refl _)

end

theorem Reads.shorter (h : Reads r L) (hne : ¬L []) {cs : List Char} {taken : Taken}
    (htaken : taken ∈ r cs) : taken.rest.length < cs.length := by
  obtain ⟨front, rest, hfront, rfl, rfl⟩ := (h _ _).mp htaken
  have hpos : 0 < front.length := List.length_pos_iff.mpr fun hnil => hne (hnil ▸ hfront)
  simp only [List.length_append]
  omega

theorem Reads.repeated (h : Reads r L) (hne : ¬L []) : Reads (repeated r) (Rounds L) := by
  intro cs
  induction hlength : cs.length using Nat.strongRecOn generalizing cs with
  | ind n ih =>
    intro taken
    rw [repeated_eq (fun _ _ => h.shorter hne), Scan.optional, Scan.seq, List.mem_append,
      List.mem_singleton, List.mem_flatMap]
    constructor
    · rintro (⟨first, hfirst, htaken⟩ | rfl)
      · obtain ⟨second, hsecond, rfl⟩ := List.mem_map.mp htaken
        rw [ih _ (hlength ▸ h.shorter hne hfirst) _ rfl] at hsecond
        obtain ⟨next, rest, hnext, hrest, rfl⟩ := hsecond
        obtain ⟨front, _, hfront, rfl, rfl⟩ := (h _ _).mp hfirst
        refine ⟨front ++ next, rest, .more hfront hnext, ?_, ?_⟩
        · rw [List.append_assoc, ← hrest]
        · rw [Taken.plus_mk, List.length_append]
      · exact ⟨[], cs, .none, rfl, rfl⟩
    · rintro ⟨_, rest, hrounds, rfl, rfl⟩
      cases hrounds with
      | none => exact .inr rfl
      | @more front next hfront hnext =>
        have hfirst := List.append_assoc front next rest ▸ h.mem hfront (next ++ rest)
        refine .inl ⟨_, hfirst, ?_⟩
        rw [List.length_append, ← Taken.plus_mk]
        apply List.mem_map_of_mem
        rw [ih _ (hlength ▸ h.shorter hne hfirst) _ rfl]
        exact ⟨next, rest, hnext, rfl, rfl⟩

theorem upToFrom_eq (close : Char) (n : Nat) (cs : List Char) :
    upToFrom close n cs = (upTo close cs).map (.plus n) := by
  unfold upTo
  induction cs generalizing n with
  | nil => rfl
  | cons c cs ih =>
    rw [upToFrom, upToFrom, ih, ih (0 + 1)]
    split <;> split <;> simp [Function.comp_def]

theorem upTo_cons (close c : Char) (cs : List Char) :
    upTo close (c :: cs) = (if c = close then [⟨1, cs⟩] else []) ++
      (if c = '\n' then [] else (upTo close cs).map (.plus 1)) := by
  rw [← upToFrom_eq, upTo, upToFrom]

theorem reads_upTo (close : Char) :
    Reads (upTo close) fun front => ∃ inside, '\n' ∉ inside ∧ front = inside ++ [close] := by
  intro cs taken
  induction cs generalizing taken with
  | nil =>
    constructor
    · intro h
      cases h
    · rintro ⟨_, rest, ⟨inside, -, rfl⟩, hcs, -⟩
      simp at hcs
  | cons c cs ih =>
    rw [upTo_cons, List.mem_append]
    constructor
    · rintro (hclose | hmore)
      · split at hclose
        · rename_i hc
          rw [List.mem_singleton.mp hclose, hc]
          exact ⟨[close], cs, ⟨[], List.not_mem_nil, rfl⟩, rfl, rfl⟩
        · cases hclose
      · split at hmore
        · cases hmore
        · rename_i hc
          obtain ⟨inner, hinner, rfl⟩ := List.mem_map.mp hmore
          obtain ⟨_, rest, ⟨inside, hinside, rfl⟩, rfl, rfl⟩ := (ih _).mp hinner
          refine ⟨c :: inside ++ [close], rest, ⟨c :: inside, ?_, rfl⟩, rfl, ?_⟩
          · exact List.not_mem_cons_of_ne_of_not_mem (Ne.symm hc) hinside
          · simp [Nat.add_comm]
    · rintro ⟨_, rest, ⟨inside, hinside, rfl⟩, hcs, rfl⟩
      cases inside with
      | nil =>
        obtain ⟨rfl, rfl⟩ := List.cons.inj hcs
        exact .inl (by simp)
      | cons d inside =>
        obtain ⟨rfl, rfl⟩ := List.cons.inj hcs
        rw [List.mem_cons, not_or] at hinside
        rw [if_neg (Ne.symm hinside.1)]
        refine .inr (List.mem_map.mpr ⟨_, (ih _).mpr ⟨_, rest, ⟨inside, hinside.2, rfl⟩, rfl, rfl⟩, ?_⟩)
        simp [Nat.add_comm]

theorem reads_blanks : Reads blanks fun front => ∀ c ∈ front, Text.isBlank c = true :=
  reads_many Text.isBlank

def Spaced (s : String) : List Char → Prop := Then (· = s.toList) (IsRun Text.isBlank)

theorem reads_spaced (s : String) : Reads (spaced s) (Spaced s) :=
  (reads_word s).seq (reads_some1 Text.isBlank)

theorem reads_openParen :
    Reads openParen (Then (fun front => ∀ c ∈ front, Text.isBlank c = true) (· = ['('])) :=
  reads_blanks.seq (reads_word "(")

end

def LeadReads {κ : Type} (lead : List Char → List (κ × Taken)) (leads : κ → List Char → Prop) :
    Prop :=
  ∀ cs note taken, (note, taken) ∈ lead cs ↔
    ∃ front rest, leads note front ∧ cs = front ++ rest ∧ taken = ⟨front.length, rest⟩

section

variable {κ : Type}

theorem Reads.lead {r : Reading} {L : List Char → Prop} (h : Reads r L) (note : κ) :
    LeadReads (fun cs => (r cs).map (note, ·)) fun n front => n = note ∧ L front := by
  intro cs n taken
  rw [List.mem_map]
  constructor
  · rintro ⟨_, htaken, heq⟩
    obtain ⟨rfl, rfl⟩ := Prod.mk.inj heq
    obtain ⟨front, rest, hfront, rfl, rfl⟩ := (h _ _).mp htaken
    exact ⟨front, rest, ⟨rfl, hfront⟩, rfl, rfl⟩
  · rintro ⟨front, rest, ⟨rfl, hfront⟩, rfl, rfl⟩
    exact ⟨_, h.mem hfront rest, rfl⟩

theorem LeadReads.append {lead other : List Char → List (κ × Taken)}
    {leads others : κ → List Char → Prop} (h : LeadReads lead leads)
    (h' : LeadReads other others) :
    LeadReads (fun cs => lead cs ++ other cs) fun n front => leads n front ∨ others n front := by
  intro cs n taken
  rw [List.mem_append, h, h']
  constructor
  · rintro (⟨front, rest, hfront, hrest⟩ | ⟨front, rest, hfront, hrest⟩)
    · exact ⟨front, rest, .inl hfront, hrest⟩
    · exact ⟨front, rest, .inr hfront, hrest⟩
  · rintro ⟨front, rest, hfront | hfront, hrest⟩
    · exact .inl ⟨front, rest, hfront, hrest⟩
    · exact .inr ⟨front, rest, hfront, hrest⟩

end

namespace Header

variable {κ : Type}

/-- The texts that can be the lead of a header, with what they tell, and those that can be its
tail. -/
structure Spells (h : Header κ) (leads : κ → List Char → Prop) (tails : List Char → Prop) :
    Prop where
  lead : LeadReads h.lead leads
  tail : Reads h.tail tails

variable {h : Header κ} {leads : κ → List Char → Prop} {tails : List Char → Prop}

/-- A header is read as a lead, a name and a tail. -/
theorem Spells.parts (hs : h.Spells leads tails) {cs : List Char} {hit : Hit κ} {size : Nat}
    (hread : h.readAt cs = some (hit, size)) :
    hit.text = cs ∧ ∃ lead tail rest, leads hit.note lead ∧ IsRun h.inName hit.name ∧ tails tail ∧
      cs = lead ++ (hit.name ++ (tail ++ rest)) ∧
      size = lead.length + hit.name.length + tail.length := by
  obtain ⟨⟨note, _⟩, hfirst, hread⟩ := List.exists_of_findSome?_eq_some hread
  obtain ⟨_, hsecond, hread⟩ := List.exists_of_findSome?_eq_some hread
  obtain ⟨_, hthird, hhit⟩ := Option.map_eq_some_iff.mp hread
  obtain ⟨rfl, rfl⟩ := Prod.mk.inj hhit
  obtain ⟨lead, _, hlead, rfl, rfl⟩ := (hs.lead _ _ _).mp hfirst
  obtain ⟨name, _, hname, rfl, rfl⟩ := (reads_some1 h.inName _ _).mp hsecond
  obtain ⟨tail, rest, htail, rfl, rfl⟩ := (hs.tail _ _).mp (List.mem_of_head? hthird)
  have htake : (name ++ (tail ++ rest)).take name.length = name := List.take_left
  refine ⟨rfl, lead, tail, rest, hlead, ?_, htail, ?_, ?_⟩
  · simpa only [htake] using hname
  · simp only [htake]
  · simp only [htake]

theorem Spells.isSome_readAt (hs : h.Spells leads tails) (note : κ) {lead name tail : List Char}
    (hlead : leads note lead) (hname : IsRun h.inName name) (htail : tails tail)
    (rest : List Char) : (h.readAt (lead ++ (name ++ (tail ++ rest)))).isSome := by
  have hlead := (hs.lead _ _ _).mpr ⟨lead, name ++ (tail ++ rest), hlead, rfl, rfl⟩
  have hname := (reads_some1 h.inName).mem hname (tail ++ rest)
  have htail := hs.tail.mem htail rest
  unfold readAt
  rw [List.findSome?_isSome_iff]
  refine ⟨_, hlead, ?_⟩
  rw [List.findSome?_isSome_iff]
  refine ⟨_, hname, ?_⟩
  rw [Option.isSome_map, List.isSome_head?]
  exact List.ne_nil_of_mem htail

end Header

end ApiAtlas.Scan
