import ApiAtlas.Proofs.Scan.Reading
import ApiAtlas.Scan.Module

/-!
Readings and carriage returns. With a return put before every line feed a reading stops where it did
before, and maybe in one more kind of place, between a return and its line feed. There blanks can be
read further, but nothing else can.
-/
namespace ApiAtlas

def Text.crlf (text : List Char) : List Char :=
  text.flatMap fun c => if c = '\n' then ['\r', '\n'] else [c]

namespace Text

@[simp] theorem crlf_nil : crlf [] = [] := rfl

@[simp] theorem crlf_feed (cs : List Char) : crlf ('\n' :: cs) = '\r' :: '\n' :: crlf cs := rfl

theorem crlf_cons {c : Char} (hc : c ≠ '\n') (cs : List Char) : crlf (c :: cs) = c :: crlf cs := by
  simp [crlf, hc]

@[simp] theorem crlf_append (a b : List Char) : crlf (a ++ b) = crlf a ++ crlf b :=
  List.flatMap_append

theorem crlf_eq_self {cs : List Char} (h : '\n' ∉ cs) : crlf cs = cs := by
  induction cs with
  | nil => rfl
  | cons c cs ih =>
    rw [List.mem_cons, not_or] at h
    rw [crlf_cons (Ne.symm h.1), ih h.2]

end Text

namespace Scan

open Text (crlf)

/-- A place that is not between a return and its line feed, told by the text behind it. -/
def isWhole (rest : List Char) : Bool := rest.head? ≠ some '\n'

theorem isWhole_cons {c : Char} (hc : c ≠ '\n') (rest : List Char) : isWhole (c :: rest) = true := by
  simp [isWhole, hc]

@[simp] theorem isWhole_crlf (cs : List Char) : isWhole (crlf cs) = true := by
  cases cs with
  | nil => rfl
  | cons c cs =>
    by_cases hc : c = '\n'
    · rw [hc]
      rfl
    · rw [Text.crlf_cons hc, isWhole_cons hc]

def stops (r : Reading) (cs : List Char) : List (List Char) := (r cs).map (·.rest)

theorem stops_seq (a b : Reading) (cs : List Char) :
    stops (seq a b) cs = (stops a cs).flatMap (stops b) := by
  simp [stops, seq, List.map_flatMap, List.flatMap_map, Function.comp_def]

theorem stops_optional (r : Reading) (cs : List Char) :
    stops (optional r) cs = stops r cs ++ [cs] := by
  simp [stops, optional]

/-- With returns, a reading stops at the same places and maybe inside line breaks. -/
def SteadyAt (r : Reading) (cs : List Char) : Prop :=
  (stops r (crlf cs)).filter isWhole = (stops r cs).map crlf

def Steady (r : Reading) : Prop := ∀ cs, SteadyAt r cs

/-- With returns, a reading stops at the same places. -/
def Even (r : Reading) : Prop := ∀ cs, stops r (crlf cs) = (stops r cs).map crlf

/-- From inside a line break a reading does not get away. -/
def Stuck (r : Reading) : Prop := ∀ cs, ∀ rest ∈ stops r ('\n' :: cs), isWhole rest = false

def Refuses (r : Reading) : Prop := ∀ cs, r ('\n' :: cs) = []

theorem eq_feed_of_isWhole {rest : List Char} (h : isWhole rest = false) :
    ∃ cs, rest = '\n' :: cs := by
  cases rest with
  | nil => cases h
  | cons c cs =>
    by_cases hc : c = '\n'
    · exact ⟨cs, by rw [hc]⟩
    · rw [isWhole_cons hc] at h
      cases h

variable {r a b : Reading} {p : Char → Bool}

theorem Even.steady (h : Even r) : Steady r := by
  intro cs
  unfold SteadyAt
  rw [h, List.filter_eq_self]
  intro rest hrest
  obtain ⟨x, -, rfl⟩ := List.mem_map.mp hrest
  exact isWhole_crlf x

theorem Refuses.stuck (h : Refuses r) : Stuck r := by
  intro cs rest hrest
  rw [stops, h] at hrest
  cases hrest

theorem flatMap_filter_isWhole {α : Type} {f : List Char → List α}
    (hf : ∀ cs, f ('\n' :: cs) = []) (rests : List (List Char)) :
    (rests.filter isWhole).flatMap f = rests.flatMap f := by
  refine flatMap_filter_of fun rest _ hcut => ?_
  obtain ⟨cs, rfl⟩ := eq_feed_of_isWhole hcut
  exact hf cs

theorem steadyAt_seq {cs : List Char} (ha : SteadyAt a cs)
    (hb : ∀ rest ∈ stops a cs, SteadyAt b rest) (hstuck : Stuck b) : SteadyAt (seq a b) cs := by
  have hcut (cs : List Char) : (stops b ('\n' :: cs)).filter isWhole = [] := by
    rw [List.filter_eq_nil_iff]
    intro rest hrest
    simp [hstuck cs rest hrest]
  calc (stops (seq a b) (crlf cs)).filter isWhole
      = (stops a (crlf cs)).flatMap fun rest => (stops b rest).filter isWhole := by
        rw [stops_seq, List.filter_flatMap]
    _ = ((stops a cs).map crlf).flatMap fun rest => (stops b rest).filter isWhole := by
        rw [← ha, flatMap_filter_isWhole hcut]
    _ = (stops a cs).flatMap fun rest => (stops b rest).map crlf := by
        rw [List.flatMap_map]
        exact List.flatMap_congr fun rest hrest => hb rest hrest
    _ = (stops (seq a b) cs).map crlf := by rw [stops_seq, List.map_flatMap]

theorem Steady.seq (ha : Steady a) (hb : Steady b) (hstuck : Stuck b) : Steady (seq a b) :=
  fun cs => steadyAt_seq (ha cs) (fun rest _ => hb rest) hstuck

theorem Even.seq_steady (ha : Even a) (hb : Steady b) : Steady (Scan.seq a b) := by
  intro cs
  unfold SteadyAt
  rw [stops_seq, stops_seq, ha, List.filter_flatMap, List.flatMap_map, List.map_flatMap]
  exact List.flatMap_congr fun rest _ => hb rest

theorem Even.seq (ha : Even a) (hb : Even b) : Even (Scan.seq a b) := by
  intro cs
  rw [stops_seq, stops_seq, ha, List.flatMap_map, List.map_flatMap]
  exact List.flatMap_congr fun rest _ => hb rest

theorem Steady.seq_even (ha : Steady a) (hb : Even b) (hrefuses : Refuses b) :
    Even (Scan.seq a b) := by
  intro cs
  have hcut (cs : List Char) : stops b ('\n' :: cs) = [] := by rw [stops, hrefuses]; rfl
  rw [stops_seq, stops_seq, ← flatMap_filter_isWhole hcut, ha, List.flatMap_map, List.map_flatMap]
  exact List.flatMap_congr fun rest _ => hb rest

theorem Stuck.seq_refuses (ha : Stuck a) (hb : Refuses b) : Refuses (Scan.seq a b) := by
  intro cs
  unfold Scan.seq
  rw [List.flatMap_eq_nil_iff]
  intro taken htaken
  obtain ⟨rest, hrest⟩ := eq_feed_of_isWhole (ha cs _ (List.mem_map_of_mem htaken))
  rw [hrest, hb]
  rfl

theorem Refuses.seq (ha : Refuses a) (b : Reading) : Refuses (Scan.seq a b) := by
  intro cs
  rw [Scan.seq, ha]
  rfl

theorem SteadyAt.optional {cs : List Char} (h : SteadyAt r cs) : SteadyAt (optional r) cs := by
  unfold SteadyAt
  rw [stops_optional, stops_optional, List.filter_append, h, List.map_append]
  simp

theorem Steady.optional (h : Steady r) : Steady (optional r) := fun cs => (h cs).optional

theorem Stuck.optional (h : Stuck r) : Stuck (optional r) := by
  intro cs rest hrest
  rw [stops_optional, List.mem_append, List.mem_singleton] at hrest
  rcases hrest with hrest | rfl
  · exact h cs rest hrest
  · rfl

theorem stops_oneOf (rs : List Reading) (cs : List Char) :
    stops (oneOf rs) cs = rs.flatMap fun r => stops r cs := by
  rw [stops, oneOf, List.map_flatMap]
  rfl

theorem steady_oneOf {rs : List Reading} (h : ∀ r ∈ rs, Steady r) : Steady (oneOf rs) := by
  intro cs
  unfold SteadyAt
  rw [stops_oneOf, stops_oneOf, List.filter_flatMap, List.map_flatMap]
  exact List.flatMap_congr fun r hr => h r hr cs

theorem even_oneOf {rs : List Reading} (h : ∀ r ∈ rs, Even r) : Even (oneOf rs) := by
  intro cs
  rw [stops_oneOf, stops_oneOf, List.map_flatMap]
  exact List.flatMap_congr fun r hr => h r hr cs

theorem refuses_oneOf {rs : List Reading} (h : ∀ r ∈ rs, Refuses r) : Refuses (oneOf rs) := by
  intro cs
  unfold oneOf
  rw [List.flatMap_eq_nil_iff]
  exact fun r hr => h r hr cs

theorem stops_many_cons (p : Char → Bool) (c : Char) (cs : List Char) :
    stops (many p) (c :: cs) = (if p c then stops (many p) cs else []) ++ [c :: cs] := by
  unfold stops
  rw [many_cons]
  split <;> simp [Function.comp_def]

theorem stops_some1_cons (p : Char → Bool) (c : Char) (cs : List Char) :
    stops (some1 p) (c :: cs) = if p c then stops (many p) cs else [] := by
  unfold stops
  rw [some1_cons]
  split <;> simp [Function.comp_def]

theorem steady_many (h : p '\r' = p '\n') : Steady (many p) := by
  intro cs
  unfold SteadyAt
  induction cs with
  | nil => rfl
  | cons c cs ih =>
    by_cases hc : c = '\n'
    · subst hc
      rw [Text.crlf_feed, stops_many_cons, stops_many_cons, stops_many_cons, h]
      split
      · simp [ih, isWhole]
      · simp [isWhole]
    · rw [Text.crlf_cons hc, stops_many_cons, stops_many_cons]
      split
      · simp [ih, isWhole_cons hc, Text.crlf_cons hc]
      · simp [isWhole_cons hc, Text.crlf_cons hc]

theorem steady_some1 (h : p '\r' = p '\n') : Steady (some1 p) := by
  intro cs
  unfold SteadyAt
  cases cs with
  | nil => rfl
  | cons c cs =>
    by_cases hc : c = '\n'
    · subst hc
      rw [Text.crlf_feed, stops_some1_cons, stops_some1_cons, stops_many_cons, h]
      split
      · rw [List.filter_append, steady_many h cs]
        simp [isWhole]
      · rfl
    · rw [Text.crlf_cons hc, stops_some1_cons, stops_some1_cons]
      split
      · exact steady_many h cs
      · rfl

theorem many_crlf (hreturn : p '\r' = false) (hfeed : p '\n' = false) (cs : List Char) :
    many p (crlf cs) = (many p cs).map fun taken => ⟨taken.size, crlf taken.rest⟩ := by
  induction cs with
  | nil => rfl
  | cons c cs ih =>
    by_cases hc : c = '\n'
    · subst hc
      simp [many_cons, hreturn, hfeed]
    · rw [Text.crlf_cons hc, many_cons, many_cons, ih]
      split <;> simp [Text.crlf_cons hc, Taken.plus]

theorem some1_crlf (hreturn : p '\r' = false) (hfeed : p '\n' = false) (cs : List Char) :
    some1 p (crlf cs) = (some1 p cs).map fun taken => ⟨taken.size, crlf taken.rest⟩ := by
  cases cs with
  | nil => rfl
  | cons c cs =>
    by_cases hc : c = '\n'
    · subst hc
      simp [some1_cons, hreturn, hfeed]
    · rw [Text.crlf_cons hc, some1_cons, some1_cons, many_crlf hreturn hfeed]
      split <;> simp [Taken.plus]

theorem even_some1 (hreturn : p '\r' = false) (hfeed : p '\n' = false) : Even (some1 p) := by
  intro cs
  unfold stops
  rw [some1_crlf hreturn hfeed, List.map_map, List.map_map]
  rfl

theorem refuses_some1 (hfeed : p '\n' = false) : Refuses (some1 p) := by
  intro cs
  rw [some1_cons, hfeed]
  rfl

def OnOneLine (s : String) : Prop := s.toList ≠ [] ∧ '\r' ∉ s.toList ∧ '\n' ∉ s.toList

instance (s : String) : Decidable (OnOneLine s) := inferInstanceAs (Decidable (_ ∧ _ ∧ _))

theorem even_word {s : String} (h : OnOneLine s) : Even (word s) := by
  intro cs
  unfold stops word
  obtain ⟨-, hreturn, hfeed⟩ := h
  generalize s.toList = ws at hreturn hfeed ⊢
  induction ws generalizing cs with
  | nil => rfl
  | cons w ws ih =>
    rw [List.mem_cons, not_or] at hreturn hfeed
    cases cs with
    | nil => rfl
    | cons c cs =>
      by_cases hc : c = '\n'
      · subst hc
        rw [Text.crlf_feed, literalFrom, literalFrom, if_neg hreturn.1, if_neg hfeed.1]
        rfl
      · rw [Text.crlf_cons hc, literalFrom, literalFrom, literalFrom_eq,
          literalFrom_eq (0 + 1) ws cs]
        split
        · simpa [Function.comp_def] using ih cs hreturn.2 hfeed.2
        · rfl

theorem refuses_word {s : String} (h : OnOneLine s) : Refuses (word s) := by
  intro cs
  unfold word
  cases hs : s.toList with
  | nil => exact absurd hs h.1
  | cons w ws =>
    have hfeed := h.2.2
    rw [hs, List.mem_cons, not_or] at hfeed
    rw [literalFrom, if_neg hfeed.1]

theorem steady_blanks : Steady blanks := steady_many rfl

theorem steady_blanks1 : Steady blanks1 := steady_some1 rfl

theorem steady_spaced {s : String} (h : OnOneLine s) : Steady (spaced s) :=
  (even_word h).seq_steady steady_blanks1

theorem refuses_spaced {s : String} (h : OnOneLine s) : Refuses (spaced s) :=
  (refuses_word h).seq blanks1

theorem even_upTo {close : Char} (hreturn : close ≠ '\r') (hfeed : close ≠ '\n') :
    Even (upTo close) := by
  intro cs
  unfold stops
  induction cs with
  | nil => rfl
  | cons c cs ih =>
    by_cases hc : c = '\n'
    · subst hc
      simp [upTo_cons, Ne.symm hreturn, Ne.symm hfeed]
    · rw [Text.crlf_cons hc, upTo_cons, upTo_cons, if_neg hc, if_neg hc]
      split <;> simpa [Function.comp_def] using ih

theorem stuck_repeated (hrefuses : Refuses r)
    (hshort : ∀ cs, ∀ taken ∈ r cs, taken.rest.length < cs.length) : Stuck (repeated r) := by
  intro cs rest hrest
  rw [stops, repeated_eq hshort] at hrest
  exact ((hrefuses.seq _).stuck.optional) cs rest hrest

/-- Over and over, a reading stays steady: each round begins at a stop of the round before. -/
theorem Steady.repeated (h : Steady r) (hrefuses : Refuses r)
    (hshort : ∀ cs, ∀ taken ∈ r cs, taken.rest.length < cs.length) : Steady (repeated r) := by
  have hstops (cs : List Char) :
      stops (Scan.repeated r) cs = stops (Scan.optional (Scan.seq r (Scan.repeated r))) cs := by
    rw [stops, repeated_eq hshort]
    rfl
  intro cs
  induction hlength : cs.length using Nat.strongRecOn generalizing cs with
  | ind n ih =>
    have honce : SteadyAt (Scan.seq r (Scan.repeated r)) cs := by
      refine steadyAt_seq (h cs) ?_ (stuck_repeated hrefuses hshort)
      intro rest hrest
      obtain ⟨taken, htaken, rfl⟩ := List.mem_map.mp hrest
      exact ih _ (hlength ▸ hshort cs taken htaken) _ rfl
    unfold SteadyAt
    rw [hstops, hstops]
    exact honce.optional

structure IsLead (r : Reading) : Prop where
  reads : ∃ L, Reads r L ∧ ¬L []
  steady : Steady r
  refuses : Refuses r

theorem isLead_spaced {s : String} (h : OnOneLine s) : IsLead (spaced s) where
  reads := by
    refine ⟨_, reads_spaced s, ?_⟩
    rintro ⟨_, _, rfl, -, heq⟩
    exact h.1 (List.append_eq_nil_iff.mp heq.symm).1
  steady := steady_spaced h
  refuses := refuses_spaced h

theorem isLead_type (hreturn : p '\r' = false) (hfeed : p '\n' = false) :
    IsLead (seq (some1 p) blanks1) where
  reads := by
    refine ⟨_, (reads_some1 p).seq (reads_some1 Text.isBlank), ?_⟩
    rintro ⟨_, _, hrun, -, heq⟩
    exact hrun.ne_nil (List.append_eq_nil_iff.mp heq.symm).1
  steady := (even_some1 hreturn hfeed).seq_steady steady_blanks1
  refuses := (refuses_some1 hfeed).seq blanks1

theorem isLead_receiver : IsLead receiver where
  reads := by
    refine ⟨_, (reads_word "(").seq ((reads_upTo ')').seq reads_blanks), ?_⟩
    rintro ⟨_, _, rfl, -, heq⟩
    cases heq
  steady := (even_word (by decide)).seq_steady ((even_upTo (by decide) (by decide)).seq_steady
    steady_blanks)
  refuses := (refuses_word (by decide)).seq _

theorem IsLead.seq (ha : IsLead a) (hb : IsLead b) : IsLead (seq a b) where
  reads := by
    obtain ⟨L, hL, hne⟩ := ha.reads
    obtain ⟨M, hM, -⟩ := hb.reads
    refine ⟨_, hL.seq hM, ?_⟩
    rintro ⟨_, _, hfront, -, heq⟩
    exact hne ((List.append_eq_nil_iff.mp heq.symm).1 ▸ hfront)
  steady := ha.steady.seq hb.steady hb.refuses.stuck
  refuses := ha.refuses.seq b

theorem IsLead.seq_of_stuck {L : List Char → Prop} (hreads : Reads a L) (hsteady : Steady a)
    (hstuck : Stuck a) (hb : IsLead b) : IsLead (Scan.seq a b) where
  reads := by
    obtain ⟨M, hM, hne⟩ := hb.reads
    refine ⟨_, hreads.seq hM, ?_⟩
    rintro ⟨_, _, -, hnext, heq⟩
    exact hne ((List.append_eq_nil_iff.mp heq.symm).2 ▸ hnext)
  steady := hsteady.seq hb.steady hb.refuses.stuck
  refuses := hstuck.seq_refuses hb.refuses

theorem IsLead.optional_seq (ha : IsLead a) (hb : IsLead b) : IsLead (Scan.seq (optional a) b) := by
  obtain ⟨L, hL, -⟩ := ha.reads
  exact .seq_of_stuck hL.optional ha.steady.optional ha.refuses.stuck.optional hb

theorem IsLead.repeated_seq (ha : IsLead a) (hb : IsLead b) : IsLead (Scan.seq (repeated a) b) := by
  obtain ⟨L, hL, hne⟩ := ha.reads
  have hshort (cs : List Char) (taken : Taken) (h : taken ∈ a cs) := hL.shorter hne h
  exact .seq_of_stuck (hL.repeated hne) (ha.steady.repeated ha.refuses hshort)
    (stuck_repeated ha.refuses hshort) hb

theorem isLead_oneOf_spaced {words : List String} (h : ∀ s ∈ words, OnOneLine s) :
    IsLead (oneOf (words.map spaced)) where
  reads := by
    refine ⟨_, reads_oneOf fun s _ => reads_spaced s, ?_⟩
    rintro ⟨s, hs, _, _, rfl, -, heq⟩
    exact (h s hs).1 (List.append_eq_nil_iff.mp heq.symm).1
  steady := steady_oneOf (List.forall_mem_map.mpr fun s hs => steady_spaced (h s hs))
  refuses := refuses_oneOf (List.forall_mem_map.mpr fun s hs => refuses_spaced (h s hs))

structure IsTail (r : Reading) : Prop where
  reads : ∃ L, Reads r L
  even : Even r

theorem isTail_nothing : IsTail (word "") where
  reads := ⟨_, reads_word ""⟩
  even _ := rfl

theorem isTail_word {s : String} (h : OnOneLine s) : IsTail (word s) where
  reads := ⟨_, reads_word s⟩
  even := even_word h

theorem isTail_oneOf_word {words : List String} (h : ∀ s ∈ words, OnOneLine s) :
    IsTail (oneOf (words.map word)) where
  reads := ⟨_, reads_oneOf fun s _ => reads_word s⟩
  even := even_oneOf (List.forall_mem_map.mpr fun s hs => even_word (h s hs))

theorem IsTail.blanks_seq (h : IsTail r) (hrefuses : Refuses r) : IsTail (Scan.seq blanks r) where
  reads := by
    obtain ⟨L, hL⟩ := h.reads
    exact ⟨_, reads_blanks.seq hL⟩
  even := steady_blanks.seq_even h.even hrefuses

theorem IsTail.seq (ha : IsTail a) (hb : IsTail b) : IsTail (Scan.seq a b) where
  reads := by
    obtain ⟨L, hL⟩ := ha.reads
    obtain ⟨M, hM⟩ := hb.reads
    exact ⟨_, hL.seq hM⟩
  even := ha.even.seq hb.even

theorem isTail_openParen : IsTail openParen :=
  (isTail_word (by decide)).blanks_seq (refuses_word (by decide))

end Scan

end ApiAtlas
