import ApiAtlas.Exclude
import Mathlib.Data.List.Forall2

/-!
Globs that spell out the slashes and letters of a path and leave all other bytes open. They match
paths whose names no pattern can spell, and they tell apart any two paths of different length.
-/
namespace ApiAtlas

namespace Glob

def isFixed (b : UInt8) : Bool := b = Path.slash || (Char.ofNat b.toNat).isAlpha

def shapeText (q : Bytes) : List Char :=
  q.map fun b => if isFixed b then Char.ofNat b.toNat else '?'

def shapeToken (b : UInt8) : Token := if isFixed b then .literal (Char.ofNat b.toNat) else .any

def shape (q : Bytes) : List Token := q.map shapeToken

def standsFor (a b : UInt8) : Bool := if isFixed a then b = a else b ≠ Path.slash

def isOrdinary (c : Char) : Bool := c ∉ ['?', '*', '[', '\x7b', '\x7d', ',', '\\']

structure Spells (b : UInt8) (c : Char) : Prop where
  ordinary : isOrdinary c
  encode : Utf8.encodeChar c = [b]
  ne_dot : c ≠ '.'
  notBlank : Text.isBlank c = false
  slash : c = '/' → b = Path.slash

theorem spells_of_isFixed {b : UInt8} (h : isFixed b) : Spells b (Char.ofNat b.toNat) := by
  have hall : ∀ n < 256, isFixed (UInt8.ofNat n) →
      isOrdinary (Char.ofNat n) ∧ Utf8.encodeChar (Char.ofNat n) = [UInt8.ofNat n] ∧
        Char.ofNat n ≠ '.' ∧ Text.isBlank (Char.ofNat n) = false ∧
        (Char.ofNat n = '/' → UInt8.ofNat n = Path.slash) := by
    decide +kernel
  have hb := hall b.toNat b.toNat_lt
  rw [UInt8.ofNat_toNat] at hb
  obtain ⟨hordinary, hencode, hdot, hblank, hslash⟩ := hb h
  exact ⟨hordinary, hencode, hdot, hblank, hslash⟩

theorem standsFor_self (b : UInt8) : standsFor b b := by
  unfold standsFor
  split
  · simp
  · rename_i hfixed
    have hslash : b ≠ Path.slash := by
      intro hslash
      exact hfixed (by simp [isFixed, hslash])
    simpa using hslash

theorem standsFor_slash {a b : UInt8} (h : standsFor a b) : a = Path.slash ↔ b = Path.slash := by
  unfold standsFor at h
  split at h
  · rw [of_decide_eq_true h]
  · rename_i hfixed
    have ha : a ≠ Path.slash := by
      intro hslash
      exact hfixed (by simp [isFixed, hslash])
    exact iff_of_false ha (of_decide_eq_true h)

/-- Whether a byte string has the shape of `q`. -/
def Fits (q bs : Bytes) : Prop := List.Forall₂ (fun a b => standsFor a b) q bs

@[simp] theorem fits_nil_iff {bs : Bytes} : Fits [] bs ↔ bs = [] := List.forall₂_nil_left_iff

@[simp] theorem not_fits_cons_nil {a : UInt8} {q : Bytes} : ¬ Fits (a :: q) [] := by
  simp [Fits]

@[simp] theorem fits_cons_cons {a b : UInt8} {q bs : Bytes} :
    Fits (a :: q) (b :: bs) ↔ standsFor a b ∧ Fits q bs := List.forall₂_cons

theorem Fits.refl (q : Bytes) : Fits q q := List.forall₂_same.mpr fun b _ => standsFor_self b

theorem Fits.length_eq {q bs : Bytes} (h : Fits q bs) : q.length = bs.length :=
  List.Forall₂.length_eq h

theorem Fits.slash_mem_iff {q bs : Bytes} (h : Fits q bs) : Path.slash ∈ q ↔ Path.slash ∈ bs := by
  induction h with
  | nil => simp
  | cons hb _ ih => rw [List.mem_cons, List.mem_cons, ih, eq_comm, standsFor_slash hb, eq_comm]

theorem Fits.split {front rest bs : Bytes} (h : Fits (front ++ rest) bs) :
    ∃ front' rest', bs = front' ++ rest' ∧ Fits front front' ∧ Fits rest rest' := by
  refine ⟨bs.take front.length, bs.drop front.length, (List.take_append_drop _ _).symm, ?_, ?_⟩
  · have htake := List.forall₂_take front.length h
    rwa [List.take_left] at htake
  · have hdrop := List.forall₂_drop front.length h
    rwa [List.drop_left] at hdrop

theorem Fits.eq_of_isFixed {q bs : Bytes} (h : Fits q bs) (hfixed : ∀ b ∈ q, isFixed b) :
    q = bs := by
  induction h with
  | nil => rfl
  | @cons a b q bs hb _ ih =>
    have ha : isFixed a := hfixed a List.mem_cons_self
    have hsame : b = a := by simpa [standsFor, ha] using hb
    rw [hsame, ih fun b hb => hfixed b (List.mem_cons_of_mem a hb)]

theorem Fits.name {front name bs : Bytes} (h : Fits (front ++ name) bs)
    (hname : ∀ b ∈ name, isFixed b) (hfront : front = [] ∨ ∃ rest, front = rest ++ [Path.slash]) :
    ∃ front', bs = front' ++ name ∧ (front' = [] ∨ ∃ rest, front' = rest ++ [Path.slash]) := by
  obtain ⟨front', name', rfl, hfits, hfits'⟩ := h.split
  refine ⟨front', by rw [hfits'.eq_of_isFixed hname], ?_⟩
  rcases hfront with rfl | ⟨rest, rfl⟩
  · exact .inl (fits_nil_iff.mp hfits)
  · obtain ⟨rest', last, rfl, -, hlast⟩ := hfits.split
    have hslash : ∀ b ∈ [Path.slash], isFixed b := by
      intro b hb
      rw [List.mem_singleton.mp hb]
      rfl
    exact .inr ⟨rest', by rw [hlast.eq_of_isFixed hslash]⟩

theorem readTokens_ordinary (c : Char) (h : isOrdinary c) (limit : Nat) (previous : Option Char)
    (level : Level) (cs : List Char) :
    readTokens (limit + 1) previous false level [] (c :: cs) =
      readTokens limit (some c) false (level.push (.literal c)) [] cs := by
  rw [readTokens] <;>
  · rintro rfl
    exact absurd h (by decide)

theorem readTokens_any (limit : Nat) (previous : Option Char) (level : Level) (cs : List Char) :
    readTokens (limit + 1) previous false level [] ('?' :: cs) =
      readTokens limit (some '?') false (level.push .any) [] cs := rfl

theorem readTokens_shapeText (q : Bytes) (limit : Nat) (previous : Option Char) (level : Level)
    (h : q.length ≤ limit) :
    readTokens limit previous false level [] (shapeText q) =
      .ok (level.current.reverse ++ shape q) := by
  induction q generalizing limit previous level with
  | nil => simp [shapeText, shape, readTokens]
  | cons b q ih =>
    cases limit with
    | zero => simp at h
    | succ limit =>
      have hq : q.length ≤ limit := by simpa using h
      unfold shapeText shape shapeToken
      rw [List.map_cons, List.map_cons]
      split
      · rename_i hfixed
        rw [readTokens_ordinary _ (spells_of_isFixed hfixed).ordinary]
        refine (ih limit _ _ hq).trans ?_
        simp [Level.push, shape, shapeToken]
      · rw [readTokens_any]
        refine (ih limit _ _ hq).trans ?_
        simp [Level.push, shape, shapeToken]

theorem read_shapeText (q : Bytes) : read (shapeText q) = .ok (shape q) := by
  unfold read
  rw [readTokens_shapeText q _ none ⟨[], []⟩ (by simp [shapeText])]
  rfl

theorem past_shapeToken (a : UInt8) (bs : Bytes) (marks : Marks) :
    past bs (shapeToken a) marks = pastOne (standsFor a) bs marks := by
  unfold shapeToken
  split
  · rename_i ha
    have hbytes : (fun b => decide (b = a)) = standsFor a := by
      funext b
      simp [standsFor, ha]
    rw [past, (spells_of_isFixed ha).encode, ← hbytes]
    rfl
  · rename_i ha
    have hbytes : (fun b => decide (b ≠ Path.slash)) = standsFor a := by
      funext b
      simp [standsFor, ha]
    rw [past, ← hbytes]

theorem pastAll_shape_cons (a : UInt8) (q bs : Bytes) (marks : Marks) :
    pastAll bs (shape (a :: q)) marks = pastAll bs (shape q) (pastOne (standsFor a) bs marks) := by
  rw [shape, List.map_cons, pastAll, past_shapeToken, shape]

theorem pastAll_shape_moved (q : Bytes) (b : UInt8) (bs : Bytes) (marks : Marks) :
    pastAll (b :: bs) (shape q) (false :: marks) = false :: pastAll bs (shape q) marks := by
  induction q generalizing marks with
  | nil => simp [shape, pastAll]
  | cons a q ih =>
    rw [pastAll_shape_cons, pastAll_shape_cons]
    have hone : pastOne (standsFor a) (b :: bs) (false :: marks) =
        false :: pastOne (standsFor a) bs marks := by simp [pastOne]
    rw [hone, ih]

theorem getLastD_of_false (marks : Marks) (h : ∀ mark ∈ marks, mark = false) :
    marks.getLastD false = false := by
  rw [List.getLastD_eq_getLast?]
  cases hlast : marks.getLast? with
  | none => rfl
  | some mark => exact h mark (List.mem_of_getLast? hlast)

theorem pastAll_shape_stuck (q bs : Bytes) (marks : Marks) (h : ∀ mark ∈ marks, mark = false) :
    (pastAll bs (shape q) marks).getLastD false = false := by
  induction q generalizing marks with
  | nil => exact getLastD_of_false marks h
  | cons a q ih =>
    rw [pastAll_shape_cons]
    apply ih
    intro mark hmark
    unfold pastOne at hmark
    rcases List.mem_cons.mp hmark with rfl | hmark
    · rfl
    · obtain ⟨i, hi, rfl⟩ := List.mem_iff_getElem.mp hmark
      rw [List.getElem_zipWith, h _ (List.getElem_mem _), Bool.false_and]

theorem pastOne_atFront (a b : UInt8) (bs : Bytes) :
    pastOne (standsFor a) (b :: bs) (atFront (b :: bs)) =
      false :: if standsFor a b then atFront bs else (b :: bs).map fun _ => false := by
  have hrest : ∀ cs : Bytes, List.zipWith (fun b mark => mark && standsFor a b) cs
      (false :: cs.map fun _ => false) = cs.map fun _ => false := by
    intro cs
    induction cs with
    | nil => rfl
    | cons c cs ih => rw [List.map_cons, List.zipWith_cons_cons, ih, Bool.false_and]
  unfold pastOne atFront
  rw [List.map_cons, List.zipWith_cons_cons, Bool.true_and, hrest]
  split
  · rename_i hb
    rw [hb]
  · rename_i hb
    rw [Bool.eq_false_iff.mpr hb]

theorem getLastD_pastAll_shape (q bs : Bytes) :
    (pastAll bs (shape q) (atFront bs)).getLastD false = true ↔
      Fits q bs := by
  induction q generalizing bs with
  | nil =>
    cases bs with
    | nil => simp [shape, pastAll, atFront]
    | cons b bs =>
      have hlast : (atFront (b :: bs)).getLastD false = false := by
        unfold atFront
        rw [List.map_cons, List.getLastD_cons, List.getLastD_cons]
        exact getLastD_of_false _ (by simp)
      rw [shape, List.map_nil, pastAll, hlast]
      simp
  | cons a q ih =>
    rw [pastAll_shape_cons]
    cases bs with
    | nil =>
      rw [pastAll_shape_stuck q [] (pastOne (standsFor a) [] (atFront [])) (by simp [pastOne])]
      simp
    | cons b bs =>
      rw [pastOne_atFront, pastAll_shape_moved, List.getLastD_cons, fits_cons_cons]
      split
      · rename_i hb
        rw [ih]
        simp [hb]
      · rename_i hb
        rw [pastAll_shape_stuck q bs _ (by simp)]
        simp [hb]

theorem mem_shape (q : Bytes) (token : Token) (h : token ∈ shape q) :
    token = .any ∨ ∃ b c, Spells b c ∧ token = .literal c := by
  obtain ⟨b, -, rfl⟩ := List.mem_map.mp h
  unfold shapeToken
  split
  · rename_i hfixed
    exact .inr ⟨b, _, spells_of_isFixed hfixed, rfl⟩
  · exact .inl rfl

theorem seeksFinalDot_shape (q : Bytes) : seeksFinalDot (shape q) = false := by
  unfold seeksFinalDot
  split
  · rename_i hlast
    rcases mem_shape q _ (List.mem_of_getLast? hlast) with hany | ⟨b, c, hspells, hc⟩
    · simp at hany
    · exact absurd (Token.literal.inj hc).symm hspells.ne_dot
  · rfl

/-- A shape matches the paths with the same slashes and letters in the same places. -/
theorem accepts_shape (q bs : Bytes) :
    accepts (shape q) bs ↔ Fits q bs := by
  rw [← getLastD_pastAll_shape]
  unfold accepts
  split
  · rename_i hshape
    have hmem := mem_shape q .anyPrefix (by rw [hshape]; exact List.mem_singleton_self _)
    simp at hmem
  · simp only [seeksFinalDot_shape, Bool.false_and, Bool.not_false, Bool.true_and]

theorem depth_extentAll_shape (q : Bytes) : (extentAll (shape q)).depth ≤ 1 := by
  induction q with
  | nil => simp [shape, extentAll, Extent.nothing]
  | cons b q ih =>
    have htoken : (extent (shapeToken b)).depth ≤ 1 := by
      unfold shapeToken
      split
      · rename_i hfixed
        rw [extent, (spells_of_isFixed hfixed).encode]
        simp [Extent.row, Extent.beside, Extent.single, Extent.nothing]
      · rw [extent]
        decide
    rw [shape, List.map_cons, extentAll]
    exact Nat.max_le.mpr ⟨htoken, ih⟩

theorem isTooDeep_shape (q : Bytes) : isTooDeep (shape q) = false := by
  have hdepth := depth_extentAll_shape q
  unfold isTooDeep depth Extent.raised maxDepth
  simp only [decide_eq_false_iff_not]
  omega

theorem roomAll_shape (q : Bytes) : roomAll (shape q) ≤ 80 * q.length := by
  induction q with
  | nil => simp [shape, roomAll]
  | cons b q ih =>
    have htoken : room (shapeToken b) ≤ 80 := by
      unfold shapeToken
      split
      · rename_i hfixed
        rw [room, (spells_of_isFixed hfixed).encode, List.length_singleton]
        decide
      · rw [room]
        decide
    rw [shape, List.map_cons, roomAll, List.length_cons]
    have hrest : roomAll (q.map shapeToken) ≤ 80 * q.length := ih
    omega

/-- Shapes of paths up to this length fit, which is far longer than any path a system gives. -/
def maxShape : Nat := 65536

theorem fit_shape (q : Bytes) (h : q.length ≤ maxShape) (globs : List (List Token))
    (hglobs : globs.filter (!isSpelled ·) = [shape q] ∨ globs.filter (!isSpelled ·) = []) :
    fit globs := by
  have hroom := roomAll_shape q
  have halone : roomTogether [shape q] ≤ maxRoom := by
    unfold maxShape at h
    simp only [roomTogether, List.map_cons, List.map_nil, Room.choice, Room.state, maxRoom]
    omega
  have hnone : roomTogether [] ≤ maxRoom := by decide
  unfold fit
  rcases hglobs with hshape | hempty
  · rw [hshape]
    cases hend : endsInExtension (shape q) <;> simp [hend, halone, hnone]
  · rw [hempty]
    simp [hnone]

end Glob

namespace Exclude

/-- Keeps everything but the paths of the shape of `q`, and of these the directories unless it is
told otherwise. -/
def separating (dirs : Bool) (q : Bytes) : List String :=
  ["!**", String.ofList ('/' :: Glob.shapeText q)] ++ if dirs then [] else ["!**/"]

theorem trimLine_of_end (line : List Char) (c : Char) (h : Text.isBlank c = false) :
    trimLine (line ++ [c]) = line ++ [c] := by
  unfold trimLine Text.trimRight
  rw [List.reverse_append]
  simp [h]

theorem readEnd_of_end (pattern : List Char) (c : Char) (h : c ≠ '/') :
    readEnd (pattern ++ [c]) = (false, pattern ++ [c]) := by
  unfold readEnd
  rw [List.reverse_append]
  simp [h]

theorem onlyBelow_of_end (pattern : List Char) (c : Char) (h : c ≠ '*') :
    onlyBelow (pattern ++ [c]) = pattern ++ [c] := by
  unfold onlyBelow
  rw [List.reverse_append]
  simp [Ne.symm h]

theorem exists_end_shapeText {q : Bytes} (hne : q ≠ []) (hlast : q.getLast? ≠ some Path.slash) :
    ∃ front c, Glob.shapeText q = front ++ [c] ∧ Text.isBlank c = false ∧ c ≠ '/' ∧ c ≠ '*' := by
  rcases List.eq_nil_or_concat q with hnil | ⟨front, b, hq⟩
  · exact absurd hnil hne
  · rw [List.concat_eq_append] at hq
    have hb : b ≠ Path.slash := by
      intro hb
      apply hlast
      rw [hq, List.getLast?_concat, hb]
    cases hfixed : Glob.isFixed b with
    | false =>
      refine ⟨Glob.shapeText front, '?', by simp [Glob.shapeText, hq, hfixed], ?_⟩
      decide
    | true =>
      have hspells := Glob.spells_of_isFixed hfixed
      refine ⟨Glob.shapeText front, Char.ofNat b.toNat, by simp [Glob.shapeText, hq, hfixed],
        hspells.notBlank, fun hslash => hb (hspells.slash hslash), ?_⟩
      intro hstar
      have hordinary := hspells.ordinary
      rw [hstar] at hordinary
      exact absurd hordinary (by decide)

theorem readRule_shapeText (q : Bytes) (hlast : q.getLast? ≠ some Path.slash) :
    readRule ('/' :: Glob.shapeText q) = some ⟨.ignore, false, Glob.shape q⟩ := by
  by_cases hne : q = []
  · rw [hne]
    rfl
  · obtain ⟨front, c, hfront, hblank, hslash, hstar⟩ := exists_end_shapeText hne hlast
    have htrim : trimLine ('/' :: Glob.shapeText q) = '/' :: Glob.shapeText q := by
      rw [hfront, ← List.cons_append, trimLine_of_end _ c hblank]
    have hread : readFront ('/' :: Glob.shapeText q) = (.ignore, true, Glob.shapeText q) := rfl
    have hdeepen : deepen true (Glob.shapeText q) = Glob.shapeText q := rfl
    have hdir : readEnd (Glob.shapeText q) = (false, Glob.shapeText q) := by
      rw [hfront, readEnd_of_end _ c hslash]
    have hbelow : onlyBelow (Glob.shapeText q) = Glob.shapeText q := by
      rw [hfront, onlyBelow_of_end _ c hstar]
    unfold readRule
    rw [htrim]
    simp only [hread, hdir, hdeepen, hbelow, Glob.read_shapeText, List.head?_cons,
      List.isEmpty_cons, Option.some.injEq, Char.reduceEq, Bool.false_eq_true, if_false]

theorem readRule_keepAll : readRule "!**".toList = some ⟨.keep, false, [.anyPrefix]⟩ := rfl

theorem readRule_keepDirs : readRule "!**/".toList = some ⟨.keep, true, [.anyPrefix]⟩ := rfl

theorem rules_separating (root : Path) (dirs : Bool) (q : Bytes)
    (hlast : q.getLast? ≠ some Path.slash) (hlength : q.length ≤ Glob.maxShape) :
    (ofLines root (separating dirs q)).rules =
      [⟨.keep, false, [.anyPrefix]⟩, ⟨.ignore, false, Glob.shape q⟩] ++
        if dirs then [] else [⟨.keep, true, [.anyPrefix]⟩] := by
  have hdeep : Glob.isTooDeep [.anyPrefix] = false := by decide
  have hspelled : Glob.isSpelled [.anyPrefix] = true := rfl
  have hfit := Glob.fit_shape q hlength
  unfold ofLines separating
  cases dirs with
  | true =>
    simp only [if_true, List.append_nil, List.filterMap_cons, List.filterMap_nil, readRule_keepAll,
      String.toList_ofList, readRule_shapeText q hlast]
    have hroom : Glob.fit [[.anyPrefix], Glob.shape q] := by
      apply hfit
      cases hshape : Glob.isSpelled (Glob.shape q) <;> simp [hspelled, hshape]
    unfold inForce
    simp [hdeep, Glob.isTooDeep_shape, hroom]
  | false =>
    simp only [Bool.false_eq_true, if_false, List.cons_append, List.nil_append,
      List.filterMap_cons, List.filterMap_nil, readRule_keepAll, readRule_keepDirs,
      String.toList_ofList, readRule_shapeText q hlast]
    have hroom : Glob.fit [[.anyPrefix], Glob.shape q, [.anyPrefix]] := by
      apply hfit
      cases hshape : Glob.isSpelled (Glob.shape q) <;> simp [hspelled, hshape]
    unfold inForce
    simp [hdeep, Glob.isTooDeep_shape, hroom]

theorem decide?_separating (root : Path) (dirs : Bool) (q : Bytes)
    (hlast : q.getLast? ≠ some Path.slash) (hlength : q.length ≤ Glob.maxShape) (p : Path)
    (isDir : Bool) :
    (ofLines root (separating dirs q)).decide? p isDir =
      some (if (dirs || !isDir) && Glob.accepts (Glob.shape q) p.bytes then .ignore
        else .keep) := by
  have hall : Glob.accepts [.anyPrefix] p.bytes = true := rfl
  unfold decide?
  rw [rules_separating root dirs q hlast hlength]
  cases dirs <;> cases isDir <;> cases hshape : Glob.accepts (Glob.shape q) p.bytes <;>
    simp [Rule.applies, hall, hshape]

end Exclude

end ApiAtlas
