import ApiAtlas.Json.Reader
import Mathlib.Data.List.DropRight
import Mathlib.Data.List.Forall2

/-!
Written values are read back. Both written forms are the same up to the blanks in them, and a reader
passes over blanks, so one law for lists and one for objects serves both. Numbers are left out: no
value that these laws are for has any.
-/
namespace ApiAtlas.Json

theorem hexValue_hexDigit {n : Nat} (h : n < 16) : hexValue (hexDigit n) = some n := by
  have hall : ∀ n < 16, hexValue (hexDigit n) = some n := by decide
  exact hall n h

theorem readString_escapeChar (c : Char) (rest : List Char) :
    readString (escapeChar c ++ rest) = pushChar c (readString rest) := by
  unfold escapeChar
  split
  case h_8 hquote hbackslash _ _ _ _ _ =>
    split
    · rename_i hcontrol
      have hlow : c.toNat / 16 < 16 := by omega
      have hhex : hexFour '0' '0' (hexDigit (c.toNat / 16)) (hexDigit (c.toNat % 16)) =
          some c.toNat := by
        have hzero : hexValue '0' = some 0 := by decide
        unfold hexFour
        rw [hzero, hexValue_hexDigit hlow, hexValue_hexDigit (Nat.mod_lt _ (by decide))]
        simp only [Option.some.injEq]
        omega
      have htrail : isTrailSurrogate c.toNat = false := by
        simp only [isTrailSurrogate, Bool.and_eq_false_iff, decide_eq_false_iff_not]
        omega
      have hlead : isLeadSurrogate c.toNat = false := by
        simp only [isLeadSurrogate, Bool.and_eq_false_iff, decide_eq_false_iff_not]
        omega
      simp [readString, hhex, htrail, hlead]
    · rename_i hplain
      rw [List.cons_append, List.nil_append, readString, if_neg hplain]
      all_goals simp_all
  all_goals simp [readString, shortEscape]

theorem readString_written (s rest : List Char) :
    readString (s.flatMap escapeChar ++ '"' :: rest) = .ok (s, rest) := by
  induction s with
  | nil => rw [List.flatMap_nil, List.nil_append, readString]
  | cons c s ih => rw [List.flatMap_cons, List.append_assoc, readString_escapeChar, ih, pushChar]

def IsGap (gap : List Char) : Prop := ∀ c ∈ gap, isSpace c = true

theorem isGap_nil : IsGap [] := List.forall_mem_nil _

theorem isGap_newline (level : Nat) : IsGap (newline level) := by
  intro c hc
  rcases List.mem_cons.mp hc with rfl | hc
  · decide
  · rw [(List.mem_replicate.mp hc).2]
    decide

theorem IsGap.skipSpace_append {gap : List Char} (h : IsGap gap) (cs : List Char) :
    skipSpace (gap ++ cs) = skipSpace cs :=
  List.dropWhile_append_of_pos h

theorem skipSpace_cons {c : Char} (h : isSpace c = false) (cs : List Char) :
    skipSpace (c :: cs) = c :: cs :=
  List.dropWhile_cons_of_neg (by simp [h])

theorem skipSpace_skipSpace (cs : List Char) : skipSpace (skipSpace cs) = skipSpace cs :=
  List.dropWhile_idempotent isSpace cs

theorem readValue_skipSpace (depth : Nat) (cs : List Char) :
    readValue depth (skipSpace cs) = readValue depth cs := by
  rw [readValue, readValue, skipSpace_skipSpace]

theorem IsGap.readValue_append {gap : List Char} (h : IsGap gap) (depth : Nat) (cs : List Char) :
    readValue depth (gap ++ cs) = readValue depth cs := by
  rw [← readValue_skipSpace, h.skipSpace_append, readValue_skipSpace]

def HasItem (cs : List Char) : Prop := ∃ c rest, skipSpace cs = c :: rest ∧ c ≠ ']'

theorem hasItem_of_readValue {depth : Nat} {cs : List Char} {read : Json × List Char}
    (h : readValue depth cs = .ok read) : HasItem cs := by
  rw [readValue] at h
  cases hskip : skipSpace cs with
  | nil => simp [hskip] at h
  | cons c rest =>
    refine ⟨c, rest, hskip, ?_⟩
    rintro rfl
    simp [hskip, isDigit] at h

theorem HasItem.nextItem_first {cs : List Char} (h : HasItem cs) :
    nextItem true cs = .ok (some (skipSpace cs)) := by
  obtain ⟨c, rest, hskip, hend⟩ := h
  rw [nextItem, hskip]
  split <;> simp_all

theorem HasItem.nextItem_comma {cs : List Char} (h : HasItem cs) :
    nextItem false (',' :: cs) = .ok (some (skipSpace cs)) := by
  obtain ⟨c, rest, hskip, hend⟩ := h
  rw [nextItem, skipSpace_cons (by decide)]
  simp only [Bool.false_eq_true, if_false, hskip]
  split <;> simp_all

theorem nextItem_close {gap : List Char} (h : IsGap gap) (first : Bool) (rest : List Char) :
    nextItem first (gap ++ ']' :: rest) = .ok none := by
  rw [nextItem, h.skipSpace_append, skipSpace_cons (by decide)]
  rfl

theorem endList_close {gap : List Char} (h : IsGap gap) (rest : List Char) :
    endList (gap ++ ']' :: rest) = .ok rest := by
  rw [endList, h.skipSpace_append, skipSpace_cons (by decide)]
  rfl

/-- A value that holds no numbers and is nested fewer than `depth` levels deep. -/
def Fits : (depth : Nat) → Json → Prop
  | _, .null => True
  | _, .bool _ => True
  | _, .num _ => False
  | _, .str _ => True
  | 0, .arr _ => False
  | depth + 1, .arr items => 0 < depth ∧ ∀ item ∈ items, Fits depth item
  | 0, .obj _ => False
  | depth + 1, .obj fields => 0 < depth ∧ ∀ field ∈ fields, Fits depth field.2

def joined : List (List Char) → List Char
  | [] => []
  | piece :: pieces => piece ++ pieces.flatMap (',' :: ·)

theorem infix_joined {piece : List Char} {pieces : List (List Char)} (h : piece ∈ pieces) :
    piece <:+: joined pieces := by
  cases pieces with
  | nil => cases h
  | cons first rest =>
    rw [joined]
    rcases List.mem_cons.mp h with rfl | h
    · exact (List.prefix_append _ _).isInfix
    · obtain ⟨front, back, rfl⟩ := List.append_of_mem h
      refine ⟨first ++ front.flatMap (',' :: ·) ++ [','], back.flatMap (',' :: ·), ?_⟩
      simp

theorem eq_joined {α : Type} {write : List α → List Char} {piece : α → List Char}
    (hnil : write [] = []) (hone : ∀ a, write [a] = piece a)
    (hmore : ∀ a b as, write (a :: b :: as) = piece a ++ ',' :: write (b :: as)) (as : List α) :
    write as = joined (as.map piece) := by
  induction as with
  | nil => exact hnil
  | cons a as ih =>
    cases as with
    | nil => simp [hone, joined]
    | cons b as =>
      rw [hmore, ih]
      simp [joined]

theorem length_le_joined (pieces : List (List Char)) :
    pieces.length ≤ (joined pieces).length + 1 := by
  cases pieces with
  | nil => exact Nat.zero_le _
  | cons piece pieces =>
    have htail : pieces.length ≤ (pieces.flatMap (',' :: ·)).length := by
      induction pieces with
      | nil => exact Nat.le_refl 0
      | cons next pieces ih =>
        simp only [List.length_cons, List.flatMap_cons, List.length_append]
        omega
    simp only [joined, List.length_cons, List.length_append]
    omega

theorem sortedItems_eq_map (items : List Json) : sortedItems items = items.map sorted := by
  induction items with
  | nil => rfl
  | cons item items ih => rw [sortedItems, ih, List.map_cons]

theorem sortedFields_eq_map (fields : List (String × Json)) :
    sortedFields fields = fields.map fun field => (field.1, field.2.sorted) := by
  induction fields with
  | nil => rfl
  | cons field fields ih => rw [sortedFields, ih, List.map_cons]

/-- A piece of text that is read as an item of a list, whatever stands behind it. -/
structure IsPiece {α : Type} (item : List Char → Except Fault (α × List Char)) (a : α)
    (piece : List Char) : Prop where
  hasItem : ∀ behind, HasItem (piece ++ behind)
  read : ∀ behind, item (skipSpace (piece ++ behind)) = .ok (a, behind)

section

variable {α : Type} {item : List Char → Except Fault (α × List Char)} {close : List Char}

theorem readItems_tail {as : List α} {pieces : List (List Char)}
    (h : List.Forall₂ (IsPiece item) as pieces) (hclose : IsGap close) (rest : List Char)
    {bound : List Char} (hbound : pieces.length < bound.length) :
    readItems item bound false (pieces.flatMap (',' :: ·) ++ (close ++ ']' :: rest)) =
      .ok (as, close ++ ']' :: rest) := by
  induction h generalizing bound with
  | nil =>
    obtain ⟨b, bound, rfl⟩ := List.exists_cons_of_length_pos hbound
    rw [List.flatMap_nil, List.nil_append, readItems, nextItem_close hclose]
    rfl
  | cons hpiece hpieces ih =>
    obtain ⟨b, bound, rfl⟩ := List.exists_cons_of_length_pos (Nat.zero_lt_of_lt hbound)
    rw [List.flatMap_cons, List.append_assoc, List.cons_append, readItems,
      (hpiece.hasItem _).nextItem_comma]
    simp only [bind, Except.bind, hpiece.read, ih (Nat.lt_of_succ_lt_succ hbound)]
    rfl

theorem readItems_joined {as : List α} {pieces : List (List Char)}
    (h : List.Forall₂ (IsPiece item) as pieces) (hclose : IsGap close) (rest : List Char) :
    readItems item ('[' :: (joined pieces ++ (close ++ ']' :: rest))) true
        (joined pieces ++ (close ++ ']' :: rest)) = .ok (as, close ++ ']' :: rest) := by
  have hlength := length_le_joined pieces
  cases h with
  | nil =>
    rw [joined, List.nil_append, readItems, nextItem_close hclose]
    rfl
  | cons hpiece hpieces =>
    rw [joined, List.append_assoc, readItems, (hpiece.hasItem _).nextItem_first]
    simp only [bind, Except.bind, hpiece.read]
    rw [readItems_tail hpieces hclose]
    · rfl
    · simp only [joined, List.length_append, List.length_cons] at hlength ⊢
      omega

end

theorem readValue_arr {depth : Nat} {write : Json → List Char} {gap close : List Char}
    (hgap : IsGap gap) (hclose : IsGap close) (hdepth : 0 < depth)
    {items : List Json} (hread : ∀ item ∈ items, ∀ behind,
      readValue depth (write item ++ behind) = .ok (item.sorted, behind)) (rest : List Char) :
    readValue (depth + 1) ('[' :: joined (items.map (gap ++ write ·)) ++ (close ++ ']' :: rest)) =
      .ok ((Json.arr items).sorted, rest) := by
  obtain ⟨depth, rfl⟩ := Nat.exists_eq_succ_of_ne_zero (Nat.pos_iff_ne_zero.mp hdepth)
  have hpiece (item : Json) (hitem : item ∈ items) :
      IsPiece (readValue (depth + 1)) item.sorted (gap ++ write item) := by
    have hitem (behind : List Char) : readValue (depth + 1) (gap ++ write item ++ behind) =
        .ok (item.sorted, behind) := by
      rw [List.append_assoc, hgap.readValue_append, hread item hitem]
    exact ⟨fun behind => hasItem_of_readValue (hitem behind),
      fun behind => (readValue_skipSpace _ _).trans (hitem behind)⟩
  have hitems : List.Forall₂ (IsPiece (readValue (depth + 1))) (items.map sorted)
      (items.map (gap ++ write ·)) := by
    rw [List.forall₂_map_left_iff, List.forall₂_map_right_iff, List.forall₂_same]
    exact hpiece
  rw [List.cons_append, readValue, skipSpace_cons (by decide)]
  simp only [bind, Except.bind, readItems_joined hitems hclose, endList_close hclose]
  rw [sorted, sortedItems_eq_map]
  rfl

theorem nextKey_first {gap : List Char} (h : IsGap gap) (rest : List Char) :
    nextKey true (gap ++ '"' :: rest) = .ok (some rest) := by
  rw [nextKey, h.skipSpace_append, skipSpace_cons (by decide)]
  rfl

theorem nextKey_comma {gap : List Char} (h : IsGap gap) (rest : List Char) :
    nextKey false (',' :: (gap ++ '"' :: rest)) = .ok (some rest) := by
  rw [nextKey, skipSpace_cons (by decide)]
  simp only [Bool.false_eq_true, if_false]
  have hskip : skipSpace (gap ++ '"' :: rest) = '"' :: rest := by
    rw [h.skipSpace_append, skipSpace_cons (by decide)]
  simp [hskip]

theorem nextKey_close {gap : List Char} (h : IsGap gap) (first : Bool) (rest : List Char) :
    nextKey first (gap ++ '\x7d' :: rest) = .ok none := by
  rw [nextKey, h.skipSpace_append, skipSpace_cons (by decide)]
  rfl

theorem endObject_close {gap : List Char} (h : IsGap gap) (rest : List Char) :
    endObject (gap ++ '\x7d' :: rest) = .ok rest := by
  rw [endObject, h.skipSpace_append, skipSpace_cons (by decide)]
  rfl

theorem readColon_cons (rest : List Char) : readColon (':' :: rest) = .ok rest := by
  rw [readColon, skipSpace_cons (by decide)]
  rfl

def fieldChars (gap space : List Char) (write : Json → List Char) (field : String × Json) :
    List Char :=
  gap ++ stringChars field.1 ++ ':' :: space ++ write field.2

section

variable {depth : Nat} {write : Json → List Char} {gap space close : List Char}

theorem readFields_step (hspace : IsGap space) {key : String} {v : Json} {behind : List Char}
    (hread : readValue depth (write v ++ behind) = .ok (v.sorted, behind))
    {first : Bool} {cs bound : List Char} {b : Char} {fields : List (String × Json)}
    (hnext : nextKey first cs = .ok (some
      (key.toList.flatMap escapeChar ++ '"' :: ':' :: (space ++ (write v ++ behind))))) :
    readFields (readValue depth) (b :: bound) first fields cs =
      readFields (readValue depth) bound false (insertField key v.sorted fields) behind := by
  rw [readFields, hnext]
  simp only [bind, Except.bind, readString_written, readColon_cons, hspace.readValue_append, hread,
    String.ofList_toList]

theorem fieldChars_append (field : String × Json) (behind : List Char) :
    fieldChars gap space write field ++ behind =
      gap ++ '"' :: (field.1.toList.flatMap escapeChar ++
        '"' :: ':' :: (space ++ (write field.2 ++ behind))) := by
  simp [fieldChars, stringChars]

theorem readFields_tail (hgap : IsGap gap) (hspace : IsGap space) (hclose : IsGap close)
    (rest : List Char) {fields : List (String × Json)} (hread : ∀ field ∈ fields, ∀ behind,
      readValue depth (write field.2 ++ behind) = .ok (field.2.sorted, behind))
    {bound : List Char} (hbound : fields.length < bound.length) (before : List (String × Json)) :
    readFields (readValue depth) bound false before
        ((fields.map (fieldChars gap space write)).flatMap (',' :: ·) ++
          (close ++ '\x7d' :: rest)) =
      .ok ((sortedFields fields).foldl (fun acc field => insertField field.1 field.2 acc) before,
        close ++ '\x7d' :: rest) := by
  induction fields generalizing bound before with
  | nil =>
    obtain ⟨b, bound, rfl⟩ := List.exists_cons_of_length_pos hbound
    rw [List.map_nil, List.flatMap_nil, List.nil_append, readFields, nextKey_close hclose]
    rfl
  | cons field fields ih =>
    obtain ⟨b, bound, rfl⟩ := List.exists_cons_of_length_pos (Nat.zero_lt_of_lt hbound)
    rw [List.forall_mem_cons] at hread
    rw [List.map_cons, List.flatMap_cons, List.append_assoc, List.cons_append, fieldChars_append,
      readFields_step hspace (hread.1 _) (nextKey_comma hgap _),
      ih hread.2 (Nat.lt_of_succ_lt_succ hbound), sortedFields, List.foldl_cons]

theorem readValue_obj (hgap : IsGap gap) (hspace : IsGap space) (hclose : IsGap close)
    (hdepth : 0 < depth) {fields : List (String × Json)} (hread : ∀ field ∈ fields, ∀ behind,
      readValue depth (write field.2 ++ behind) = .ok (field.2.sorted, behind))
    (rest : List Char) :
    readValue (depth + 1) ('\x7b' :: joined (fields.map (fieldChars gap space write)) ++
        (close ++ '\x7d' :: rest)) = .ok ((Json.obj fields).sorted, rest) := by
  obtain ⟨depth, rfl⟩ := Nat.exists_eq_succ_of_ne_zero (Nat.pos_iff_ne_zero.mp hdepth)
  have hlength := length_le_joined (fields.map (fieldChars gap space write))
  rw [List.length_map] at hlength
  generalize hbound : joined (fields.map (fieldChars gap space write)) ++
    (close ++ '\x7d' :: rest) = text
  have hfields : readFields (readValue (depth + 1)) ('\x7b' :: text) true [] text =
      .ok (sortFields (sortedFields fields), close ++ '\x7d' :: rest) := by
    cases fields with
    | nil =>
      rw [← hbound, List.map_nil, joined, List.nil_append, readFields, nextKey_close hclose]
      rfl
    | cons field fields =>
      rw [List.forall_mem_cons] at hread
      have htext : fields.length < text.length := by
        rw [← hbound]
        simp only [List.length_append, List.length_cons] at hlength ⊢
        omega
      have hnext : nextKey true text = .ok (some (field.1.toList.flatMap escapeChar ++
          '"' :: ':' :: (space ++ (write field.2 ++
            ((fields.map (fieldChars gap space write)).flatMap (',' :: ·) ++
              (close ++ '\x7d' :: rest)))))) := by
        rw [← hbound, List.map_cons, joined, List.append_assoc, fieldChars_append,
          nextKey_first hgap]
      rw [readFields_step hspace (hread.1 _) hnext,
        readFields_tail hgap hspace hclose rest hread.2 htext]
      rfl
  rw [List.cons_append, hbound, readValue, skipSpace_cons (by decide)]
  simp only [bind, Except.bind, hfields, endObject_close hclose]
  rw [sorted]
  rfl

end

theorem compactItems_eq_joined (items : List Json) :
    compactItems items = joined (items.map ([] ++ compactChars ·)) :=
  eq_joined rfl (fun _ => rfl) (fun _ _ _ => rfl) items

theorem compactFields_eq_joined (fields : List (String × Json)) :
    compactFields fields = joined (fields.map (fieldChars [] [] compactChars)) :=
  eq_joined rfl (fun _ => by simp [compactFields, fieldChars])
    (fun _ _ _ => by simp [compactFields, fieldChars]) fields

theorem prettyItems_eq_joined (level : Nat) (items : List Json) :
    prettyItems level items = joined (items.map (newline level ++ prettyChars level ·)) :=
  eq_joined (by simp [prettyItems]) (fun _ => by simp [prettyItems])
    (fun _ _ _ => by simp [prettyItems]) items

theorem prettyFields_eq_joined (level : Nat) (fields : List (String × Json)) :
    prettyFields level fields =
      joined (fields.map (fieldChars (newline level) [' '] (prettyChars level))) :=
  eq_joined (by simp [prettyFields]) (fun _ => by simp [prettyFields, fieldChars])
    (fun _ _ _ => by simp [prettyFields, fieldChars]) fields

theorem readValue_scalar (depth : Nat) (v : Json)
    (hv : v = .null ∨ (∃ b, v = .bool b) ∨ ∃ s, v = .str s) (rest : List Char) :
    readValue depth (v.compactChars ++ rest) = .ok (v.sorted, rest) := by
  rcases hv with rfl | ⟨b, rfl⟩ | ⟨s, rfl⟩
  · rw [compactChars, List.cons_append, readValue, skipSpace_cons (by decide)]
    rfl
  · cases b with
    | false =>
      rw [compactChars, List.cons_append, readValue, skipSpace_cons (by decide)]
      rfl
    | true =>
      rw [compactChars, List.cons_append, readValue, skipSpace_cons (by decide)]
      rfl
  · have htext : compactChars (.str s) ++ rest =
        '"' :: (s.toList.flatMap escapeChar ++ '"' :: rest) := by simp [compactChars, stringChars]
    rw [htext, readValue, skipSpace_cons (by decide)]
    simp only [bind, Except.bind, readString_written, String.ofList_toList]
    rfl

theorem isGap_space : IsGap [' '] := by
  intro c hc
  rw [List.mem_singleton.mp hc]
  decide

theorem prettyChars_arr (level : Nat) (items : List Json) :
    ∃ close, IsGap close ∧ prettyChars level (.arr items) = '[' ::
      joined (items.map (newline (level + 1) ++ prettyChars (level + 1) ·)) ++
        (close ++ [']']) := by
  cases items with
  | nil => exact ⟨[], isGap_nil, by simp [prettyChars, joined]⟩
  | cons item items =>
    refine ⟨newline level, isGap_newline level, ?_⟩
    rw [prettyChars, prettyItems_eq_joined]
    · simp
    · exact List.cons_ne_nil _ _

theorem prettyChars_obj (level : Nat) (fields : List (String × Json)) :
    ∃ close, IsGap close ∧ prettyChars level (.obj fields) = '\x7b' ::
      joined (fields.map (fieldChars (newline (level + 1)) [' '] (prettyChars (level + 1)))) ++
        (close ++ ['\x7d']) := by
  cases fields with
  | nil => exact ⟨[], isGap_nil, by simp [prettyChars, joined]⟩
  | cons field fields =>
    refine ⟨newline level, isGap_newline level, ?_⟩
    rw [prettyChars, prettyFields_eq_joined]
    · simp
    · exact List.cons_ne_nil _ _

/-- The written forms of a value: the compact one, and the pretty one at any level. -/
inductive Written (v : Json) : List Char → Prop where
  | compact : Written v v.compactChars
  | pretty (level : Nat) : Written v (v.prettyChars level)

namespace Written

theorem eq_compactChars {v : Json} (hv : v = .null ∨ (∃ b, v = .bool b) ∨ ∃ s, v = .str s)
    {text : List Char} (h : Written v text) : text = v.compactChars := by
  cases h with
  | compact => rfl
  | pretty level => rcases hv with rfl | ⟨b, rfl⟩ | ⟨s, rfl⟩ <;> rw [prettyChars]

theorem arr {items : List Json} {text : List Char} (h : Written (.arr items) text) :
    ∃ (gap close : List Char) (write : Json → List Char),
      IsGap gap ∧ IsGap close ∧ (∀ item, Written item (write item)) ∧
      text = '[' :: joined (items.map (gap ++ write ·)) ++ (close ++ [']']) := by
  cases h with
  | compact =>
    refine ⟨[], [], compactChars, isGap_nil, isGap_nil, fun _ => .compact, ?_⟩
    rw [compactChars, compactItems_eq_joined, List.nil_append]
  | pretty level =>
    obtain ⟨close, hclose, htext⟩ := prettyChars_arr level items
    exact ⟨_, close, _, isGap_newline _, hclose, fun _ => .pretty (level + 1), htext⟩

theorem obj {fields : List (String × Json)} {text : List Char} (h : Written (.obj fields) text) :
    ∃ gap space close write, IsGap gap ∧ IsGap space ∧ IsGap close ∧
      (∀ v, Written v (write v)) ∧
      text = '\x7b' :: joined (fields.map (fieldChars gap space write)) ++ (close ++ ['\x7d']) := by
  cases h with
  | compact =>
    refine ⟨[], [], [], compactChars, isGap_nil, isGap_nil, isGap_nil, fun _ => .compact, ?_⟩
    rw [compactChars, compactFields_eq_joined, List.nil_append]
  | pretty level =>
    obtain ⟨close, hclose, htext⟩ := prettyChars_obj level fields
    exact ⟨_, [' '], close, _, isGap_newline _, isGap_space, hclose,
      fun _ => .pretty (level + 1), htext⟩

theorem exists_infix_arr {items : List Json} {text : List Char} (h : Written (.arr items) text)
    {item : Json} (hitem : item ∈ items) : ∃ inner, Written item inner ∧ inner <:+: text := by
  obtain ⟨gap, close, write, -, -, hwrite, rfl⟩ := h.arr
  refine ⟨write item, hwrite item, ?_⟩
  have hjoined := infix_joined (List.mem_map_of_mem (f := (gap ++ write ·)) hitem)
  exact (((List.suffix_append gap _).isInfix.trans hjoined).trans
    (List.suffix_cons _ _).isInfix).trans (List.prefix_append _ _).isInfix

theorem exists_infix_obj {fields : List (String × Json)} {text : List Char}
    (h : Written (.obj fields) text) {key : String} {v : Json} (hfield : (key, v) ∈ fields) :
    ∃ inner, Written v inner ∧ inner <:+: text := by
  obtain ⟨gap, space, close, write, -, -, -, hwrite, rfl⟩ := h.obj
  refine ⟨write v, hwrite v, ?_⟩
  have hjoined := infix_joined (List.mem_map_of_mem (f := fieldChars gap space write) hfield)
  exact (((List.suffix_append _ _).isInfix.trans hjoined).trans
    (List.suffix_cons _ _).isInfix).trans (List.prefix_append _ _).isInfix

end Written

/-- A written value is read as itself, its objects in key order. -/
theorem readValue_written {depth : Nat} {v : Json} (h : v.Fits depth) {text : List Char}
    (htext : Written v text) (rest : List Char) :
    readValue depth (text ++ rest) = .ok (v.sorted, rest) := by
  induction depth generalizing v text rest with
  | zero =>
    cases v with
    | null | bool | str =>
      rw [htext.eq_compactChars (by simp)]
      exact readValue_scalar _ _ (by simp) rest
    | num | arr | obj => simp [Fits] at h
  | succ depth ih =>
    cases v with
    | null | bool | str =>
      rw [htext.eq_compactChars (by simp)]
      exact readValue_scalar _ _ (by simp) rest
    | num => simp [Fits] at h
    | arr items =>
      rw [Fits] at h
      obtain ⟨gap, close, write, hgap, hclose, hwrite, rfl⟩ := htext.arr
      rw [← readValue_arr hgap hclose h.1
        (fun item hitem behind => ih (h.2 item hitem) (hwrite item) behind) rest]
      simp
    | obj fields =>
      rw [Fits] at h
      obtain ⟨gap, space, close, write, hgap, hspace, hclose, hwrite, rfl⟩ := htext.obj
      rw [← readValue_obj hgap hspace hclose h.1
        (fun field hfield behind => ih (h.2 field hfield) (hwrite field.2) behind) rest]
      simp

end ApiAtlas.Json
