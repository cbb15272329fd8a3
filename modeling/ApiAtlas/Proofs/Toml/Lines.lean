import ApiAtlas.Proofs.Toml.Strings
import ApiAtlas.Toml.Reader
import Mathlib.Data.List.Nodup

/-!
A document that is written line by line is read line by line. A reader of values takes what was
written from the front of a text and leaves what stands behind it; each line adds its field to those
of the lines before it.
-/
namespace ApiAtlas.Toml

structure Begins (c : Char) : Prop where
  space : isSpace c = false
  comment : c ≠ '#'
  plain : isPlain c = true

namespace Begins

variable {c : Char}

theorem skipSpace_cons (h : Begins c) (cs : List Char) : skipSpace (c :: cs) = c :: cs :=
  List.dropWhile_cons_of_neg (by simp [h.space])

theorem skipComment_cons (h : Begins c) (cs : List Char) : skipComment (c :: cs) = c :: cs := by
  unfold skipComment
  split
  · rename_i heq
    exact absurd (List.cons.inj heq).1 h.comment
  · rfl

theorem skipAllLines_eq (h : Begins c) {text cs : List Char} (htext : skipSpace text = c :: cs) :
    skipAllLines text = c :: cs := by
  cases text with
  | nil => cases htext
  | cons d text =>
    unfold skipAllLines
    rw [skipLines, htext, h.skipComment_cons, readBreak_of_isPlain h.plain]

theorem skipAllLines_cons (h : Begins c) (cs : List Char) : skipAllLines (c :: cs) = c :: cs :=
  h.skipAllLines_eq (h.skipSpace_cons cs)

theorem readLineEnd_cons (h : Begins c) (cs : List Char) : readLineEnd (c :: cs) = none := by
  unfold readLineEnd
  rw [h.skipSpace_cons, h.skipComment_cons]
  exact readBreak_of_isPlain h.plain cs

end Begins

theorem skipSpace_space (cs : List Char) : skipSpace (' ' :: cs) = skipSpace cs := rfl

theorem skipAllLines_break (cs : List Char) : skipAllLines ('\n' :: cs) = skipAllLines cs := rfl

/-! ### Values -/

theorem exists_quote (s rest : List Char) :
    ∃ q more, (q = '"' ∨ q = '\'') ∧ writeString s ++ rest = q :: more := by
  unfold writeString
  cases quoting s with
  | basic => exact ⟨'"', _, .inl rfl, rfl⟩
  | literal => exact ⟨'\'', _, .inr rfl, rfl⟩
  | block => exact ⟨'"', _, .inl rfl, rfl⟩
  | literalBlock => exact ⟨'\'', _, .inr rfl, rfl⟩

theorem begins_quote {q : Char} (h : q = '"' ∨ q = '\'') : Begins q := by
  rcases h with rfl | rfl <;> constructor <;> decide

theorem ne_close_of_quote {q : Char} (h : q = '"' ∨ q = '\'') : q ≠ ']' := by
  rcases h with rfl | rfl <;> decide

theorem skipSpace_writeString (s rest : List Char) :
    skipSpace (writeString s ++ rest) = writeString s ++ rest := by
  obtain ⟨q, more, hq, heq⟩ := exists_quote s rest
  rw [heq, (begins_quote hq).skipSpace_cons]

theorem readValue_writeString (depth : Nat) (s : List Char) {rest : List Char}
    (hdouble : rest.head? ≠ some '"') (hsingle : rest.head? ≠ some '\'') :
    readValue depth (writeString s ++ rest) = some (.string s, rest) := by
  have hread := readString_writeString s hdouble hsingle
  obtain ⟨q, more, hq, heq⟩ := exists_quote s rest
  rw [heq] at hread ⊢
  rcases hq with rfl | rfl
  · rw [readValue, hread]
    rfl
  · rw [readValue, hread]
    rfl

theorem readValue_writeBool (depth : Nat) (b : Bool) (rest : List Char) :
    readValue depth (writeBool b ++ rest) = some (.bool b, rest) := by
  unfold writeBool
  cases b with
  | true => rw [readValue.eq_def]; rfl
  | false => rw [readValue.eq_def]; rfl

section

variable {item : Read Node} {bound cs more rest behind left : List Char} {b c : Char} {node : Node}
  {nodes : List Node}

theorem readItems_close (h : skipAllLines cs = ']' :: rest) :
    readItems item (b :: bound) cs = some ([], rest) := by
  rw [readItems, h]
  rfl

theorem readItems_comma (hskip : skipAllLines cs = c :: more) (hc : c ≠ ']')
    (hitem : item (c :: more) = some (node, rest)) (hcomma : skipAllLines rest = ',' :: behind)
    (hbehind : readItems item bound behind = some (nodes, left)) :
    readItems item (b :: bound) cs = some (node :: nodes, left) := by
  rw [readItems, hskip]
  split
  · rename_i heq
    exact absurd (List.cons.inj heq).1 hc
  · simp only [bind, Option.bind, hitem, hcomma, hbehind]
    rfl

theorem readItems_last (hskip : skipAllLines cs = c :: more) (hc : c ≠ ']')
    (hitem : item (c :: more) = some (node, rest)) (hclose : skipAllLines rest = ']' :: behind) :
    readItems item (b :: bound) cs = some ([node], behind) := by
  rw [readItems, hskip]
  split
  · rename_i heq
    exact absurd (List.cons.inj heq).1 hc
  · simp only [bind, Option.bind, hitem, hclose]
    rfl

end

theorem begins_comma : Begins ',' := by constructor <;> decide

theorem begins_close : Begins ']' := by constructor <;> decide

theorem begins_open : Begins '[' := by constructor <;> decide

def itemLine (s : List Char) : List Char := "    ".toList ++ writeString s ++ ",\n".toList

theorem readItems_itemLine (depth : Nat) (items : List (List Char)) (rest : List Char)
    {bound : List Char} (hbound : (items.flatMap itemLine).length < bound.length) :
    readItems (readValue depth) bound ('\n' :: (items.flatMap itemLine ++ ']' :: rest)) =
      some (items.map .string, rest) := by
  induction items generalizing bound with
  | nil =>
    obtain ⟨b, bound, rfl⟩ := List.exists_cons_of_length_pos (Nat.zero_lt_of_lt hbound)
    exact readItems_close (begins_close.skipAllLines_cons rest)
  | cons s items ih =>
    obtain ⟨b, bound, rfl⟩ := List.exists_cons_of_length_pos (Nat.zero_lt_of_lt hbound)
    have hlength : (items.flatMap itemLine).length < bound.length := by
      have hitem : 0 < (itemLine s).length := List.length_pos_of_ne_nil (by simp [itemLine])
      rw [List.flatMap_cons, List.length_append, List.length_cons] at hbound
      omega
    have hbehind := ih hlength
    generalize hleft : items.flatMap itemLine ++ ']' :: rest = left at hbehind
    have htext : (s :: items).flatMap itemLine ++ ']' :: rest =
        ' ' :: ' ' :: ' ' :: ' ' :: (writeString s ++ ',' :: '\n' :: left) := by
      rw [List.flatMap_cons, List.append_assoc, hleft]
      simp [itemLine]
    obtain ⟨q, more, hq, heq⟩ := exists_quote s (',' :: '\n' :: left)
    have hskip : skipAllLines ('\n' :: ((s :: items).flatMap itemLine ++ ']' :: rest)) =
        q :: more := by
      rw [skipAllLines_break]
      apply (begins_quote hq).skipAllLines_eq
      rw [htext, skipSpace_space, skipSpace_space, skipSpace_space, skipSpace_space, heq,
        (begins_quote hq).skipSpace_cons]
    have hitem : readValue depth (writeString s ++ ',' :: '\n' :: left) = _ :=
      readValue_writeString depth s (by simp) (by simp)
    rw [heq] at hitem
    exact readItems_comma hskip (ne_close_of_quote hq) hitem (begins_comma.skipAllLines_cons _)
      hbehind

theorem readValue_writeStrings {depth : Nat} (hdepth : 0 < depth) (items : List (List Char))
    (rest : List Char) :
    readValue depth (writeStrings items ++ rest) = some (.array (items.map .string), rest) := by
  obtain ⟨depth, rfl⟩ := Nat.exists_eq_add_of_lt hdepth
  rw [Nat.zero_add]
  have hlist {text : List Char} {nodes : List Node}
      (h : readItems (readValue depth) text text = some (nodes, rest)) :
      readValue (depth + 1) ('[' :: text) = some (.array nodes, rest) := by
    rw [readValue, h]
    rfl
  match items with
  | [] => exact hlist (readItems_close (begins_close.skipAllLines_cons rest))
  | [s] =>
    obtain ⟨q, more, hq, heq⟩ := exists_quote s (']' :: rest)
    have htext : writeStrings [s] ++ rest = '[' :: (q :: more) := by
      rw [← heq]
      simp [writeStrings]
    have hitem : readValue depth (writeString s ++ ']' :: rest) = _ :=
      readValue_writeString depth s (by simp) (by simp)
    rw [heq] at hitem
    rw [htext]
    exact hlist (readItems_last ((begins_quote hq).skipAllLines_cons more) (ne_close_of_quote hq)
      hitem (begins_close.skipAllLines_cons rest))
  | s :: s' :: items =>
    have hitems : writeStrings (s :: s' :: items) =
        "[\n".toList ++ (s :: s' :: items).flatMap itemLine ++ [']'] := rfl
    have htext : writeStrings (s :: s' :: items) ++ rest =
        '[' :: '\n' :: ((s :: s' :: items).flatMap itemLine ++ ']' :: rest) := by
      rw [hitems]
      simp
    rw [htext]
    apply hlist
    apply readItems_itemLine
    simp only [List.length_cons, List.length_append]
    omega

/-! ### Keys -/

theorem begins_of_isBare {c : Char} (h : isBare c = true) : Begins c where
  space := by
    by_contra hspace
    simp only [isSpace, Bool.not_eq_false, Bool.or_eq_true, decide_eq_true_eq] at hspace
    rcases hspace with rfl | rfl <;> exact absurd h (by decide)
  comment := by
    rintro rfl
    exact absurd h (by decide)
  plain := by
    have hwithin {low high : Nat} (hrange : low ≤ c.toNat ∧ c.toNat ≤ high) (hlow : 0x20 ≤ low)
        (hhigh : high < 0x7F) : isPlain c = true := by
      have hplain : 0x20 ≤ c.toNat ∧ c.toNat ≠ 0x7F := by omega
      simp [isPlain, hplain]
    simp only [isBare, isDigit, Bool.or_eq_true, Bool.and_eq_true, decide_eq_true_eq,
      Char.le_def, UInt32.le_iff_toNat_le] at h
    rcases h with (((hrange | hrange) | hrange) | rfl) | rfl
    · exact hwithin hrange (by decide) (by decide)
    · exact hwithin hrange (by decide) (by decide)
    · exact hwithin hrange (by decide) (by decide)
    · decide
    · decide

structure IsBareKey (key : String) : Prop where
  ne_nil : key.toList ≠ []
  bare : key.toList.all isBare = true

theorem IsBareKey.forall_mem {key : String} (h : IsBareKey key) :
    ∀ c ∈ key.toList, isBare c = true :=
  List.all_eq_true.mp h.bare

theorem ne_of_isBare {c d : Char} (h : isBare c = true) (hd : isBare d = false) : c ≠ d := by
  rintro rfl
  rw [h] at hd
  cases hd

section

variable {key : List Char}

theorem readSimpleKey_bare (hne : key ≠ []) (hbare : ∀ c ∈ key, isBare c = true) {c : Char}
    (hc : isBare c = false) (rest : List Char) :
    readSimpleKey (key ++ c :: rest) = some (key, c :: rest) := by
  obtain ⟨k, more, rfl⟩ := List.exists_cons_of_ne_nil hne
  have hk := hbare k List.mem_cons_self
  have htake : (k :: more ++ c :: rest).takeWhile isBare = k :: more := by
    rw [List.takeWhile_append_of_pos hbare, List.takeWhile_cons_of_neg (by simp [hc]),
      List.append_nil]
  have hdrop : (k :: more ++ c :: rest).dropWhile isBare = c :: rest := by
    rw [List.dropWhile_append_of_pos hbare, List.dropWhile_cons_of_neg (by simp [hc])]
  unfold readSimpleKey
  split
  · rename_i heq
    exact absurd (List.cons.inj heq).1 (ne_of_isBare hk (by decide))
  · rename_i heq
    exact absurd (List.cons.inj heq).1 (ne_of_isBare hk (by decide))
  · rw [htake, hdrop]

theorem readKey_bare (hne : key ≠ []) (hbare : ∀ c ∈ key, isBare c = true) (rest : List Char) :
    readKey (key ++ ' ' :: '=' :: rest) = some (([], key), '=' :: rest) := by
  have hspace : skipSpace (key ++ ' ' :: '=' :: rest) = key ++ ' ' :: '=' :: rest := by
    obtain ⟨k, more, rfl⟩ := List.exists_cons_of_ne_nil hne
    exact (begins_of_isBare (hbare k List.mem_cons_self)).skipSpace_cons _
  have hmark : skipSpace (' ' :: '=' :: rest) = '=' :: rest := rfl
  have hpath (limit : Nat) :
      readPath (limit + 1) (key ++ ' ' :: '=' :: rest) = some ([key], '=' :: rest) := by
    rw [readPath, hspace, readSimpleKey_bare hne hbare (by decide)]
    simp only [bind, Option.bind, hmark]
    rfl
  unfold readKey maxDepth
  rw [hpath]
  rfl

end

/-! ### Lines -/

theorem Fields.lookup_eq_none {fields : Fields} {key : Key} (h : key ∉ fields.map Prod.fst) :
    fields.lookup key = none := by
  rw [List.lookup_eq_none_iff]
  intro field hfield
  rw [bne_iff_ne]
  rintro rfl
  exact h (List.mem_map_of_mem hfield)

theorem Fields.addIn_nil {fields : Fields} {key : Key} (h : fields.lookup key = none)
    (node : Node) : fields.addIn [] [] key node = some (fields ++ [(key, node)]) := by
  simp [Fields.addIn, Fields.add, Fields.change, h]

structure Line where
  key : String
  text : List Char
  node : Node

namespace Line

def write (l : Line) : List Char := writeField l.key l.text

def field (l : Line) : Key × Node := (l.key.toList, l.node)

/-- The key needs no quotes, and the text is read, up to the end of its line, as what it stands
for. -/
structure IsSound (l : Line) : Prop where
  key : IsBareKey l.key
  value : ∀ more, readValue maxDepth (skipSpace (l.text ++ '\n' :: more)) =
    some (l.node, '\n' :: more)

variable {l : Line}

theorem write_append (l : Line) (rest : List Char) :
    l.write ++ rest = l.key.toList ++ ' ' :: '=' :: ' ' :: (l.text ++ '\n' :: rest) := by
  simp [write, writeField]

theorem length_write_pos (l : Line) : 0 < l.write.length :=
  List.length_pos_of_ne_nil (by simp [write, writeField])

theorem IsSound.exists_head (h : l.IsSound) (rest : List Char) :
    ∃ k more, l.write ++ rest = k :: more ∧ isBare k = true := by
  obtain ⟨k, more, hkey⟩ := List.exists_cons_of_ne_nil h.key.ne_nil
  rw [l.write_append, hkey]
  exact ⟨k, _, rfl, h.key.forall_mem k (by simp [hkey])⟩

section

variable {key : String} (hkey : IsBareKey key)

include hkey

theorem isSound_string (s : List Char) : IsSound ⟨key, writeString s, .string s⟩ where
  key := hkey
  value more := by
    rw [skipSpace_writeString]
    exact readValue_writeString maxDepth s (by simp) (by simp)

theorem isSound_strings (items : List (List Char)) :
    IsSound ⟨key, writeStrings items, .array (items.map .string)⟩ where
  key := hkey
  value more := by
    obtain ⟨text, htext⟩ : ∃ text, writeStrings items ++ '\n' :: more = '[' :: text := by
      match items with
      | [] => exact ⟨_, rfl⟩
      | [s] => exact ⟨_, rfl⟩
      | s :: s' :: items => exact ⟨_, rfl⟩
    have hread := readValue_writeStrings (by decide : 0 < maxDepth) items ('\n' :: more)
    rw [htext] at hread ⊢
    rw [begins_open.skipSpace_cons, hread]

theorem isSound_bool (b : Bool) : IsSound ⟨key, writeBool b, .bool b⟩ where
  key := hkey
  value more := by
    have hspace : skipSpace (writeBool b ++ '\n' :: more) = writeBool b ++ '\n' :: more := by
      cases b <;> rfl
    rw [hspace]
    exact readValue_writeBool maxDepth b ('\n' :: more)

end

theorem IsSound.readLine (h : l.IsSound) {fields : Fields}
    (hnew : fields.lookup l.key.toList = none) (rest : List Char) :
    readLine ⟨fields, []⟩ (l.write ++ rest) = some (⟨fields ++ [l.field], []⟩, rest) := by
  obtain ⟨k, more, hhead, hk⟩ := h.exists_head rest
  have hend := (begins_of_isBare hk).readLineEnd_cons more
  have hkey := readKey_bare h.key.ne_nil h.key.forall_mem (' ' :: (l.text ++ '\n' :: rest))
  rw [← l.write_append, hhead] at hkey
  rw [hhead]
  unfold Toml.readLine
  split
  · rename_i heq
    exact absurd (List.cons.inj heq).1 (ne_of_isBare hk (by decide))
  · rename_i heq
    exact absurd (List.cons.inj heq).1 (ne_of_isBare hk (by decide))
  · rw [hend, hkey]
    have hmark : readMark '=' ('=' :: ' ' :: (l.text ++ '\n' :: rest)) =
        some (' ' :: (l.text ++ '\n' :: rest)) := rfl
    have hbreak : readLineEnd ('\n' :: rest) = some rest := rfl
    simp only [bind, Option.bind, hmark, skipSpace_space, h.value rest, hbreak,
      Fields.addIn_nil hnew]
    rfl

end Line

theorem readAllLines_write {lines : List Line} (hsound : ∀ l ∈ lines, l.IsSound) {fields : Fields}
    (hkeys : ((fields ++ lines.map Line.field).map Prod.fst).Nodup) {bound : List Char}
    (hbound : (lines.flatMap Line.write).length < bound.length) :
    readAllLines bound ⟨fields, []⟩ (lines.flatMap Line.write) =
      some ⟨fields ++ lines.map Line.field, []⟩ := by
  induction lines generalizing fields bound with
  | nil =>
    obtain ⟨b, bound, rfl⟩ := List.exists_cons_of_length_pos (Nat.zero_lt_of_lt hbound)
    rw [List.map_nil, List.append_nil]
    rfl
  | cons l lines ih =>
    obtain ⟨b, bound, rfl⟩ := List.exists_cons_of_length_pos (Nat.zero_lt_of_lt hbound)
    obtain ⟨hl, hlines⟩ := List.forall_mem_cons.mp hsound
    rw [List.map_cons, List.append_cons] at hkeys ⊢
    have hnew : fields.lookup l.key.toList = none := by
      apply Fields.lookup_eq_none
      rw [List.append_assoc, List.map_append] at hkeys
      exact fun hmem => List.disjoint_of_nodup_append hkeys hmem (by simp [Line.field])
    obtain ⟨k, more, hhead, hk⟩ := hl.exists_head (lines.flatMap Line.write)
    have hline := hl.readLine hnew (lines.flatMap Line.write)
    have hlength : (lines.flatMap Line.write).length < bound.length := by
      rw [List.flatMap_cons, List.length_append, List.length_cons] at hbound
      have hwrite := l.length_write_pos
      omega
    have hrest := ih hlines hkeys hlength
    rw [List.flatMap_cons, readAllLines]
    rw [hhead, (begins_of_isBare hk).skipSpace_cons]
    rw [hhead] at hline
    simp only [hline, bind, Option.bind, hrest]

/-- A document of sound lines is read as their fields, if no two of them have the same key. -/
theorem read_write {lines : List Line} (hsound : ∀ l ∈ lines, l.IsSound)
    (hkeys : (lines.map Line.key).Nodup) :
    read (lines.flatMap Line.write) = some (lines.map Line.field) := by
  have hmark : (lines.flatMap Line.write).head? ≠ some '\ufeff' := by
    cases lines with
    | nil => simp
    | cons l lines =>
      have hl := hsound l List.mem_cons_self
      obtain ⟨k, more, hhead, hk⟩ := hl.exists_head (lines.flatMap Line.write)
      rw [List.flatMap_cons, hhead, List.head?_cons]
      exact fun heq => ne_of_isBare hk (by decide) (Option.some.inj heq)
  have hfields : (([] ++ lines.map Line.field).map Prod.fst).Nodup := by
    have hmap : (lines.map Line.field).map Prod.fst = (lines.map Line.key).map String.toList := by
      simp [Line.field, Function.comp_def]
    rw [List.nil_append, hmap]
    exact hkeys.map fun _ _ => String.toList_injective
  unfold read
  simp only [if_neg hmark]
  rw [readAllLines_write hsound hfields (by simp)]
  rfl

/-! ### Values that may be left out -/

/-- A key with the text and the meaning of its value; none if the key is left out. -/
structure Slot where
  key : String
  value? : Option (List Char × Node)

namespace Slot

def line? (slot : Slot) : Option Line := slot.value?.map fun value => ⟨slot.key, value.1, value.2⟩

def write (slot : Slot) : List Char := (slot.line?.map Line.write).getD []

theorem write_lines (slots : List Slot) :
    (slots.filterMap line?).flatMap Line.write = slots.flatMap write := by
  induction slots with
  | nil => rfl
  | cons slot slots ih =>
    rw [List.filterMap_cons, List.flatMap_cons, ← ih]
    unfold write
    cases slot.line? <;> rfl

theorem keys_lines (slots : List Slot) :
    ((slots.filterMap line?).map Line.key).Sublist (slots.map Slot.key) := by
  induction slots with
  | nil => exact .refl _
  | cons slot slots ih =>
    rw [List.filterMap_cons, List.map_cons]
    obtain ⟨key, value?⟩ := slot
    cases value? with
    | none => exact ih.cons key
    | some value => exact ih.cons_cons key

theorem lookup_lines {slots : List Slot} (hkeys : (slots.map Slot.key).Nodup) {slot : Slot}
    (h : slot ∈ slots) :
    ((slots.filterMap line?).map Line.field).lookup slot.key.toList = slot.value?.map Prod.snd := by
  induction slots with
  | nil => cases h
  | cons first slots ih =>
    obtain ⟨hfirst, hrest⟩ := List.nodup_cons.mp hkeys
    rw [List.filterMap_cons]
    rcases List.mem_cons.mp h with rfl | hmem
    · obtain ⟨key, value?⟩ := slot
      cases value? with
      | none =>
        apply Fields.lookup_eq_none
        rw [List.map_map]
        intro hkey
        obtain ⟨l, hl, heq⟩ := List.mem_map.mp hkey
        have hmem := (keys_lines slots).subset (List.mem_map_of_mem hl)
        rw [String.toList_injective heq] at hmem
        exact hfirst hmem
      | some value => exact List.lookup_cons_self
    · obtain ⟨key, value?⟩ := first
      cases value? with
      | none => exact ih hrest hmem
      | some value =>
        have hne : slot.key.toList ≠ key.toList := by
          intro heq
          have hslot : slot.key ∈ slots.map Slot.key := List.mem_map_of_mem hmem
          rw [String.toList_injective heq] at hslot
          exact hfirst hslot
        have hstep : (((key.toList, value.2) : Key × Node) ::
            (slots.filterMap line?).map Line.field).lookup slot.key.toList =
            ((slots.filterMap line?).map Line.field).lookup slot.key.toList := by
          rw [List.lookup_cons, beq_eq_false_iff_ne.mpr hne]
        exact hstep.trans (ih hrest hmem)

end Slot

end ApiAtlas.Toml
