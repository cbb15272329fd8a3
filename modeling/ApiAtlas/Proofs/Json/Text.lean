import ApiAtlas.Proofs.Json.Record

/-!
Codecs read back what they write: both written forms of a value are read, in one pass over the text
and whatever stands behind them, as what was written.
-/
namespace ApiAtlas.Json

variable {α : Type}

structure Codec.ReadsBack (c : Codec α) (depth : Nat) : Prop extends c.Faithful depth where
  read_skipSpace : ∀ cs, c.read depth (skipSpace cs) = c.read depth cs
  read_written : ∀ {a v text}, c.toJson a = .ok v → Written v text → ∀ rest,
    c.read depth (text ++ rest) = .ok (a, rest)

theorem Written.eq_quoted {s : String} {text : List Char} (h : Written (.str s) text) :
    text = '"' :: (s.toList.flatMap escapeChar ++ ['"']) := by
  rw [h.eq_compactChars (by simp), compactChars, stringChars, List.cons_append]

namespace Codec

theorem readText_skipSpace (expected : String) (cs : List Char) :
    readText expected (skipSpace cs) = readText expected cs := by
  rw [readText, readText, skipSpace_skipSpace]

theorem readText_written {s : String} {text : List Char} (h : Written (.str s) text)
    (expected : String) (rest : List Char) :
    readText expected (text ++ rest) = .ok (s.toList, rest) := by
  rw [h.eq_quoted, readText, List.cons_append, skipSpace_cons (by decide), List.append_assoc]
  exact readString_written s.toList rest

theorem readsBack_string (depth : Nat) : string.ReadsBack depth where
  toFaithful := faithful_string depth
  read_skipSpace cs := by simp only [string, readText_skipSpace]
  read_written hv htext rest := by
    cases hv
    simp only [string, readText_written htext, bind, Except.bind, String.ofList_toList]
    rfl

theorem readsBack_path (depth : Nat) : path.ReadsBack depth where
  toFaithful := faithful_path depth
  read_skipSpace cs := by simp only [path, readText_skipSpace]
  read_written hv htext rest := by
    obtain ⟨s, rfl, rfl⟩ := path_toJson_eq_ok hv
    simp only [path, readText_written htext, bind, Except.bind]
    rfl

theorem faithful_bool (depth : Nat) : bool.Faithful depth where
  fits h := by
    cases h
    cases depth <;> trivial
  ofJson_sorted h := by
    cases h
    rfl

theorem readsBack_bool (depth : Nat) : bool.ReadsBack depth where
  toFaithful := faithful_bool depth
  read_skipSpace cs := by simp only [bool, skipSpace_skipSpace]
  read_written {b v text} hv htext rest := by
    cases hv
    rw [htext.eq_compactChars (by simp)]
    cases b with
    | false =>
      simp only [bool, compactChars, List.cons_append,
        skipSpace_cons (show isSpace 'f' = false by decide)]
      rfl
    | true =>
      simp only [bool, compactChars, List.cons_append,
        skipSpace_cons (show isSpace 't' = false by decide)]
      rfl

theorem readsBack_variant {vs : Variants α} (h : ∀ a, vs.find (vs.name a) = .ok a) (depth : Nat) :
    (variant vs).ReadsBack depth where
  toFaithful := faithful_variant h depth
  read_skipSpace cs := by simp only [variant, skipSpace_skipSpace]
  read_written {a v text} hv htext rest := by
    cases hv
    have hread : vs.read (text ++ rest) = .ok (a, rest) := by
      rw [Variants.read, readText_written htext]
      simp only [bind, Except.bind, String.ofList_toList, h]
      rfl
    rw [htext.eq_quoted] at hread ⊢
    simp only [variant, List.cons_append, skipSpace_cons (show isSpace '"' = false by decide)]
    exact hread

section

variable {c : Codec α} (hquoted : ∀ {a v}, c.toJson a = .ok v → ∃ s, v = .str s)

include hquoted

theorem faithful_option {depth : Nat} (h : c.Faithful depth) : (option c).Faithful depth where
  fits {a v} hv := by
    cases a with
    | none =>
      cases hv
      cases depth <;> trivial
    | some a => exact h.fits hv
  ofJson_sorted {a v} hv := by
    cases a with
    | none =>
      cases hv
      rfl
    | some a =>
      have hread := h.ofJson_sorted hv
      obtain ⟨s, rfl⟩ := hquoted hv
      simp only [sorted, option, bind, Except.bind] at hread ⊢
      rw [hread]
      rfl

/-- Where every value is written in quotes, `null` is free to stand for none. -/
theorem readsBack_option {depth : Nat} (h : c.ReadsBack depth) : (option c).ReadsBack depth where
  toFaithful := faithful_option hquoted h.toFaithful
  read_skipSpace cs := by simp only [option, skipSpace_skipSpace]
  read_written {a v text} hv htext rest := by
    cases a with
    | none =>
      cases hv
      rw [htext.eq_compactChars (by simp)]
      simp only [option, compactChars, List.cons_append,
        skipSpace_cons (show isSpace 'n' = false by decide)]
      rfl
    | some a =>
      have hread := h.read_written hv htext rest
      obtain ⟨s, rfl⟩ := hquoted hv
      rw [htext.eq_quoted] at hread ⊢
      simp only [option, List.cons_append, skipSpace_cons (show isSpace '"' = false by decide)]
        at hread ⊢
      split
      · rename_i hnull
        cases hnull
      · rw [hread]
        rfl

end

theorem ReadsBack.isPiece {c : Codec α} {depth : Nat} (h : c.ReadsBack depth) {a : α} {v : Json}
    (hv : c.toJson a = .ok v) {gap text : List Char} (hgap : IsGap gap) (htext : Written v text) :
    IsPiece (c.read depth) a (gap ++ text) where
  hasItem behind := by
    have hread := (hgap.readValue_append depth _).trans (readValue_written (h.fits hv) htext behind)
    rw [← List.append_assoc] at hread
    exact hasItem_of_readValue hread
  read behind := by
    rw [List.append_assoc, hgap.skipSpace_append, h.read_skipSpace, h.read_written hv htext]

theorem readsBack_list {c : Codec α} {depth : Nat} (h : c.ReadsBack depth) (hdepth : 0 < depth) :
    (list c).ReadsBack (depth + 1) where
  toFaithful := faithful_list h.toFaithful hdepth
  read_skipSpace cs := by simp only [list, skipSpace_skipSpace]
  read_written {as v text} hv htext rest := by
    obtain ⟨vs, rfl, hvs⟩ := list_toJson_eq_ok hv
    obtain ⟨gap, close, write, hgap, hclose, hwrite, rfl⟩ := htext.arr
    have hpieces : List.Forall₂ (IsPiece (c.read depth)) as (vs.map (gap ++ write ·)) := by
      rw [List.forall₂_map_right_iff]
      exact hvs.imp fun a v hv => h.isPiece hv hgap (hwrite v)
    have hitems := readItems_joined hpieces hclose rest
    have hdepth : ¬ depth + 1 ≤ 1 := by omega
    simp only [list, List.cons_append, List.append_assoc, List.nil_append,
      skipSpace_cons (show isSpace '[' = false by decide), nested, if_neg hdepth,
      Nat.add_sub_cancel, hitems, endList_close hclose, bind, Except.bind]
    rfl

end Codec

theorem Stop.lift_ok (a : α) : Stop.lift (.ok a) = .ok a := rfl

namespace Fields

variable {αs : List Type} {fields : Fields αs} {depth : Nat} {write : Json → List Char}
  {gap space close : List Char}

theorem readMembers_step (hnames : fields.names.Nodup) {values : Values αs} {key : String}
    {text behind : List Char}
    (h : fields.At key (fun codec a => codec.read depth text = .ok (a, behind)) values)
    {keys : List String} (hkey : key ∉ keys) {first : Bool} {cs bound : List Char} {b : Char}
    (hnext : nextKey first cs =
      .ok (some (key.toList.flatMap escapeChar ++ '"' :: ':' :: text))) :
    fields.readMembers depth (b :: bound) first (fields.met (key :: keys) values) cs =
      fields.readMembers depth bound false (fields.met keys values) behind := by
  have hput : fields.At key
      (fun codec a => Stop.lift (codec.read depth text) = .ok (a, behind)) values :=
    h.imp fun hread => by rw [hread, Stop.lift_ok]
  rw [readMembers, hnext]
  simp only [Stop.lift_ok, bind, Except.bind, readString_written, String.ofList_toList,
    readColon_cons]
  rw [assign_met hnames hput hkey]

variable {values : Values αs} {pairs : List (String × Json)}

theorem readMembers_tail (hnames : fields.names.Nodup) (hgap : IsGap gap) (hclose : IsGap close)
    (rest : List Char) (hkeys : (pairs.map Prod.fst).Nodup)
    (h : ∀ pair ∈ pairs, ∀ behind, fields.At pair.1 (fun codec a =>
      codec.read depth (space ++ (write pair.2 ++ behind)) = .ok (a, behind)) values)
    {bound : List Char} (hbound : pairs.length < bound.length) :
    fields.readMembers depth bound false (fields.met (pairs.map Prod.fst) values)
        ((pairs.map (fieldChars gap space write)).flatMap (',' :: ·) ++
          (close ++ '\x7d' :: rest)) =
      .ok (fields.met [] values, close ++ '\x7d' :: rest) := by
  induction pairs generalizing bound with
  | nil =>
    obtain ⟨b, bound, rfl⟩ := List.exists_cons_of_length_pos hbound
    rw [List.map_nil, List.map_nil, List.flatMap_nil, List.nil_append, readMembers,
      nextKey_close hclose]
    rfl
  | cons pair pairs ih =>
    obtain ⟨b, bound, rfl⟩ := List.exists_cons_of_length_pos (Nat.zero_lt_of_lt hbound)
    rw [List.map_cons, List.nodup_cons] at hkeys
    rw [List.forall_mem_cons] at h
    rw [List.map_cons, List.map_cons, List.flatMap_cons, List.append_assoc, List.cons_append,
      fieldChars_append, readMembers_step hnames (h.1 _) hkeys.1 (nextKey_comma hgap _),
      ih hkeys.2 h.2 (Nat.lt_of_succ_lt_succ hbound)]

theorem readMembers_joined (hnames : fields.names.Nodup) (hgap : IsGap gap) (hclose : IsGap close)
    (rest : List Char) (hkeys : pairs.map Prod.fst = fields.names)
    (h : ∀ pair ∈ pairs, ∀ behind, fields.At pair.1
      (fun codec a => codec.read depth (space ++ (write pair.2 ++ behind)) = .ok (a, behind))
        values) :
    fields.readMembers depth
        ('\x7b' :: (joined (pairs.map (fieldChars gap space write)) ++ (close ++ '\x7d' :: rest)))
        true (Slots.empty αs)
        (joined (pairs.map (fieldChars gap space write)) ++ (close ++ '\x7d' :: rest)) =
      .ok (fields.met [] values, close ++ '\x7d' :: rest) := by
  have hlength := length_le_joined (pairs.map (fieldChars gap space write))
  have hnodup : (pairs.map Prod.fst).Nodup := hkeys ▸ hnames
  rw [← met_eq_empty (fun name hname => hname) values, ← hkeys]
  cases pairs with
  | nil =>
    rw [List.map_nil, List.map_nil, joined, List.nil_append, readMembers, nextKey_close hclose]
    rfl
  | cons pair pairs =>
    rw [List.map_cons, List.nodup_cons] at hnodup
    rw [List.forall_mem_cons] at h
    rw [List.map_cons, List.map_cons, joined, List.append_assoc, fieldChars_append,
      readMembers_step hnames (h.1 _) hnodup.1 (nextKey_first hgap _),
      readMembers_tail hnames hgap hclose rest hnodup.2 h.2]
    rw [← fieldChars_append, ← List.append_assoc]
    simp only [List.map_cons, joined, List.length_cons, List.length_map, List.length_append]
      at hlength ⊢
    omega

end Fields

theorem Record.readsBack_codec {r : Record α} {depth : Nat} (hdepth : 0 < depth)
    (hfields : r.fields.All (·.ReadsBack depth)) (hnames : r.fields.names.Nodup)
    (hmake : ∀ a, r.make (r.values a) = a) : r.codec.ReadsBack (depth + 1) where
  toFaithful := faithful_codec hdepth (hfields.imp (·.toFaithful)) hnames hmake
  read_skipSpace cs := by simp only [codec, skipSpace_skipSpace]
  read_written {a v text} hv htext rest := by
    obtain ⟨pairs, hpairs, hv⟩ := bind_eq_ok_iff.mp hv
    cases hv
    obtain ⟨gap, space, close, write, hgap, hspace, hclose, hwrite, rfl⟩ := htext.obj
    obtain ⟨hkeys, hall⟩ := Fields.toFields_eq_ok hnames hpairs
    have hread (pair : String × Json) (hpair : pair ∈ pairs) (behind : List Char) :
        r.fields.At pair.1 (fun codec a =>
          codec.read depth (space ++ (write pair.2 ++ behind)) = .ok (a, behind)) (r.values a) := by
      refine ((hall pair hpair).and_all hfields).imp fun h => ?_
      have hpiece := h.1.isPiece h.2 hspace (hwrite pair.2)
      have hback := hpiece.read behind
      rw [h.1.read_skipSpace, List.append_assoc] at hback
      exact hback
    have hmembers := Fields.readMembers_joined hnames hgap hclose rest hkeys hread
    have hobject : r.readObject depth
        (joined (pairs.map (fieldChars gap space write)) ++ (close ++ '\x7d' :: rest)) =
        .ok (r.values a, close ++ '\x7d' :: rest) := by
      rw [readObject, hmembers]
      simp only [bind, Except.bind, Fields.finish_met_nil]
      rfl
    have hdepth : ¬ depth + 1 ≤ 1 := by omega
    simp only [codec, List.cons_append, List.append_assoc, List.nil_append,
      skipSpace_cons (show isSpace '\x7b' = false by decide), Codec.nested, if_neg hdepth,
      Nat.add_sub_cancel, hobject, Record.close, endObject_close hclose, bind, Except.bind, pure,
      Except.pure, hmake]

theorem Codec.ofText_of_read {c : Codec α} {text : String} {a : α}
    (h : c.read maxDepth text.toList = .ok (a, [])) : c.ofText text = .ok a := by
  unfold ofText
  simp only [h]
  rfl

theorem Codec.ReadsBack.ofText_written {c : Codec α} (h : c.ReadsBack maxDepth) {a : α} {v : Json}
    (hv : c.toJson a = .ok v) {text : String} (htext : text ∈ [v.compact, v.pretty]) :
    c.ofText text = .ok a := by
  apply ofText_of_read
  rw [← List.append_nil text.toList]
  rcases List.mem_pair.mp htext with rfl | rfl
  · rw [compact, String.toList_ofList]
    exact h.read_written hv .compact []
  · rw [pretty, String.toList_ofList]
    exact h.read_written hv (.pretty 0) []

end ApiAtlas.Json
