import ApiAtlas.Proofs.Requests

/-!
Service is line by line, on both sides. A stream that stops at the end of a line leaves nothing
behind but the files, so what follows is served as a stream of its own. What goes out holds no line
feed but the one behind each answer, so its lines stand against the lines that came in.
-/
namespace ApiAtlas

namespace Bytes

theorem lines_lineFeed (rest : Bytes) : lines (lineFeed :: rest) = [lineFeed] :: rest.lines := by
  rw [lines, if_pos rfl]

theorem lines_append_of_notMem {front : Bytes} (h : lineFeed ∉ front) (hne : front ≠ [])
    (rest : Bytes) :
    lines (front ++ rest) = (front ++ rest.lines.headD []) :: rest.lines.tail := by
  induction front with
  | nil => exact absurd rfl hne
  | cons b front ih =>
    rw [List.mem_cons, not_or] at h
    rw [List.cons_append, lines, if_neg (Ne.symm h.1)]
    by_cases hfront : front = []
    · subst hfront
      rw [List.nil_append]
      cases rest.lines <;> rfl
    · rw [ih h.2 hfront]
      rfl

/-- A stream that ends in a line feed is made of whole lines. -/
theorem lines_append {front : Bytes} (h : front.getLast? = some lineFeed) (rest : Bytes) :
    lines (front ++ rest) = front.lines ++ rest.lines := by
  obtain ⟨front, rfl⟩ := List.getLast?_eq_some_iff.mp h
  clear h
  rw [List.append_assoc, List.singleton_append]
  induction front with
  | nil =>
    rw [List.nil_append, List.nil_append, lines_lineFeed, lines_lineFeed]
    rfl
  | cons b front ih =>
    rw [List.cons_append, List.cons_append, lines, lines, ih]
    split
    · rw [List.cons_append]
    · have hflat := flatten_lines (front ++ [lineFeed])
      cases hlines : lines (front ++ [lineFeed]) with
      | nil => simp [hlines] at hflat
      | cons line others => rfl

theorem withoutBreak_cases (line : Bytes) :
    line.withoutBreak = line ∨ line = line.withoutBreak ++ [lineFeed] ∨
      line = line.withoutBreak ++ [carriageReturn] ++ [lineFeed] := by
  unfold withoutBreak
  split
  · rename_i b rest hreverse
    have hline : line = rest.reverse ++ [b] := by
      rw [← List.reverse_cons, ← hreverse, List.reverse_reverse]
    split
    · rename_i hb
      split
      · rename_i hreturn
        obtain ⟨front, rfl⟩ := List.head?_eq_some_iff.mp hreturn
        rw [hb, List.reverse_cons] at hline
        exact .inr (.inr hline)
      · exact .inr (.inl (hb ▸ hline))
    · exact .inl rfl
  · exact .inl rfl

end Bytes

namespace Utf8

theorem lineFeed_mem_encode {cs : List Char} : lineFeed ∈ encode cs ↔ '\n' ∈ cs := by
  have hfeed (c : Char) : lineFeed ∈ encodeChar c ↔ c = '\n' := by
    rw [mem_encodeChar (by decide), ← Char.toNat_inj]
    rfl
  unfold encode
  simp [List.mem_flatMap, hfeed]

theorem encodeChar_ne_nil (c : Char) : encodeChar c ≠ [] := by
  unfold encodeChar
  simp only
  split_ifs <;> exact List.cons_ne_nil _ _

theorem encodeChar_eq_singleton {b : UInt8} {c : Char} (hb : b.toNat < 0x80)
    (h : b ∈ encodeChar c) : encodeChar c = [b] := by
  have hc := (mem_encodeChar hb).mp h
  unfold encodeChar
  simp only
  rw [hc, if_pos hb, UInt8.ofNat_toNat]

theorem exists_encode_of_concat {cs : List Char} {front : Bytes} {b : UInt8} (hb : b.toNat < 0x80)
    (h : encode cs = front ++ [b]) : ∃ part, front = encode part := by
  induction cs using List.reverseRecOn with
  | nil => simp at h
  | append_singleton part c _ =>
    rw [encode_append, encode_cons, encode_nil, List.append_nil] at h
    have hlast : (encodeChar c).getLast? = some b := by
      rw [← List.getLast?_append_of_ne_nil (encode part) (encodeChar_ne_nil c), h,
        List.getLast?_concat]
    rw [encodeChar_eq_singleton hb (List.mem_of_getLast? hlast)] at h
    exact ⟨part, (List.append_inj_left' h rfl).symm⟩

theorem exists_encode_of_mem_lines {cs : List Char} {line : Bytes}
    (h : line ∈ Bytes.lines (encode cs)) : ∃ part, line = encode part := by
  induction cs generalizing line with
  | nil => cases h
  | cons c cs ih =>
    rw [encode_cons] at h
    by_cases hc : lineFeed ∈ encodeChar c
    · rw [encodeChar_eq_singleton (by decide) hc, List.singleton_append, Bytes.lines_lineFeed] at h
      rcases List.mem_cons.mp h with rfl | h
      · exact ⟨['\n'], by decide⟩
      · exact ih h
    · rw [Bytes.lines_append_of_notMem hc (encodeChar_ne_nil c)] at h
      cases hlines : Bytes.lines (encode cs) with
      | nil =>
        rw [hlines] at h
        refine ⟨[c], ?_⟩
        simpa using h
      | cons first others =>
        rw [hlines] at h ih
        rcases List.mem_cons.mp h with rfl | h
        · obtain ⟨part, hpart⟩ := ih List.mem_cons_self
          refine ⟨c :: part, ?_⟩
          rw [encode_cons, ← hpart]
          rfl
        · exact ih (List.mem_cons_of_mem first h)

theorem isSome_lineText?_encode (cs : List Char) : (Bytes.lineText? (encode cs)).isSome := by
  have htext {line : Bytes} (h : ∃ part, line = encode part) : (decode line).isSome := by
    obtain ⟨part, rfl⟩ := h
    rw [decode_encode]
    rfl
  apply htext
  rcases Bytes.withoutBreak_cases (encode cs) with hwhole | hfeed | hreturn
  · exact ⟨cs, hwhole⟩
  · exact exists_encode_of_concat (by decide) hfeed
  · obtain ⟨part, hpart⟩ := exists_encode_of_concat (by decide) hreturn
    exact exists_encode_of_concat (by decide) hpart.symm

theorem isSome_lineText?_of_decode {bs : Bytes} (h : (decode bs).isSome) :
    ∀ line ∈ bs.lines, line.lineText?.isSome := by
  intro line hline
  obtain ⟨cs, hcs⟩ := Option.isSome_iff_exists.mp h
  rw [← encode_of_decode hcs] at hline
  obtain ⟨part, rfl⟩ := exists_encode_of_mem_lines hline
  exact isSome_lineText?_encode part

end Utf8

namespace Json

theorem newline_notMem_escapeChar (c : Char) : '\n' ∉ escapeChar c := by
  have hdigit {n : Nat} (hn : n < 16) : '\n' ≠ hexDigit n := by
    have hall : ∀ n < 16, '\n' ≠ hexDigit n := by decide
    exact hall n hn
  unfold escapeChar
  split
  case h_8 _ _ hnewline _ _ _ _ =>
    split
    · have hlow := hdigit (show c.toNat / 16 < 16 by omega)
      have hhigh := hdigit (show c.toNat % 16 < 16 by omega)
      simp [hlow, hhigh]
    · simpa [eq_comm] using hnewline
  all_goals decide

theorem newline_notMem_stringChars (s : String) : '\n' ∉ stringChars s := by
  simp [stringChars, newline_notMem_escapeChar]

theorem newline_notMem_toDigits (n : Nat) : '\n' ∉ Nat.toDigits 10 n := by
  intro hmem
  exact absurd (Nat.isDigit_of_mem_toDigits (by decide) (by decide) hmem) (by decide)

theorem newline_notMem_layout {digits : String} (h : '\n' ∉ digits.toList) (exponent : Int) :
    '\n' ∉ (Binary64.layout digits exponent).toList := by
  have htake (n : Nat) : '\n' ∉ digits.toList.take n := fun hmem => h (List.mem_of_mem_take hmem)
  have hdrop (n : Nat) : '\n' ∉ digits.toList.drop n := fun hmem => h (List.mem_of_mem_drop hmem)
  unfold Binary64.layout
  simp only
  split_ifs <;> simp [h, htake, hdrop, newline_notMem_toDigits, Binary64.zeros, -List.drop_one]

theorem newline_notMem_number (n : Number) : '\n' ∉ n.text.toList := by
  cases n with
  | nat n => simp [Number.text, newline_notMem_toDigits]
  | negative n => simp [Number.text, newline_notMem_toDigits]
  | float minus x =>
    have hx : '\n' ∉ x.text.toList := by
      unfold Binary64.text
      split
      · decide
      · exact newline_notMem_layout (by simp [newline_notMem_toDigits]) _
    cases minus <;> simp [Number.text, hx]

mutual

theorem newline_notMem_compactChars : (v : Json) → '\n' ∉ v.compactChars
  | .null => by decide
  | .bool true => by decide
  | .bool false => by decide
  | .num n => newline_notMem_number n
  | .str s => newline_notMem_stringChars s
  | .arr items => by simp [compactChars, newline_notMem_compactItems items]
  | .obj fields => by simp [compactChars, newline_notMem_compactFields fields]

theorem newline_notMem_compactItems : (items : List Json) → '\n' ∉ compactItems items
  | [] => by simp [compactItems]
  | [item] => newline_notMem_compactChars item
  | item :: next :: items => by
    simp [compactItems, newline_notMem_compactChars item,
      newline_notMem_compactItems (next :: items)]

theorem newline_notMem_compactFields :
    (fields : List (String × Json)) → '\n' ∉ compactFields fields
  | [] => by simp [compactFields]
  | [(key, value)] => by
    simp [compactFields, newline_notMem_stringChars, newline_notMem_compactChars value]
  | (key, value) :: next :: fields => by
    simp [compactFields, newline_notMem_stringChars, newline_notMem_compactChars value,
      newline_notMem_compactFields (next :: fields)]

end

def framed (v : Json) : Bytes := Bytes.ofString v.compact ++ [lineFeed]

theorem lineFeed_notMem_compact (v : Json) : lineFeed ∉ Bytes.ofString v.compact := by
  rw [Bytes.ofString, compact, String.toList_ofList, Utf8.lineFeed_mem_encode]
  exact newline_notMem_compactChars v

theorem lines_framed (v : Json) (rest : Bytes) :
    Bytes.lines (v.framed ++ rest) = v.framed :: rest.lines := by
  rw [framed, List.append_assoc, List.singleton_append]
  by_cases hempty : Bytes.ofString v.compact = []
  · rw [hempty, List.nil_append, List.nil_append, Bytes.lines_lineFeed]
  · rw [Bytes.lines_append_of_notMem v.lineFeed_notMem_compact hempty, Bytes.lines_lineFeed]
    rfl

theorem lines_flatMap_framed (vs : List Json) :
    Bytes.lines (vs.flatMap framed) = vs.map framed := by
  induction vs with
  | nil => rfl
  | cons v vs ih => rw [List.flatMap_cons, lines_framed, ih, List.map_cons]

end Json

def Served.output (served : Served) : Bytes := served.responses.flatMap Json.framed

namespace Outcome

def isFailure : Outcome → Bool
  | .done _ => false
  | .failed _ => true
  | .aborted => true

/-- The response is an object, with a field for an error exactly if there is one. -/
def TellsFailure (o : Outcome) : Prop :=
  ∀ notice, ∃ fields, o.response notice = .obj fields ∧
    ("error" ∈ fields.map Prod.fst ↔ o.isFailure = true)

theorem tellsFailure_failed (e : Error) : (failed e).TellsFailure :=
  fun _ => ⟨_, rfl, by simp [isFailure]⟩

theorem tellsFailure_done {fields : List (String × Json)} (h : "error" ∉ fields.map Prod.fst) :
    (done (.obj fields)).TellsFailure :=
  fun _ => ⟨fields, rfl, by simpa [isFailure] using h⟩

theorem tellsFailure_ofList {α : Type} {name : String} (h : name ≠ "error") (codec : Json.Codec α)
    (items : List α) : (ofList name codec items).TellsFailure := by
  unfold ofList
  split
  · exact tellsFailure_done (by simpa using h.symm)
  · exact fun _ => ⟨_, rfl, by simp [isFailure]⟩

end Outcome

theorem encodeAnswer_keys {α : Type} {r : Json.Record α} (hnames : r.fields.names.Nodup) {a : α}
    {v : Json} (h : encodeAnswer r.codec a = .ok v) :
    ∃ fields, v = .obj fields ∧ (fields.map Prod.fst).Perm r.fields.names := by
  unfold encodeAnswer at h
  split at h
  · rename_i w hw
    obtain ⟨fields, hfields, hw⟩ := Json.bind_eq_ok_iff.mp hw
    cases hw
    cases h
    have hkeys : (Json.sortedFields fields).map Prod.fst = r.fields.names := by
      rw [← (Json.Fields.toFields_eq_ok hnames hfields).1, Json.sortedFields_eq_map, List.map_map]
      rfl
    refine ⟨_, by rw [Json.sorted], ?_⟩
    rw [← hkeys]
    exact (Json.sortFields_perm (hkeys ▸ hnames)).map Prod.fst
  · cases h

theorem Outcome.tellsFailure_record {α β : Type} {r : Json.Record α} (hnames : r.fields.names.Nodup)
    (herror : "error" ∉ r.fields.names) (params : Except Error β) (answer : β → α) :
    (ofExcept do encodeAnswer r.codec (answer (← params))).TellsFailure := by
  cases params with
  | error e => exact tellsFailure_failed e
  | ok p =>
    cases hanswer : encodeAnswer r.codec (answer p) with
    | error e =>
      simp only [bind, Except.bind, hanswer]
      exact tellsFailure_failed e
    | ok v =>
      obtain ⟨fields, rfl, hkeys⟩ := encodeAnswer_keys hnames hanswer
      simp only [bind, Except.bind, hanswer]
      exact tellsFailure_done (hkeys.mem_iff.not.mpr herror)

namespace Settings

theorem tellsFailure_handle (s : Settings) (t : FileTree) (tool : Tool) (params : Option Json) :
    (s.handle t tool params).2.TellsFailure := by
  cases tool with
  | buildManifest =>
    exact Outcome.tellsFailure_record (r := Manifest.record) (by decide) (by decide) _ _
  | extractApi =>
    exact Outcome.tellsFailure_record (r := Report.record) (by decide) (by decide) _ _
  | scanDocs =>
    simp only [handle]
    split
    · exact Outcome.tellsFailure_failed _
    · exact Outcome.tellsFailure_ofList (by decide) _ _
  | renderApiDocs =>
    simp only [handle]
    split
    · exact Outcome.tellsFailure_failed _
    · split
      · exact Outcome.tellsFailure_failed _
      · exact Outcome.tellsFailure_ofList (by decide) _ _

theorem tellsFailure_handleLine (s : Settings) (t : FileTree) (line : List Char) :
    (s.handleLine t line).2.TellsFailure := by
  unfold handleLine
  split
  · exact Outcome.tellsFailure_failed _
  · split
    · exact Outcome.tellsFailure_failed _
    · exact s.tellsFailure_handle t _ _

theorem length_responses (s : Settings) (t : FileTree) (lines : List Bytes) (notices : Notices) :
    (s.serveLines t lines notices).responses.length =
      (lines.takeWhile (·.lineText?.isSome)).countP (!·.isBlankLine) := by
  induction lines generalizing t notices with
  | nil => rfl
  | cons line lines ih =>
    cases htext : line.lineText? with
    | none =>
      obtain ⟨offset, run, -, hstop⟩ := s.serveLines_fault t line lines notices htext
      rw [hstop, List.takeWhile_cons_of_neg (by simp [htext])]
      rfl
    | some text =>
      rw [List.takeWhile_cons_of_pos (by simp [htext])]
      cases hblank : line.isBlankLine with
      | true =>
        rw [serveLines_blank _ _ _ _ _ hblank, List.countP_cons_of_neg (by simp [hblank])]
        exact ih t notices
      | false =>
        rw [serveLines_text _ _ _ _ _ text htext hblank, List.countP_cons_of_pos (by simp [hblank]),
          List.length_cons, ih]

/-- Each line that goes out answers a line that came in: the first the first that is not blank, and
so on up to a line that is no text. -/
structure Framed (s : Settings) (t : FileTree) (input : Bytes) (notices : Notices) : Prop where
  single : ∀ line ∈ (s.serve t input notices).output.lines, line.count lineFeed = 1
  responses : (s.serve t input notices).output.lines =
    (s.serve t input notices).responses.map Json.framed
  count : (s.serve t input notices).output.lines.length =
    (input.lines.takeWhile (·.lineText?.isSome)).countP (!·.isBlankLine)
  answered : ∀ before line after text, input.lines = before ++ line :: after →
    (∀ line' ∈ before, line'.lineText?.isSome) → line.lineText? = some text →
    line.isBlankLine = false →
    (s.serve t input notices).output.lines[before.countP (!·.isBlankLine)]? =
      some ((s.handleLine (s.serveLines t before notices).tree (Text.trim text)).2.response
        (notices (before.countP (!·.isBlankLine)))).framed

theorem framed_serve (s : Settings) (t : FileTree) (input : Bytes) (notices : Notices) :
    s.Framed t input notices where
  single := by
    intro line hline
    rw [Served.output, Json.lines_flatMap_framed] at hline
    obtain ⟨v, -, rfl⟩ := List.mem_map.mp hline
    rw [Json.framed, List.count_append, List.count_eq_zero.mpr v.lineFeed_notMem_compact]
    rfl
  responses := Json.lines_flatMap_framed _
  count := by
    rw [Served.output, Json.lines_flatMap_framed, List.length_map]
    exact s.length_responses t input.lines notices
  answered before line after text hlines hbefore htext hblank := by
    rw [Served.output, Json.lines_flatMap_framed, List.getElem?_map]
    unfold serve
    rw [hlines, s.getElem?_responses t after notices hbefore htext hblank, Option.map_some]

/-- A stream of whole lines is served by itself, and what follows it as if it came alone, its
requests being counted on. -/
theorem serve_append (s : Settings) (t : FileTree) (notices : Notices) {front : Bytes}
    (htext : (Utf8.decode front).isSome) (hend : front.getLast? = some lineFeed) (back : Bytes) :
    s.serve t (front ++ back) notices =
      { s.serve (s.serve t front notices).tree back
          (notices.after (s.serve t front notices).responses.length) with
        responses := (s.serve t front notices).responses ++
          (s.serve (s.serve t front notices).tree back
            (notices.after (s.serve t front notices).responses.length)).responses } := by
  unfold serve
  rw [Bytes.lines_append hend]
  exact s.serveLines_append t front.lines back.lines notices
    (Utf8.isSome_lineText?_of_decode htext)

/-- Service is line by line. Where a stream of text ends in a line feed, it can be cut and served in
two runs, the second on the files of the first and with the requests of the first counted; every line
that goes out is one answer, to the line in the same place among those that are not blank; and an
answer is an object that has a field for an error exactly if the request failed. -/
theorem serve_lineByLine (s : Settings) (t : FileTree) (notices : Notices) :
    (∀ front back : Bytes, (Utf8.decode front).isSome → front.getLast? = some lineFeed →
      (s.serve t front notices).error? = none ∧
      s.serve t (front ++ back) notices =
        { s.serve (s.serve t front notices).tree back
            (notices.after (s.serve t front notices).responses.length) with
          responses := (s.serve t front notices).responses ++
            (s.serve (s.serve t front notices).tree back
              (notices.after (s.serve t front notices).responses.length)).responses }) ∧
    (∀ input, s.Framed t input notices) ∧
    ∀ line, (s.handleLine t line).2.TellsFailure := by
  refine ⟨?_, fun input => s.framed_serve t input notices, s.tellsFailure_handleLine t⟩
  intro front back htext hend
  refine ⟨?_, s.serve_append t notices htext hend back⟩
  exact (s.serveLines_complete t front.lines notices (Utf8.isSome_lineText?_of_decode htext)).1

end Settings

end ApiAtlas
