import ApiAtlas.Toml.Scalar
import ApiAtlas.Toml.Writer
import Mathlib.Data.List.Basic

/-!
Written strings are read back. Each of the four ways to quote is undone by a reader of its own; what
a string holds decides which of them is taken, and so that it can hold the string.
-/
namespace ApiAtlas.Toml

/-- A reader takes `s` from the front of a text, given a bound that is no shorter than the text. -/
def Takes (reader : (bound : List Char) → Read (List Char)) (text s rest : List Char) : Prop :=
  ∀ bound : List Char, text.length ≤ bound.length → reader bound text = some (s, rest)

theorem exists_bound {c : Char} {cs bound : List Char} (h : (c :: cs).length ≤ bound.length) :
    ∃ b more, bound = b :: more ∧ cs.length ≤ more.length := by
  cases bound with
  | nil => cases h
  | cons b more => exact ⟨b, more, rfl, Nat.le_of_succ_le_succ h⟩

theorem readBreak_of_isPlain {c : Char} (h : isPlain c = true) (cs : List Char) :
    readBreak (c :: cs) = none := by
  unfold readBreak
  split
  · simp_all [isPlain]
  · simp_all [isPlain]
  · rfl

theorem isPlain_of_uncoded {c : Char} (h : needsCode c = false) (hbreak : c ≠ '\n') :
    isPlain c = true := by
  simp only [needsCode, isPlain, Bool.or_eq_false_iff, Bool.and_eq_false_iff,
    decide_eq_false_iff_not, Bool.or_eq_true, Bool.and_eq_true, decide_eq_true_eq,
    Decidable.not_not, Nat.not_lt] at h ⊢
  tauto

theorem toNat_lt_of_needsCode {c : Char} (h : needsCode c = true) : c.toNat < 0x80 := by
  simp only [needsCode, Bool.or_eq_true, Bool.and_eq_true, decide_eq_true_eq] at h
  omega

/-! ### Escapes -/

theorem natOf_upperHexDigits {n : Nat} (h : n < 0x80) :
    natOf 16 ['0', '0', upperHexDigit (n / 16), upperHexDigit (n % 16)] = n ∧
      isHexDigit (upperHexDigit (n / 16)) = true ∧ isHexDigit (upperHexDigit (n % 16)) = true := by
  have hall : ∀ n < 0x80,
      natOf 16 ['0', '0', upperHexDigit (n / 16), upperHexDigit (n % 16)] = n ∧
      isHexDigit (upperHexDigit (n / 16)) = true ∧
      isHexDigit (upperHexDigit (n % 16)) = true := by decide +kernel
  exact hall n h

theorem readEscape_code {c : Char} (h : c.toNat < 0x80) (rest : List Char) :
    readEscape ('u' :: '0' :: '0' :: upperHexDigit (c.toNat / 16) :: upperHexDigit (c.toNat % 16) ::
      rest) = some (c, rest) := by
  obtain ⟨hcode, hhigh, hlow⟩ := natOf_upperHexDigits h
  have hzero : isHexDigit '0' = true := by decide
  have hvalid : c.toNat.isValidChar := .inl (by omega)
  simp only [readEscape, readEscape.code, List.take_succ_cons, List.take_zero, List.drop_succ_cons,
    List.drop_zero, hcode, Char.ofNat_toNat]
  rw [if_pos]
  exact ⟨rfl, by simp [hzero, hhigh, hlow], hvalid⟩

/-- How a character can stand in double quotes: as it is, or as a code behind a backslash. -/
inductive Stands (c : Char) : List Char → Prop where
  | plain (hplain : isPlain c = true) (hquote : c ≠ '"') (hslash : c ≠ '\\') : Stands c [c]
  | coded {d : Char} {code : List Char} (hplain : isPlain d = true) (hspace : isSpace d = false)
      (hcode : ∀ rest, readEscape (d :: code ++ rest) = some (c, rest)) :
      Stands c ('\\' :: d :: code)

theorem escapeFrom_cons (spare quotes : Nat) (c : Char) (cs : List Char) :
    (c = '"' ∧ quotes < spare ∧
      escapeFrom spare quotes (c :: cs) = '"' :: escapeFrom spare (quotes + 1) cs) ∨
    (c = '\n' ∧ spare ≠ 0 ∧ escapeFrom spare quotes (c :: cs) = '\n' :: escapeFrom spare 0 cs) ∨
    ∃ piece, Stands c piece ∧
      escapeFrom spare quotes (c :: cs) = piece ++ escapeFrom spare 0 cs := by
  rw [escapeFrom.eq_def spare quotes (c :: cs)]
  dsimp only
  split
  · split_ifs with hspare
    · exact .inl ⟨rfl, hspare, rfl⟩
    · exact .inr (.inr ⟨['\\', '"'], .coded (by decide) (by decide) fun _ => rfl, rfl⟩)
  · exact .inr (.inr ⟨['\\', 'b'], .coded (by decide) (by decide) fun _ => rfl, rfl⟩)
  · exact .inr (.inr ⟨['\\', 't'], .coded (by decide) (by decide) fun _ => rfl, rfl⟩)
  · split_ifs with hspare
    · exact .inr (.inr ⟨['\\', 'n'], .coded (by decide) (by decide) fun _ => rfl, rfl⟩)
    · exact .inr (.inl ⟨rfl, hspare, rfl⟩)
  · exact .inr (.inr ⟨['\\', 'f'], .coded (by decide) (by decide) fun _ => rfl, rfl⟩)
  · exact .inr (.inr ⟨['\\', 'r'], .coded (by decide) (by decide) fun _ => rfl, rfl⟩)
  · exact .inr (.inr ⟨['\\', '\\'], .coded (by decide) (by decide) fun _ => rfl, rfl⟩)
  · rename_i hquote _ _ hbreak _ _ hslash
    refine .inr (.inr ⟨_, ?_, rfl⟩)
    split_ifs with hcoded
    · exact .coded (by decide) (by decide) (readEscape_code (toNat_lt_of_needsCode hcoded))
    · exact .plain (isPlain_of_uncoded (Bool.not_eq_true _ ▸ hcoded) hbreak) hquote hslash

theorem escapeFrom_zero_cons (quotes : Nat) (c : Char) (cs : List Char) :
    ∃ piece, Stands c piece ∧ escapeFrom 0 quotes (c :: cs) = piece ++ escapeFrom 0 0 cs := by
  rcases escapeFrom_cons 0 quotes c cs with ⟨-, hspare, -⟩ | ⟨-, hspare, -⟩ | hpiece
  · exact absurd hspare (Nat.not_lt_zero quotes)
  · exact absurd rfl hspare
  · exact hpiece

theorem Stands.exists_head {c : Char} {piece : List Char} (h : Stands c piece) :
    ∃ d more, piece = d :: more ∧ isPlain d = true ∧ d ≠ '"' := by
  cases h with
  | plain hplain hquote hslash => exact ⟨c, [], rfl, hplain, hquote⟩
  | coded hplain hspace hcode => exact ⟨'\\', _, rfl, by decide, by decide⟩

/-! ### One line -/

theorem takes_readBasic_end (rest : List Char) : Takes readBasic ('"' :: rest) [] rest := by
  intro bound hbound
  obtain ⟨b, more, rfl, -⟩ := exists_bound hbound
  rw [readBasic, if_pos rfl]

theorem Stands.takes_readBasic {c : Char} {piece : List Char} (h : Stands c piece)
    {text s rest : List Char} (htext : Takes readBasic text s rest) :
    Takes readBasic (piece ++ text) (c :: s) rest := by
  cases h with
  | plain hplain hquote hslash =>
    intro bound hbound
    obtain ⟨b, more, rfl, hmore⟩ := exists_bound hbound
    rw [List.singleton_append, readBasic, if_neg hquote, if_neg hslash, if_pos hplain,
      htext more hmore]
    rfl
  | @coded d code hplain hspace hcode =>
    intro bound hbound
    rw [List.cons_append] at hbound ⊢
    obtain ⟨b, more, rfl, hmore⟩ := exists_bound hbound
    have hlength : text.length ≤ more.length := by
      simp only [List.length_append, List.length_cons] at hmore
      omega
    rw [readBasic, if_neg (by decide), if_pos rfl, hcode]
    simp only [bind, Option.bind, htext more hlength]
    rfl

theorem takes_readBasic (s rest : List Char) (quotes : Nat) :
    Takes readBasic (escapeFrom 0 quotes s ++ '"' :: rest) s rest := by
  induction s generalizing quotes with
  | nil => exact takes_readBasic_end rest
  | cons c s ih =>
    obtain ⟨piece, hpiece, heq⟩ := escapeFrom_zero_cons quotes c s
    rw [heq, List.append_assoc]
    exact hpiece.takes_readBasic (ih 0)

theorem readLiteral_append {s : List Char} (hplain : ∀ c ∈ s, isPlain c = true) (hquote : '\'' ∉ s)
    (rest : List Char) : readLiteral (s ++ '\'' :: rest) = some (s, rest) := by
  induction s with
  | nil => rw [List.nil_append, readLiteral, if_pos rfl]
  | cons c s ih =>
    obtain ⟨hc, hs⟩ := List.forall_mem_cons.mp hplain
    obtain ⟨hne, hquote⟩ := not_or.mp (mt List.mem_cons.mpr hquote)
    rw [List.cons_append, readLiteral, if_neg (Ne.symm hne), if_pos hc, ih hs hquote]
    rfl

/-! ### Blocks -/

theorem takeWhile_run {quote : Char} {cs : List Char} (h : cs.head? ≠ some quote) (run : Nat) :
    (List.replicate run quote ++ cs).takeWhile (· = quote) = List.replicate run quote := by
  have hnone : cs.takeWhile (· = quote) = [] := by
    cases cs with
    | nil => rfl
    | cons c cs => exact List.takeWhile_cons_of_neg (by simpa using h)
  rw [List.takeWhile_append_of_pos (by simp), hnone, List.append_nil]

theorem closing_run {quote : Char} {cs : List Char} (h : cs.head? ≠ some quote) {run : Nat}
    (hrun : run ≤ 2) :
    closing quote (List.replicate run quote ++ cs) = (List.replicate run quote, none) := by
  unfold closing
  simp only [takeWhile_run h, List.length_replicate]
  rw [if_pos (by omega)]

theorem closing_end {quote : Char} {rest : List Char} (h : rest.head? ≠ some quote) {run : Nat}
    (hrun : run ≤ 2) :
    closing quote (List.replicate (run + 3) quote ++ rest) =
      (List.replicate run quote, some rest) := by
  have hinside : min (run + 3 - 3) 2 = run := by omega
  unfold closing
  simp only [takeWhile_run h, List.length_replicate, hinside]
  rw [if_neg (by omega), List.take_replicate, Nat.min_eq_left (by omega), List.drop_left' (by simp)]

/-- A reader of the inside of a string that three quotes end, at quotes and at line breaks. -/
structure ReadsBlock (quote : Char) (reader : (bound : List Char) → Read (List Char)) : Prop where
  ends : ∀ {b : Char} {bound cs inside rest : List Char},
    closing quote (quote :: cs) = (inside, some rest) →
    reader (b :: bound) (quote :: cs) = some (inside, rest)
  quotes : ∀ {b : Char} {bound cs inside s rest : List Char},
    closing quote (quote :: cs) = (inside, none) →
    reader bound ((quote :: cs).drop inside.length) = some (s, rest) →
    reader (b :: bound) (quote :: cs) = some (inside ++ s, rest)
  breaks : ∀ {b : Char} {bound cs s rest : List Char}, reader bound cs = some (s, rest) →
    reader (b :: bound) ('\n' :: cs) = some ('\n' :: s, rest)

theorem readsBlock_readBlock : ReadsBlock '"' readBlock where
  ends h := by rw [readBlock, if_pos rfl, h]
  quotes h hrest := by
    rw [readBlock, if_pos rfl, h]
    simp only [bind, Option.bind, hrest]
    rfl
  breaks h := by
    rw [readBlock, if_neg (by decide), if_neg (by decide)]
    simp only [readBreak, bind, Option.bind, h]
    rfl

theorem readsBlock_readLiteralBlock : ReadsBlock '\'' readLiteralBlock where
  ends h := by rw [readLiteralBlock, if_pos rfl, h]
  quotes h hrest := by
    rw [readLiteralBlock, if_pos rfl, h]
    simp only [bind, Option.bind, hrest]
    rfl
  breaks h := by
    rw [readLiteralBlock, if_neg (by decide)]
    simp only [readBreak, bind, Option.bind, h]
    rfl

namespace ReadsBlock

variable {quote : Char} {reader : (bound : List Char) → Read (List Char)} {text s rest : List Char}

theorem takes_end (h : ReadsBlock quote reader) (hrest : rest.head? ≠ some quote) {run : Nat}
    (hrun : run ≤ 2) :
    Takes reader (List.replicate (run + 3) quote ++ rest) (List.replicate run quote) rest := by
  intro bound hbound
  have hclosing := closing_end hrest hrun
  rw [List.replicate_succ, List.cons_append] at hbound hclosing ⊢
  obtain ⟨b, more, rfl, -⟩ := exists_bound hbound
  exact h.ends hclosing

theorem takes_run (h : ReadsBlock quote reader) (htext : Takes reader text s rest)
    (hhead : text.head? ≠ some quote) {run : Nat} (hrun : run ≤ 2) :
    Takes reader (List.replicate run quote ++ text) (List.replicate run quote ++ s) rest := by
  cases run with
  | zero => exact htext
  | succ run =>
    intro bound hbound
    have hclosing := closing_run hhead hrun
    have hdrop : (List.replicate (run + 1) quote ++ text).drop (run + 1) = text := by
      simp
    rw [List.length_append, List.length_replicate] at hbound
    cases bound with
    | nil => simp at hbound
    | cons b more =>
      rw [List.length_cons] at hbound
      rw [List.replicate_succ, List.cons_append] at hclosing hdrop ⊢
      refine h.quotes hclosing ?_
      rw [List.length_cons, List.length_replicate, hdrop]
      exact htext more (by omega)

theorem takes_break (h : ReadsBlock quote reader) (htext : Takes reader text s rest) :
    Takes reader ('\n' :: text) ('\n' :: s) rest := by
  intro bound hbound
  obtain ⟨b, more, rfl, hmore⟩ := exists_bound hbound
  exact h.breaks (htext more hmore)

end ReadsBlock

theorem append_quote (quote : Char) (run : Nat) (cs : List Char) :
    List.replicate run quote ++ quote :: cs = List.replicate (run + 1) quote ++ cs := by
  rw [List.replicate_succ', List.append_assoc, List.singleton_append]

theorem Stands.takes_readBlock {c : Char} {piece : List Char} (h : Stands c piece)
    {text s rest : List Char} (htext : Takes readBlock text s rest) :
    Takes readBlock (piece ++ text) (c :: s) rest := by
  cases h with
  | plain hplain hquote hslash =>
    intro bound hbound
    obtain ⟨b, more, rfl, hmore⟩ := exists_bound hbound
    rw [List.singleton_append, readBlock, if_neg hquote, if_neg hslash,
      readBreak_of_isPlain hplain]
    simp only [if_pos hplain, bind, Option.bind, htext more hmore]
    rfl
  | @coded d code hplain hspace hcode =>
    intro bound hbound
    rw [List.cons_append] at hbound ⊢
    obtain ⟨b, more, rfl, hmore⟩ := exists_bound hbound
    have hlength : text.length ≤ more.length := by
      simp only [List.length_append, List.length_cons] at hmore
      omega
    -- The code stands right behind the backslash, which so is not the last of its line.
    have hbreak : readBreak ((d :: code ++ text).dropWhile isSpace) = none := by
      rw [List.cons_append, List.dropWhile_cons_of_neg (by simp [hspace]),
        readBreak_of_isPlain hplain]
    rw [readBlock, if_neg (by decide), if_pos rfl, hbreak]
    simp only [bind, Option.bind, hcode, htext more hlength]
    rfl

/-- In a block as many quotes stand in a row as may be; `quotes` is how many of them already do. -/
theorem takes_readBlock (s : List Char) {rest : List Char} (hrest : rest.head? ≠ some '"')
    {quotes : Nat} (hquotes : quotes ≤ 2) :
    Takes readBlock
      (List.replicate quotes '"' ++ (escapeFrom 2 quotes s ++ (List.replicate 3 '"' ++ rest)))
      (List.replicate quotes '"' ++ s) rest := by
  -- The reader takes a run of quotes as a whole, so the ones already written wait for what ends it.
  induction s generalizing quotes with
  | nil =>
    rw [escapeFrom, List.nil_append, List.append_nil, ← List.append_assoc, ← List.replicate_add]
    exact readsBlock_readBlock.takes_end hrest hquotes
  | cons c s ih =>
    have hnext := ih (Nat.zero_le 2)
    rcases escapeFrom_cons 2 quotes c s with
      ⟨rfl, hspare, heq⟩ | ⟨rfl, -, heq⟩ | ⟨piece, hpiece, heq⟩
    · rw [heq, List.cons_append, append_quote, append_quote]
      exact ih hspare
    · rw [heq, List.cons_append]
      exact readsBlock_readBlock.takes_run (readsBlock_readBlock.takes_break hnext) (by simp)
        hquotes
    · rw [heq, List.append_assoc]
      apply readsBlock_readBlock.takes_run (hpiece.takes_readBlock hnext) _ hquotes
      obtain ⟨d, more, rfl, -, hne⟩ := hpiece.exists_head
      simpa using hne

theorem le_longestRunFrom (c : Char) (s : List Char) (run : Nat) :
    run ≤ longestRunFrom c run s := by
  induction s generalizing run with
  | nil => exact Nat.le_refl run
  | cons d s ih =>
    rw [longestRunFrom]
    split_ifs
    · exact Nat.le_of_succ_le (ih (run + 1))
    · exact Nat.le_max_left _ _

theorem takes_readLiteralBlock_plain {c : Char} (hplain : isPlain c = true) (hquote : c ≠ '\'')
    {text s rest : List Char} (htext : Takes readLiteralBlock text s rest) :
    Takes readLiteralBlock (c :: text) (c :: s) rest := by
  intro bound hbound
  obtain ⟨b, more, rfl, hmore⟩ := exists_bound hbound
  rw [readLiteralBlock, if_neg hquote, readBreak_of_isPlain hplain]
  simp only [if_pos hplain, bind, Option.bind, htext more hmore]
  rfl

theorem takes_readLiteralBlock {s : List Char} (hcoded : ∀ c ∈ s, needsCode c = false)
    {rest : List Char} (hrest : rest.head? ≠ some '\'') {quotes : Nat}
    (hquotes : longestRunFrom '\'' quotes s ≤ 2) :
    Takes readLiteralBlock
      (List.replicate quotes '\'' ++ (s ++ (List.replicate 3 '\'' ++ rest)))
      (List.replicate quotes '\'' ++ s) rest := by
  induction s generalizing quotes with
  | nil =>
    rw [List.nil_append, List.append_nil, ← List.append_assoc, ← List.replicate_add]
    exact readsBlock_readLiteralBlock.takes_end hrest hquotes
  | cons c s ih =>
    obtain ⟨hc, hs⟩ := List.forall_mem_cons.mp hcoded
    have hrun := Nat.le_trans (le_longestRunFrom '\'' (c :: s) quotes) hquotes
    rw [longestRunFrom] at hquotes
    rw [List.cons_append]
    by_cases hquote : c = '\''
    · subst hquote
      rw [if_pos rfl] at hquotes
      rw [append_quote, append_quote]
      exact ih hs hquotes
    · rw [if_neg hquote] at hquotes
      have hnext := ih hs (Nat.le_trans (Nat.le_max_right _ _) hquotes)
      apply readsBlock_readLiteralBlock.takes_run _ (by simpa using hquote) hrun
      by_cases hbreak : c = '\n'
      · subst hbreak
        exact readsBlock_readLiteralBlock.takes_break hnext
      · exact takes_readLiteralBlock_plain (isPlain_of_uncoded hc hbreak) hquote hnext

/-! ### All four -/

theorem plain_of_quoting_literal {s : List Char} (h : quoting s = .literal) :
    (∀ c ∈ s, isPlain c = true) ∧ '\'' ∉ s := by
  unfold quoting at h
  simp only at h
  split_ifs at h with hbasic hliteral
  simp only [Bool.and_eq_true, Bool.not_eq_true', List.any_eq_false, decide_eq_true_eq,
    decide_eq_false_iff_not, Bool.not_eq_true] at hliteral
  obtain ⟨⟨hcoded, hquote⟩, hbreak⟩ := hliteral
  refine ⟨fun c hc => isPlain_of_uncoded (hcoded c hc) ?_, hquote⟩
  rintro rfl
  exact hbreak hc

theorem uncoded_of_quoting_literalBlock {s : List Char} (h : quoting s = .literalBlock) :
    (∀ c ∈ s, needsCode c = false) ∧ longestRun '\'' s ≤ 2 := by
  unfold quoting at h
  simp only at h
  split_ifs at h with hbasic hliteral hblock hliteralBlock
  simpa using hliteralBlock

theorem dropFirstBreak_openingBreak {s text : List Char} (h : '\n' ∉ s → readBreak text = none) :
    dropFirstBreak (openingBreak s ++ text) = text := by
  unfold dropFirstBreak openingBreak
  split_ifs with hbreak
  · rfl
  · rw [List.nil_append, h hbreak, Option.getD_none]

theorem readString_basic (s : List Char) {rest : List Char} (hrest : rest.head? ≠ some '"') :
    readString ('"' :: (escapeFrom 0 0 s ++ '"' :: rest)) = some (s, rest) := by
  have htaken := takes_readBasic s rest 0 _ (Nat.le_refl _)
  rw [readString]
  · exact htaken
  · -- Two more quotes would open a block: an empty string would need one behind its end.
    intro more heq
    cases s with
    | nil =>
      rw [escapeFrom, List.nil_append] at heq
      rw [(List.cons.inj heq).2] at hrest
      exact hrest rfl
    | cons c s =>
      obtain ⟨piece, hpiece, hpieces⟩ := escapeFrom_zero_cons 0 c s
      obtain ⟨d, code, rfl, -, hne⟩ := hpiece.exists_head
      rw [hpieces] at heq
      exact hne (List.cons.inj heq).1

theorem readString_literal {s : List Char} (hplain : ∀ c ∈ s, isPlain c = true) (hquote : '\'' ∉ s)
    {rest : List Char} (hrest : rest.head? ≠ some '\'') :
    readString ('\'' :: (s ++ '\'' :: rest)) = some (s, rest) := by
  rw [readString]
  · exact readLiteral_append hplain hquote rest
  · intro more heq
    cases s with
    | nil =>
      rw [(List.cons.inj heq).2] at hrest
      exact hrest rfl
    | cons c s => exact hquote (by simp [(List.cons.inj heq).1])

theorem readString_block (s : List Char) {rest : List Char} (hrest : rest.head? ≠ some '"') :
    readString ('"' :: '"' :: '"' :: (openingBreak s ++
      (escapeFrom 2 0 s ++ (List.replicate 3 '"' ++ rest)))) = some (s, rest) := by
  have htaken := takes_readBlock s hrest (Nat.zero_le 2) _ (Nat.le_refl _)
  rw [readString, dropFirstBreak_openingBreak]
  · exact htaken
  · -- Without a break of its own the string cannot lose one at its front.
    intro hbreak
    cases s with
    | nil => rfl
    | cons c s =>
      rcases escapeFrom_cons 2 0 c s with ⟨-, -, heq⟩ | ⟨rfl, -, -⟩ | ⟨piece, hpiece, heq⟩
      · rw [heq]
        rfl
      · exact absurd List.mem_cons_self hbreak
      · obtain ⟨d, code, rfl, hplain, -⟩ := hpiece.exists_head
        rw [heq, List.cons_append, List.cons_append, readBreak_of_isPlain hplain]

theorem readString_literalBlock {s : List Char} (hcoded : ∀ c ∈ s, needsCode c = false)
    (hrun : longestRun '\'' s ≤ 2) {rest : List Char} (hrest : rest.head? ≠ some '\'') :
    readString ('\'' :: '\'' :: '\'' :: (openingBreak s ++
      (s ++ (List.replicate 3 '\'' ++ rest)))) = some (s, rest) := by
  have htaken := @takes_readLiteralBlock s hcoded rest hrest 0 hrun _ (Nat.le_refl _)
  rw [readString, dropFirstBreak_openingBreak]
  · exact htaken
  · intro hbreak
    cases s with
    | nil => rfl
    | cons c s =>
      obtain ⟨hne, -⟩ := not_or.mp (mt List.mem_cons.mpr hbreak)
      have hplain := isPlain_of_uncoded (hcoded c List.mem_cons_self) (Ne.symm hne)
      exact readBreak_of_isPlain hplain _

/-- A written string is read back, whatever it holds, unless one more quote stands right behind. -/
theorem readString_writeString (s : List Char) {rest : List Char} (hdouble : rest.head? ≠ some '"')
    (hsingle : rest.head? ≠ some '\'') : readString (writeString s ++ rest) = some (s, rest) := by
  unfold writeString
  cases hquoting : quoting s with
  | basic => simpa using readString_basic s hdouble
  | literal =>
    obtain ⟨hplain, hquote⟩ := plain_of_quoting_literal hquoting
    simpa using readString_literal hplain hquote hsingle
  | block => simpa using readString_block s hdouble
  | literalBlock =>
    obtain ⟨hcoded, hrun⟩ := uncoded_of_quoting_literalBlock hquoting
    simpa using readString_literalBlock hcoded hrun hsingle

end ApiAtlas.Toml
