import ApiAtlas.Proofs.Scan.Classes
import ApiAtlas.Scan.Module

/-!
Declarations of Python. A class or a function is declared by a keyword, blanks, a name and a mark,
at the start of a line or behind a word that stands there. Blanks may hold line breaks, so a further
line may start inside such a declaration: at its name, at its mark, or at its keyword if a word
stands before. Only in the last case can a declaration start there, and it is the same one. So every
declaration is found, and found once.
-/
namespace ApiAtlas.Scan

open Text (isBlank isWord)

structure Heading where
  /-- The words of which one may stand before the keyword. -/
  words : List String
  keyword : String
  /-- The characters that may follow the name. -/
  marks : List Char
  isRun_keyword : IsRun isWord keyword.toList
  isRun_word : ∀ s ∈ words, IsRun isWord s.toList
  word_ne : ∀ s ∈ words, s.toList ≠ keyword.toList
  mark : ∀ c ∈ marks, isWord c = false ∧ isBlank c = false

namespace Heading

variable {d : Heading} {name rest name' rest' cs opening more opening' more' here : List Char}

/-- At the front of `cs` there are the keyword, blanks, the name as a whole, blanks or none, and a
mark; `rest` stands behind them. -/
def At (d : Heading) (name rest cs : List Char) : Prop :=
  ∃ gap gap' mark, IsRun isBlank gap ∧ IsRun isWord name ∧ (∀ c ∈ gap', isBlank c = true) ∧
    mark ∈ d.marks ∧ StopsAt isWord (gap' ++ mark :: rest) ∧
    cs = d.keyword.toList ++ (gap ++ (name ++ (gap' ++ mark :: rest)))

def Opening (d : Heading) (cs : List Char) : Prop := (∃ s ∈ d.words, Spaced s cs) ∨ cs = []

/-- At a position of the text there is a declaration with the given name: the keyword stands at the
start of a line, or a word that stands there comes before it, with blanks between. -/
structure In (d : Heading) (text : List Char) (i : Nat) (name : List Char) : Prop where
  start : ∃ before opening, AtLineStart before ∧ d.Opening opening ∧
    text.take i = before ++ opening
  here : ∃ rest, d.At name rest (text.drop i)

/-- The declarations of a text: each with its position and name, once, and in the order of the
text. -/
structure Lists (d : Heading) (text : List Char) (places : List (Nat × List Char)) : Prop where
  inOrder : places.Pairwise fun first later => first.1 < later.1
  mem_iff : ∀ i name, (i, name) ∈ places ↔ d.In text i name

theorem At.continues (h : d.At name rest cs) : Continues cs := by
  obtain ⟨gap, gap', mark, hgap, hname, -, -, -, rfl⟩ := h
  obtain ⟨c, name, rfl⟩ := List.exists_cons_of_ne_nil hname.ne_nil
  exact ⟨_, gap, c, _, d.isRun_keyword, hgap, hname.all c List.mem_cons_self, rfl⟩

theorem At.length_lt (h : d.At name rest cs) : rest.length < cs.length := by
  obtain ⟨gap, gap', mark, -, -, -, -, -, rfl⟩ := h
  simp only [List.length_append, List.length_cons]
  omega

theorem At.unique (h : d.At name rest cs) (h' : d.At name' rest' cs) : name = name' := by
  obtain ⟨gap, _, mark, hgap, hname, -, -, hstop, rfl⟩ := h
  obtain ⟨gap', _, mark', hgap', hname', -, -, hstop', heq⟩ := h'
  have hblank {name : List Char} (hname : IsRun isWord name) (rest : List Char) :
      StopsAt isBlank (name ++ rest) := hname.stopsAt (fun _ => isBlank_of_isWord) rest
  obtain ⟨-, heq⟩ := run_unique hgap.all hgap'.all (hblank hname _) (hblank hname' _)
    (List.append_cancel_left heq)
  exact (run_unique hname.all hname'.all hstop hstop' heq).1

theorem At.not_spaced (h : d.At name rest cs) {s : String} (hs : s ∈ d.words)
    (hopening : Spaced s opening) (hmore : Continues more) : cs ≠ opening ++ more := by
  obtain ⟨gap, gap', mark, hgap, hname, -, -, -, rfl⟩ := h
  obtain ⟨_, sep, rfl, hsep, rfl⟩ := hopening
  intro heq
  rw [List.append_assoc] at heq
  have hblank := hname.stopsAt (fun _ => isBlank_of_isWord) (gap' ++ mark :: rest)
  obtain ⟨hkeyword, -⟩ := token_unique (fun _ => Text.isWord_of_isBlank) d.isRun_keyword.all
    (d.isRun_word s hs).all hgap hsep hblank hmore.stopsAt heq
  exact d.word_ne s hs hkeyword.symm

theorem opening_unique (hopening : d.Opening opening) (hopening' : d.Opening opening')
    (h : d.At name rest more) (h' : d.At name' rest' more')
    (heq : opening ++ more = opening' ++ more') : more = more' := by
  rcases hopening with ⟨s, hs, hspaced⟩ | rfl
  · rcases hopening' with ⟨s', hs', hspaced'⟩ | rfl
    · obtain ⟨_, gap, rfl, hgap, rfl⟩ := hspaced
      obtain ⟨_, gap', rfl, hgap', rfl⟩ := hspaced'
      rw [List.append_assoc, List.append_assoc] at heq
      exact (token_unique (fun _ => Text.isWord_of_isBlank) (d.isRun_word s hs).all
        (d.isRun_word s' hs').all hgap hgap' h.continues.stopsAt h'.continues.stopsAt heq).2
    · exact absurd heq.symm (h'.not_spaced hs hspaced h.continues)
  · rcases hopening' with ⟨s', hs', hspaced'⟩ | rfl
    · exact absurd heq (h.not_spaced hs' hspaced' h'.continues)
    · exact heq

theorem At.continues_opening (h : d.At name rest more) (hopening : d.Opening opening) :
    Continues (opening ++ more) := by
  rcases hopening with ⟨s, hs, _, gap, rfl, hgap, rfl⟩ | rfl
  · obtain ⟨c, more, hc, rfl⟩ := h.continues.exists_cons
    exact ⟨_, gap, c, more, d.isRun_word s hs, hgap, hc, List.append_assoc _ _ _⟩
  · exact h.continues

theorem past_word {a b : List Char} (ha : '\n' ∉ a) (hfeed : ['\n'] <:+ here)
    (heq : here ++ more = a ++ b) : ∃ here', ['\n'] <:+ here' ∧ here' ++ more = b := by
  rcases List.append_eq_append_iff.mp heq with ⟨beyond, rfl, -⟩ | ⟨here', rfl, rfl⟩
  · exact absurd (List.mem_append_left _ (hfeed.subset List.mem_cons_self)) ha
  · exact ⟨here', suffix_of_notMem ha hfeed, rfl⟩

theorem past_blanks {gap b : List Char} (hgap : ∀ c ∈ gap, isBlank c = true)
    (hmore : Continues more) (hfeed : ['\n'] <:+ here) (heq : here ++ more = gap ++ b) :
    more = b ∨ ∃ here', ['\n'] <:+ here' ∧ here' ++ more = b := by
  rcases List.append_eq_append_iff.mp heq with ⟨beyond, rfl, rfl⟩ | ⟨here', rfl, rfl⟩
  · cases beyond with
    | nil => exact .inl rfl
    | cons c beyond =>
      have hblank := hgap c (List.mem_append_right _ List.mem_cons_self)
      rw [hmore.stopsAt c rfl] at hblank
      cases hblank
  · cases here' with
    | nil => exact .inl rfl
    | cons c here' => exact .inr ⟨c :: here', feed_suffix hfeed (List.cons_ne_nil c here'), rfl⟩

theorem feed_notMem {cs : List Char} (h : IsRun isWord cs) : '\n' ∉ cs := fun hmem =>
  absurd (h.all _ hmem) (by decide)

theorem At.length_le (h : d.At name rest cs) (hfeed : ['\n'] <:+ here) (hmore : Continues more)
    (heq : here ++ more = cs) : more.length ≤ rest.length := by
  obtain ⟨gap, gap', mark, hgap, hname, hgap', hmark, -, rfl⟩ := h
  obtain ⟨hword, hblank⟩ := d.mark mark hmark
  obtain ⟨here, hfeed, heq⟩ := past_word (feed_notMem d.isRun_keyword) hfeed heq
  rcases past_blanks hgap.all hmore hfeed heq with rfl | ⟨here, hfeed, heq⟩
  · exact absurd hmore (not_continues hname hgap' hword hblank)
  obtain ⟨here, hfeed, heq⟩ := past_word (feed_notMem hname) hfeed heq
  rcases past_blanks hgap' hmore hfeed heq with rfl | ⟨here, hfeed, heq⟩
  · obtain ⟨c, more, hc, hcons⟩ := hmore.exists_cons
    rw [← (List.cons.inj hcons).1, hword] at hc
    cases hc
  · have hlength := congrArg List.length heq
    have hpos : 1 ≤ here.length := hfeed.length_le
    rw [List.length_append, List.length_cons] at hlength
    omega

theorem At.length_le_or (h : d.At name rest cs) (hopening : d.Opening opening)
    (hfeed : ['\n'] <:+ here) (hmore : Continues more) (heq : here ++ more = opening ++ cs) :
    more.length ≤ rest.length ∨ more = cs := by
  rcases hopening with ⟨s, hs, _, gap, rfl, hgap, rfl⟩ | rfl
  · rw [List.append_assoc] at heq
    obtain ⟨here, hfeed, heq⟩ := past_word (feed_notMem (d.isRun_word s hs)) hfeed heq
    rcases past_blanks hgap.all hmore hfeed heq with hsame | ⟨here, hfeed, heq⟩
    · exact .inr hsame
    · exact .inl (h.length_le hfeed hmore heq)
  · exact .inl (h.length_le hfeed hmore heq)

def IsFirst (d : Heading) (before opening : List Char) : Prop :=
  opening = [] → ∀ a here, before = a ++ here → here ≠ [] → AtLineStart a → ¬d.Opening here

theorem In.exists_first {text : List Char} {i : Nat} (h : d.In text i name) :
    ∃ before opening more rest, AtLineStart before ∧ d.Opening opening ∧ d.At name rest more ∧
      d.IsFirst before opening ∧ text = before ++ (opening ++ more) ∧
      i = before.length + opening.length := by
  obtain ⟨⟨before, opening, hbefore, hopening, htake⟩, rest, hat⟩ := h
  have hi : i ≤ text.length := by
    have hpos := hat.length_lt
    rw [List.length_drop] at hpos
    omega
  have hparts {before opening : List Char} (htake : text.take i = before ++ opening) :
      text = before ++ (opening ++ text.drop i) ∧ i = before.length + opening.length := by
    constructor
    · rw [← List.append_assoc, ← htake, List.take_append_drop]
    · rw [← List.length_append, ← htake, List.length_take, Nat.min_eq_left hi]
  by_cases hfirst : d.IsFirst before opening
  · exact ⟨before, opening, _, rest, hbefore, hopening, hat, hfirst, hparts htake⟩
  · unfold IsFirst at hfirst
    push Not at hfirst
    obtain ⟨rfl, a, here, rfl, hne, ha, hhere⟩ := hfirst
    rw [List.append_nil] at htake
    exact ⟨a, here, _, rest, ha, hhere, hat, fun hnil => absurd hnil hne, hparts htake⟩

end Heading

namespace Header

variable {κ : Type} {h : Header κ} {note : κ} {d : Heading} {text cs : List Char} {hit : Hit κ}

def PlacedAt (h : Header κ) (d : Heading) (text : List Char) (hit : Hit κ) (i : Nat) : Prop :=
  ∃ opening more rest, d.Opening opening ∧ d.At hit.name rest more ∧ hit.text = opening ++ more ∧
    hit.text.length = h.extent hit + rest.length ∧ i + more.length = text.length

theorem PlacedAt.unique {i j : Nat} (hi : h.PlacedAt d text hit i) (hj : h.PlacedAt d text hit j) :
    i = j := by
  obtain ⟨opening, more, rest, hopening, hat, htext, -, hlength⟩ := hi
  obtain ⟨opening', more', rest', hopening', hat', htext', -, hlength'⟩ := hj
  obtain rfl := Heading.opening_unique hopening hopening' hat hat' (htext.symm.trans htext')
  omega

theorem PlacedAt.lt {later : Hit κ} {i j : Nat} (hi : h.PlacedAt d text hit i)
    (hj : h.PlacedAt d text later j)
    (hapart : later.text.length + h.extent hit ≤ hit.text.length) : i < j := by
  obtain ⟨opening, more, rest, -, hat, htext, hextent, hlength⟩ := hi
  obtain ⟨opening', more', rest', -, -, htext', -, hlength'⟩ := hj
  have hlt := hat.length_lt
  rw [htext', List.length_append] at hapart
  omega

structure Follows (h : Header κ) (note : κ) (d : Heading) : Prop where
  lineStart : h.lineStart = true
  inName : h.inName = isWord
  spells : h.Spells (fun told front => told = note ∧ Then d.Opening (Spaced d.keyword) front)
    (Then (fun gap => ∀ c ∈ gap, isBlank c = true) fun mark => ∃ c ∈ d.marks, mark = [c])

variable (hh : h.Follows note d)
include hh

theorem Follows.parts {size : Nat} (hread : h.readAt cs = some (hit, size)) :
    hit.note = note ∧ ∃ opening more rest, d.Opening opening ∧ d.At hit.name rest more ∧
      cs = opening ++ more ∧ cs.length = size + rest.length := by
  obtain ⟨-, _, _, rest, ⟨hnote, hlead⟩, hname, ⟨gap', _, hgap', ⟨mark, hmark, rfl⟩, rfl⟩, rfl,
    rfl⟩ := hh.spells.parts hread
  obtain ⟨opening, _, hopening, ⟨_, gap, rfl, hgap, rfl⟩, rfl⟩ := hlead
  rw [hh.inName] at hname
  refine ⟨hnote, opening, _, rest, hopening, ⟨gap, gap', mark, hgap, hname, hgap', hmark,
    stopsAt_mark hgap' (d.mark mark hmark).1 rest, rfl⟩, ?_, ?_⟩
  · simp only [List.append_assoc, List.singleton_append]
  · simp only [List.length_append]
    omega

theorem Follows.exists_readAt {opening more name rest : List Char} (hopening : d.Opening opening)
    (hat : d.At name rest more) : ∃ hit size, h.readAt (opening ++ more) = some (hit, size) := by
  obtain ⟨gap, gap', mark, hgap, hname, hgap', hmark, -, rfl⟩ := hat
  rw [← hh.inName] at hname
  have hsome := hh.spells.isSome_readAt note
    ⟨rfl, opening, _, hopening, ⟨_, gap, rfl, hgap, rfl⟩, rfl⟩ hname
    ⟨gap', _, hgap', ⟨mark, hmark, rfl⟩, rfl⟩ rest
  obtain ⟨⟨hit, size⟩, hread⟩ := Option.isSome_iff_exists.mp hsome
  refine ⟨hit, size, ?_⟩
  simpa only [List.append_assoc, List.singleton_append] using hread

theorem Follows.exists_placedAt (hhit : hit ∈ h.hits text) : ∃ i, h.PlacedAt d text hit i := by
  obtain ⟨hsuffix, hread⟩ := readAt_of_mem_hits hhit
  obtain ⟨-, opening, more, rest, hopening, hat, htext, hlength⟩ := hh.parts hread
  have hle := hsuffix.length_le
  rw [htext, List.length_append] at hle
  exact ⟨text.length - more.length, opening, more, rest, hopening, hat, htext, hlength, by omega⟩

theorem Follows.in_of_placedAt {i : Nat} (hhit : hit ∈ h.hits text)
    (hplace : h.PlacedAt d text hit i) : d.In text i hit.name := by
  obtain ⟨before, hbefore, rfl⟩ := lineStart_of_mem_hits hh.lineStart hhit
  obtain ⟨opening, more, rest, hopening, hat, htext, -, hlength⟩ := hplace
  rw [htext, ← List.append_assoc, List.length_append] at hlength
  rw [htext, ← List.append_assoc, Nat.add_right_cancel hlength]
  refine ⟨⟨before, opening, hbefore, hopening, List.take_left⟩, rest, ?_⟩
  rwa [List.drop_left]

section

variable {before opening more name rest : List Char} (hbefore : AtLineStart before)
  (hopening : d.Opening opening) (hat : d.At name rest more) (hfirst : d.IsFirst before opening)
include hbefore hopening hat hfirst

theorem Follows.clear (a here : List Char) (hsplit : before = a ++ here) (hne : here ≠ [])
    (ha : AtLineStart a) (earlier : Hit κ) (n : Nat)
    (hread : h.readAt (here ++ (opening ++ more)) = some (earlier, n)) : n ≤ here.length := by
  obtain ⟨-, opening', more', rest', hopening', hat', heq, hlength⟩ := hh.parts hread
  have hfeed : ['\n'] <:+ here := AtLineStart.feed_suffix (hsplit ▸ hbefore) hne
  rcases hat'.length_le_or hopening' hfeed (hat.continues_opening hopening) heq with hle | rfl
  · rw [List.length_append] at hlength
    omega
  · -- The earlier one would be the same, with a word before it that was left out.
    obtain rfl := List.append_cancel_right heq
    rcases hopening with ⟨s, hs, hspaced⟩ | rfl
    · exact absurd rfl (hat'.not_spaced hs hspaced hat.continues)
    · exact absurd hopening' (hfirst rfl a here hsplit hne ha)

theorem Follows.exists_hit :
    ∃ hit ∈ h.hits (before ++ (opening ++ more)), hit.name = name ∧
      h.PlacedAt d (before ++ (opening ++ more)) hit (before.length + opening.length) := by
  obtain ⟨hit, size, hread⟩ := hh.exists_readAt hopening hat
  obtain ⟨-, opening', more', rest', hopening', hat', heq, hlength⟩ := hh.parts hread
  obtain rfl := Heading.opening_unique hopening hopening' hat hat' heq
  have hne : opening ++ more ≠ [] := by
    obtain ⟨c, rest, -, hcons⟩ := (hat.continues_opening hopening).exists_cons
    exact hcons ▸ List.cons_ne_nil c rest
  have hmem := mem_hits_of_readAt hh.lineStart hread hne hbefore
    (hh.clear hbefore hopening hat hfirst)
  have htext := text_of_readAt hread
  refine ⟨hit, hmem, hat'.unique hat, opening, more, rest', hopening, hat', htext, ?_, ?_⟩
  · rw [htext, hlength, extent_of_readAt hread]
  · simp only [List.length_append]
    omega

end

theorem Follows.exists_hit_of_in {i : Nat} {name : List Char} (hin : d.In text i name) :
    ∃ hit ∈ h.hits text, hit.name = name ∧ h.PlacedAt d text hit i := by
  obtain ⟨before, opening, more, rest, hbefore, hopening, hat, hfirst, rfl, rfl⟩ := hin.exists_first
  exact hh.exists_hit hbefore hopening hat hfirst

theorem Follows.exists_lists (text : List Char) :
    ∃ places, d.Lists text places ∧ places.map (·.2) = h.names text := by
  choose! place hplace using fun hit (hhit : hit ∈ h.hits text) => hh.exists_placedAt hhit
  refine ⟨(h.hits text).map fun hit => (place hit, hit.name), ⟨?_, fun i name => ?_⟩, ?_⟩
  · rw [List.pairwise_map]
    refine List.Pairwise.imp_of_mem ?_ (pairwise_extent text)
    intro first later hfirst hlater hapart
    exact (hplace first hfirst).lt (hplace later hlater) hapart
  · rw [List.mem_map]
    constructor
    · rintro ⟨hit, hhit, heq⟩
      obtain ⟨rfl, rfl⟩ := Prod.mk.inj heq
      exact hh.in_of_placedAt hhit (hplace hit hhit)
    · intro hin
      obtain ⟨hit, hhit, rfl, hi⟩ := hh.exists_hit_of_in hin
      exact ⟨hit, hhit, by rw [(hplace hit hhit).unique hi]⟩
  · rw [List.map_map]
    rfl

theorem Follows.note_eq (hhit : hit ∈ h.hits text) : hit.note = note :=
  (hh.parts (readAt_of_mem_hits hhit).2).1

end Header

def classHeading : Heading where
  words := []
  keyword := "class"
  marks := ['(', ':']
  isRun_keyword := isRun_class
  isRun_word := List.forall_mem_nil _
  word_ne := List.forall_mem_nil _
  mark := List.forall_mem_cons.mpr ⟨by decide, List.forall_mem_singleton.mpr (by decide)⟩

def functionHeading : Heading where
  words := ["async"]
  keyword := "def"
  marks := ['(']
  isRun_keyword := ⟨by decide, List.all_eq_true.mp (by decide)⟩
  isRun_word := List.forall_mem_singleton.mpr ⟨by decide, List.all_eq_true.mp (by decide)⟩
  word_ne := List.forall_mem_singleton.mpr (by decide)
  mark := List.forall_mem_singleton.mpr (by decide)

theorem exists_class_header : ∃ h, python.types = [h] ∧ h.Follows () classHeading := by
  have hlead : Then classHeading.Opening (Spaced "class") = Spaced "class" := by
    funext cs
    simp [Then, Heading.Opening, classHeading]
  have hmark : (fun mark => ∃ s ∈ ["(", ":"], mark = s.toList) =
      fun mark => ∃ c ∈ classHeading.marks, mark = [c] := by
    funext mark
    simp [classHeading]
  refine ⟨_, rfl, rfl, rfl, ?_, ?_⟩
  · rw [show classHeading.keyword = "class" from rfl, hlead]
    exact (reads_spaced "class").lead ()
  · have hmarks : Reads (oneOf (["(", ":"].map word)) fun mark => ∃ s ∈ ["(", ":"], mark = s.toList :=
      reads_oneOf fun s _ => reads_word s
    rw [← hmark]
    exact reads_blanks.seq hmarks

theorem exists_function_header :
    ∃ h, python.functions = [h] ∧ h.Follows MemberKind.function functionHeading := by
  have hopening : (fun cs => Spaced "async" cs ∨ cs = []) = functionHeading.Opening := by
    funext cs
    simp [Heading.Opening, functionHeading]
  have hmark : (· = ['(']) = fun mark => ∃ c ∈ functionHeading.marks, mark = [c] := by
    funext mark
    simp [functionHeading]
  refine ⟨_, rfl, rfl, rfl, ?_, ?_⟩
  · rw [← hopening]
    exact ((reads_spaced "async").optional.seq (reads_spaced "def")).lead MemberKind.function
  · rw [← hmark]
    exact reads_openParen

def publicNames (places : List (Nat × List Char)) : List String :=
  ((places.map (·.2)).filter (·.head? ≠ some '_')).map String.ofList

/-- A module of Python has a container for each public class that is declared and, if any public
function is declared, one for itself with all of these, in the order of the text. -/
theorem python_scan_eq (path : Path) (text : List Char) :
    ∃ classes functions, classHeading.Lists text classes ∧ functionHeading.Lists text functions ∧
      python.scan path text =
        (publicNames classes).map (fun name =>
          { file := path
            language := .python
            container := path.stem ++ "." ++ name
            kind := .type }) ++
        (if publicNames functions = [] then []
        else
          [{ file := path
             language := .python
             container := path.stem
             kind := .module
             members := (publicNames functions).map fun name =>
               { name := name, kind := .function } }]) := by
  obtain ⟨h, hh, hclass⟩ := exists_class_header
  obtain ⟨h', hh', hfunction⟩ := exists_function_header
  obtain ⟨classes, hclasses, hnames⟩ := hclass.exists_lists text
  obtain ⟨functions, hfunctions, hnames'⟩ := hfunction.exists_lists text
  refine ⟨classes, functions, hclasses, hfunctions, ?_⟩
  have htypes : python.typeEntries path text = (publicNames classes).map (fun name =>
      { file := path
        language := .python
        container := path.stem ++ "." ++ name
        kind := .type }) := by
    unfold Module.typeEntries publicNames
    rw [hh, List.flatMap_singleton, ← hnames, List.map_map]
    rfl
  have hmembers : python.members text = (publicNames functions).map fun name =>
      { name := name, kind := .function } := by
    unfold Module.members publicNames
    rw [hh', List.flatMap_singleton, hnames', Header.names, List.filter_map, List.map_map,
      List.map_map]
    refine List.map_congr_left fun hit hhit => ?_
    rw [hfunction.note_eq (List.mem_filter.mp hhit).1]
    rfl
  rw [Module.scan, htypes, hmembers, Module.moduleEntry, List.isEmpty_map]
  simp only [List.isEmpty_iff]
  rfl

/-- A line that starts inside a declaration starts no other. -/
example :
    python.scan (.ofString "a.py") "class\nclass:\nasync\ndef f(".toList =
      [{ file := .ofString "a.py", language := .python, container := "a.class", kind := .type },
        { file := .ofString "a.py", language := .python, container := "a", kind := .module,
          members := [{ name := "f", kind := .function }] }] := by
  decide

end ApiAtlas.Scan
