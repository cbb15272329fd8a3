import ApiAtlas.Proofs.Utf8
import ApiAtlas.Service
import Mathlib.Data.List.TakeWhile

/-!
The request loop. As long as the lines are text, each that is not blank has one answer and none stops
the loop, however malformed the request. A line that is no text does stop it.
-/
namespace ApiAtlas

theorem Text.trimRight_eq_nil_iff (s : List Char) : trimRight s = [] ↔ ∀ c ∈ s, isBlank c := by
  simp [trimRight]

theorem Text.trim_eq_nil_iff (s : List Char) : trim s = [] ↔ ∀ c ∈ s, isBlank c := by
  unfold trim trimLeft
  rw [trimRight_eq_nil_iff]
  constructor
  · intro h c hc
    rw [← List.takeWhile_append_dropWhile (p := isBlank) (l := s)] at hc
    rcases List.mem_append.mp hc with hfront | hrest
    · exact List.mem_takeWhile_imp hfront
    · exact h c hrest
  · intro h c hc
    exact h c ((List.dropWhile_sublist isBlank).mem hc)

namespace Bytes

def lineText? (line : Bytes) : Option (List Char) := Utf8.decode line.withoutBreak

def isBlankLine (line : Bytes) : Bool :=
  match line.lineText? with
  | some text => text.all Text.isBlank
  | none => false

end Bytes

theorem exists_error_of_not_isOk {ε α : Type} {x : Except ε α} (h : x.isOk = false) :
    ∃ e, x = .error e := by
  cases x with
  | error e => exact ⟨e, rfl⟩
  | ok a => simp [Except.isOk, Except.toBool] at h

def Tool.takes (tool : Tool) (params : Option Json) : Bool :=
  match tool with
  | .buildManifest => (decodeParams RootParams.codec {} params).isOk
  | .scanDocs => (decodeParams RootParams.codec {} params).isOk
  | .extractApi => (decodeParams ExtractParams.codec {} params).isOk
  | .renderApiDocs => (decodeParams RenderParams.codec {} params).isOk

def Request.isWellFormed (text : List Char) : Bool :=
  match Request.codec.ofText (String.ofList text) with
  | .error _ => false
  | .ok request =>
    match Tool.ofName request.tool with
    | .error _ => false
    | .ok tool => tool.takes request.params

/-- A line that is no text, or whose text is no request. -/
def Bytes.isMalformed (line : Bytes) : Bool :=
  match line.lineText? with
  | some text => !Request.isWellFormed (Text.trim text)
  | none => true

namespace Settings

theorem handle_of_not_takes (s : Settings) (t : FileTree) (tool : Tool) (params : Option Json)
    (h : tool.takes params = false) : ∃ e, s.handle t tool params = (t, .failed e) := by
  cases tool with
  | buildManifest =>
    obtain ⟨e, he⟩ := exists_error_of_not_isOk h
    exact ⟨e, by simp [handle, he, Outcome.ofExcept, bind, Except.bind]⟩
  | scanDocs =>
    obtain ⟨e, he⟩ := exists_error_of_not_isOk h
    exact ⟨e, by simp [handle, he]⟩
  | extractApi =>
    obtain ⟨e, he⟩ := exists_error_of_not_isOk h
    exact ⟨e, by simp [handle, he, Outcome.ofExcept, bind, Except.bind]⟩
  | renderApiDocs =>
    obtain ⟨e, he⟩ := exists_error_of_not_isOk h
    exact ⟨e, by simp [handle, he]⟩

theorem handleLine_of_malformed (s : Settings) (t : FileTree) (text : List Char)
    (h : Request.isWellFormed text = false) : ∃ e, s.handleLine t text = (t, .failed e) := by
  unfold Request.isWellFormed at h
  unfold handleLine
  cases hrequest : Request.codec.ofText (String.ofList text) with
  | error e => exact ⟨.invalidRequest e, rfl⟩
  | ok request =>
    cases htool : Tool.ofName request.tool with
    | error e => exact ⟨e, by simp [htool]⟩
    | ok tool =>
      simp only [hrequest, htool] at h
      simp only [htool]
      exact s.handle_of_not_takes t tool request.params h

theorem serveLines_blank (s : Settings) (t : FileTree) (line : Bytes) (rest : List Bytes)
    (notices : Notices) (h : line.isBlankLine) :
    s.serveLines t (line :: rest) notices = s.serveLines t rest notices := by
  unfold Bytes.isBlankLine Bytes.lineText? at h
  cases htext : Utf8.decode line.withoutBreak with
  | none => simp [htext] at h
  | some text =>
    have hfault : Utf8.fault line.withoutBreak = none := by
      rw [Utf8.fault_eq_none_iff, htext]
      rfl
    have htrim : Text.trim text = [] := by
      rw [Text.trim_eq_nil_iff]
      simpa [htext] using h
    simp only [serveLines, hfault, Utf8.decodeLossy_of_decode _ text htext, htrim]

theorem serveLines_text (s : Settings) (t : FileTree) (line : Bytes) (rest : List Bytes)
    (notices : Notices) (text : List Char) (htext : line.lineText? = some text)
    (hblank : line.isBlankLine = false) :
    s.serveLines t (line :: rest) notices =
      { s.serveLines (s.handleLine t (Text.trim text)).1 rest (notices.after 1) with
        responses := (s.handleLine t (Text.trim text)).2.response (notices 0) ::
          (s.serveLines (s.handleLine t (Text.trim text)).1 rest (notices.after 1)).responses } := by
  have hdecode : Utf8.decode line.withoutBreak = some text := htext
  have hfault : Utf8.fault line.withoutBreak = none := by
    rw [Utf8.fault_eq_none_iff, hdecode]
    rfl
  have htrim : Text.trim text ≠ [] := by
    intro hnil
    rw [Text.trim_eq_nil_iff] at hnil
    simp only [Bytes.isBlankLine, htext, List.all_eq_false] at hblank
    obtain ⟨c, hc, hnot⟩ := hblank
    exact hnot (hnil c hc)
  simp only [serveLines, hfault, Utf8.decodeLossy_of_decode _ text hdecode]

theorem serveLines_fault (s : Settings) (t : FileTree) (line : Bytes) (rest : List Bytes)
    (notices : Notices) (h : line.lineText? = none) :
    ∃ offset run, Utf8.fault line.withoutBreak = some (offset, run) ∧
      s.serveLines t (line :: rest) notices = ⟨t, [], some (.line offset run)⟩ := by
  have hdecode : Utf8.decode line.withoutBreak = none := h
  cases hfault : Utf8.fault line.withoutBreak with
  | none => simp [Utf8.fault_eq_none_iff, hdecode] at hfault
  | some found =>
    obtain ⟨offset, run⟩ := found
    refine ⟨offset, run, rfl, ?_⟩
    simp only [serveLines, hfault]

/-- Lines that are text are served before the lines behind them, which find the files they left. -/
theorem serveLines_append (s : Settings) (t : FileTree) (before after : List Bytes)
    (notices : Notices) (h : ∀ line ∈ before, line.lineText?.isSome) :
    s.serveLines t (before ++ after) notices =
      { s.serveLines (s.serveLines t before notices).tree after
          (notices.after (s.serveLines t before notices).responses.length) with
        responses := (s.serveLines t before notices).responses ++
          (s.serveLines (s.serveLines t before notices).tree after
            (notices.after (s.serveLines t before notices).responses.length)).responses } := by
  induction before generalizing t notices with
  | nil => simp [serveLines]
  | cons line before ih =>
    have hbefore : ∀ line ∈ before, line.lineText?.isSome :=
      fun line' hline' => h line' (List.mem_cons_of_mem line hline')
    rw [List.cons_append]
    cases hblank : line.isBlankLine with
    | true =>
      rw [serveLines_blank _ _ _ _ _ hblank, serveLines_blank _ _ _ _ _ hblank, ih t _ hbefore]
    | false =>
      obtain ⟨text, htext⟩ := Option.isSome_iff_exists.mp (h line List.mem_cons_self)
      rw [serveLines_text _ _ _ _ _ text htext hblank, serveLines_text _ _ _ _ _ text htext hblank,
        ih _ _ hbefore, List.cons_append, List.length_cons, Notices.after_after, Nat.add_comm 1]

theorem serveLines_complete (s : Settings) (t : FileTree) (lines : List Bytes) (notices : Notices)
    (h : ∀ line ∈ lines, line.lineText?.isSome) :
    (s.serveLines t lines notices).error? = none ∧
      (s.serveLines t lines notices).responses.length = lines.countP (!·.isBlankLine) := by
  induction lines generalizing t notices with
  | nil => exact ⟨rfl, rfl⟩
  | cons line lines ih =>
    have hlines : ∀ line ∈ lines, line.lineText?.isSome :=
      fun line' hline' => h line' (List.mem_cons_of_mem line hline')
    cases hblank : line.isBlankLine with
    | true =>
      rw [serveLines_blank _ _ _ _ _ hblank, List.countP_cons_of_neg (by simp [hblank])]
      exact ih t notices hlines
    | false =>
      obtain ⟨text, htext⟩ := Option.isSome_iff_exists.mp (h line List.mem_cons_self)
      have hrest := ih (s.handleLine t (Text.trim text)).1 (notices.after 1) hlines
      rw [serveLines_text _ _ _ _ _ text htext hblank, List.countP_cons_of_pos (by simp [hblank])]
      exact ⟨hrest.1, by rw [List.length_cons, hrest.2]⟩

theorem getElem?_responses (s : Settings) (t : FileTree) {before : List Bytes} {line : Bytes}
    (after : List Bytes) (notices : Notices) {text : List Char}
    (hbefore : ∀ line ∈ before, line.lineText?.isSome) (htext : line.lineText? = some text)
    (hblank : line.isBlankLine = false) :
    (s.serveLines t (before ++ line :: after) notices).responses[
        before.countP (!·.isBlankLine)]? =
      some ((s.handleLine (s.serveLines t before notices).tree (Text.trim text)).2.response
        (notices (before.countP (!·.isBlankLine)))) := by
  rw [serveLines_append s t before _ notices hbefore,
    (s.serveLines_complete t before notices hbefore).2, serveLines_text _ _ _ _ _ text htext hblank]
  simp [(s.serveLines_complete t before notices hbefore).2, Notices.after]

/-- Every line that is not blank has its own answer, in the place of the line, and the stream is
served to its end. -/
structure AnswersEvery (s : Settings) (t : FileTree) (input : Bytes) (notices : Notices) :
    Prop where
  complete : (s.serve t input notices).error? = none
  count : (s.serve t input notices).responses.length = input.lines.countP (!·.isBlankLine)
  answered : ∀ before line after, input.lines = before ++ line :: after →
    line.isBlankLine = false →
    ∃ response,
      (s.serve t input notices).responses[before.countP (!·.isBlankLine)]? = some response ∧
      (∀ text, line.lineText? = some text →
        response =
          (s.handleLine (s.serveLines t before notices).tree (Text.trim text)).2.response
            (notices (before.countP (!·.isBlankLine)))) ∧
      (line.isMalformed → ∃ message, response = Outcome.errorObject message)

theorem answersEvery_of_text (s : Settings) (t : FileTree) (input : Bytes) (notices : Notices)
    (h : ∀ line ∈ input.lines, line.lineText?.isSome) : s.AnswersEvery t input notices where
  complete := (s.serveLines_complete t input.lines notices h).1
  count := (s.serveLines_complete t input.lines notices h).2
  answered before line after hlines hblank := by
    have hbefore : ∀ line' ∈ before, line'.lineText?.isSome := by
      intro line' hline'
      apply h
      rw [hlines]
      exact List.mem_append_left _ hline'
    have hline : line.lineText?.isSome := by
      apply h
      rw [hlines]
      exact List.mem_append_right _ List.mem_cons_self
    obtain ⟨text, htext⟩ := Option.isSome_iff_exists.mp hline
    have hanswer := s.getElem?_responses t after notices hbefore htext hblank
    rw [← hlines] at hanswer
    refine ⟨_, hanswer, ?_, ?_⟩
    · intro text' htext'
      rw [htext] at htext'
      rw [Option.some.inj htext']
    · intro hmalformed
      have hrequest : Request.isWellFormed (Text.trim text) = false := by
        simpa [Bytes.isMalformed, htext] using hmalformed
      obtain ⟨e, he⟩ := s.handleLine_of_malformed (s.serveLines t before notices).tree _ hrequest
      rw [he]
      exact ⟨e.message, rfl⟩

theorem serve_eq_of_fault (s : Settings) (t : FileTree) (input : Bytes) (notices : Notices)
    (before : List Bytes) (line : Bytes) (after : List Bytes)
    (hlines : input.lines = before ++ line :: after)
    (hbefore : ∀ line' ∈ before, line'.lineText?.isSome) (hline : line.lineText? = none) :
    ∃ offset run, Utf8.fault line.withoutBreak = some (offset, run) ∧
      s.serve t input notices =
        { s.serveLines t before notices with error? := some (.line offset run) } := by
  obtain ⟨offset, run, hfault, hstop⟩ :=
    s.serveLines_fault (s.serveLines t before notices).tree line after
      (notices.after (s.serveLines t before notices).responses.length) hline
  refine ⟨offset, run, hfault, ?_⟩
  unfold serve
  rw [hlines, serveLines_append s t before _ notices hbefore, hstop]
  simp

theorem exists_first_fault (lines : List Bytes) (h : ¬ ∀ line ∈ lines, line.lineText?.isSome) :
    ∃ before line after, lines = before ++ line :: after ∧
      (∀ line' ∈ before, line'.lineText?.isSome) ∧ line.lineText? = none := by
  induction lines with
  | nil => simp at h
  | cons line lines ih =>
    cases htext : line.lineText? with
    | none => exact ⟨[], line, lines, rfl, by simp, htext⟩
    | some text =>
      have hlines : ¬ ∀ line ∈ lines, line.lineText?.isSome := by
        intro hall
        apply h
        intro line' hline'
        rcases List.mem_cons.mp hline' with rfl | hline'
        · simp [htext]
        · exact hall line' hline'
      obtain ⟨before, line', after, hsplit, hbefore, hline'⟩ := ih hlines
      refine ⟨line :: before, line', after, by rw [hsplit, List.cons_append], ?_, hline'⟩
      intro line'' hline''
      rcases List.mem_cons.mp hline'' with rfl | hline''
      · simp [htext]
      · exact hbefore line'' hline''

/-- The loop survives exactly the streams that are text. In any other it answers the lines before the
first that is no text and ends there with an error. -/
theorem answersEvery_iff_text (s : Settings) (t : FileTree) (input : Bytes) (notices : Notices) :
    (s.AnswersEvery t input notices ↔ ∀ line ∈ input.lines, line.lineText?.isSome) ∧
    ∀ before line after, input.lines = before ++ line :: after →
      (∀ line' ∈ before, line'.lineText?.isSome) → line.lineText? = none →
      ∃ offset run, Utf8.fault line.withoutBreak = some (offset, run) ∧
        s.serve t input notices =
          { s.serveLines t before notices with error? := some (.line offset run) } := by
  refine ⟨⟨?_, s.answersEvery_of_text t input notices⟩, s.serve_eq_of_fault t input notices⟩
  intro hevery
  by_contra hfault
  obtain ⟨before, line, after, hlines, hbefore, hline⟩ := exists_first_fault input.lines hfault
  obtain ⟨offset, run, -, hserve⟩ :=
    s.serve_eq_of_fault t input notices before line after hlines hbefore hline
  have hend := hevery.complete
  rw [hserve] at hend
  simp at hend

/-- A stray byte on a line of its own, and a request behind it that is never answered. -/
theorem not_answersEvery_stray_byte :
    ¬ ({} : Settings).AnswersEvery .empty [0xFF, lineFeed, 0x7B, 0x7D, lineFeed]
      fun _ => "task panicked" := by
  intro hevery
  have hserve : (({} : Settings).serve .empty [0xFF, lineFeed, 0x7B, 0x7D, lineFeed]
      fun _ => "task panicked").error? =
      some (.line 0 (.broken 1)) := by rfl
  rw [hevery.complete] at hserve
  simp at hserve

end Settings

end ApiAtlas
