import ApiAtlas.Proofs.FileTree.Confined
import ApiAtlas.Proofs.Requests

/-!
What a run of requests leaves behind. Where no link lies on the way to a page, a request makes the
directory it wants its pages in and those above it, as far as they are missing, and writes pages
into that directory; everything else looks as it did. A request that is turned down changes nothing.
-/
namespace ApiAtlas

open FileTree (ConfinedTo)

namespace PageWriter

variable {w : PageWriter} {origins : Origins} {t : FileTree} {entries : List Entry} {dir : Path}

theorem confinedTo_writeBy {dirs files : Location → Prop} (hfree : t.LinkFree dir)
    (hpages : ∀ name ∈ w.collision.names origins.text entries,
      t.LinkFree (dir.join ⟨pageName name⟩))
    (hdirs : ∀ q ∈ dir.ancestors, dirs (t.locationOf q))
    (hfiles : ∀ name ∈ w.collision.names origins.text entries,
      files (t.locationOf dir ++ [pageName name])) :
    ConfinedTo dirs files t (w.writeBy origins t entries dir).1 := by
  have hmade : ConfinedTo dirs files t (t.makeDirs dir).1 :=
    FileTree.confinedTo_makeDirs hfree hdirs
  have hname (file : Bytes × Bytes) (hfile : file ∈ w.filesBy origins entries) :
      ∃ name ∈ w.collision.names origins.text entries, pageName name = file.1 := by
    have hfst : file.1 ∈ (w.filesBy origins entries).map Prod.fst := List.mem_map_of_mem hfile
    rw [map_fst_filesBy] at hfst
    exact List.mem_map.mp hfst
  have hwritten : ConfinedTo dirs files (t.makeDirs dir).1
      ((t.makeDirs dir).1.writePages (w.pagesBy origins entries dir)).1 := by
    rw [pagesBy_eq]
    apply FileTree.confinedTo_writePages
    · exact fun file => isName_of_mem_filesBy
    · intro file hfile
      obtain ⟨name, hmem, hpage⟩ := hname file hfile
      exact hpage ▸ (hpages name hmem).keep hmade.keeps
    · intro file hfile
      obtain ⟨name, hmem, hpage⟩ := hname file hfile
      rw [FileTree.locationOf_keep hmade.keeps, ← hpage]
      exact hfiles name hmem
  unfold writeBy
  split
  · rename_i made e hmake
    rw [hmake] at hmade
    exact hmade
  · rename_i made hmake
    rw [hmake] at hmade hwritten
    simp only
    split
    · rename_i later e hwrite
      rw [hwrite] at hwritten
      exact hmade.trans hwritten
    · rename_i later hwrite
      rw [hwrite] at hwritten
      exact hmade.trans hwritten

theorem error_of_writeBy {e : Error} (h : (w.writeBy origins t entries dir).2 = .error e) :
    ∃ cause, e = .io cause := by
  unfold writeBy at h
  split at h
  · exact ⟨_, (Except.error.inj h).symm⟩
  · simp only at h
    split at h
    · exact ⟨_, (Except.error.inj h).symm⟩
    · cases h

end PageWriter

def Request.renderParams? (line : List Char) : Option RenderParams :=
  match Request.codec.ofText (String.ofList line) with
  | .error _ => none
  | .ok request =>
    match Tool.ofName request.tool with
    | .ok .renderApiDocs => (decodeParams RenderParams.codec {} request.params).toOption
    | _ => none

def Request.renders (lines : List (List Char)) : List RenderParams :=
  lines.filterMap Request.renderParams?

def Bytes.requests : List Bytes → List (List Char)
  | [] => []
  | line :: rest =>
    match line.lineText? with
    | none => []
    | some text =>
      if text.all Text.isBlank then Bytes.requests rest
      else Text.trim text :: Bytes.requests rest

/-- Errors that turn a request down before there is anything to write. -/
def Error.isRejection : Error → Bool
  | .invalidRequest _ => true
  | .unknownTool _ => true
  | .json _ => true
  | .templateMissing _ => true
  | .templateLacks _ => true
  | _ => false

namespace Settings

def pageNames (s : Settings) (p : RenderParams) : List String :=
  (s.collision?.getD .disambiguate).names Origins.standard.text (p.entries?.getD [])

def outputs (s : Settings) (p : RenderParams) : List Path :=
  s.pageDir p :: (s.pageNames p).map fun name => (s.pageDir p).join ⟨pageName name⟩

/-- The files after lines were handled in turn. -/
def treeAfter (s : Settings) (t : FileTree) (lines : List (List Char)) : FileTree :=
  lines.foldl (fun t line => (s.handleLine t line).1) t

variable {s : Settings} {t later : FileTree} {dirs files : Location → Prop}

structure Within (s : Settings) (t : FileTree) (dirs files : Location → Prop) (p : RenderParams) :
    Prop where
  linkFree : ∀ out ∈ s.outputs p, t.LinkFree out
  dirs : ∀ q ∈ (s.pageDir p).ancestors, dirs (t.locationOf q)
  files : ∀ name ∈ s.pageNames p, files (t.locationOf (s.pageDir p) ++ [pageName name])

theorem Within.keep {p : RenderParams} (h : s.Within t dirs files p) (hkeep : t.Keeps later) :
    s.Within later dirs files p where
  linkFree out hout := (h.linkFree out hout).keep hkeep
  dirs q hq := by
    rw [FileTree.locationOf_keep hkeep]
    exact h.dirs q hq
  files name hname := by
    rw [FileTree.locationOf_keep hkeep]
    exact h.files name hname

theorem confinedTo_render {p : RenderParams} (h : s.Within t dirs files p) :
    ConfinedTo dirs files t (s.render t p).1 := by
  have hfree := h.linkFree
  unfold outputs at hfree
  rw [List.forall_mem_cons, List.forall_mem_map] at hfree
  unfold render
  split
  · exact .refl t
  · rename_i writer hwriter
    have hcollision : writer.collision = s.collision?.getD .disambiguate := by
      unfold pageWriter at hwriter
      simp only at hwriter
      split at hwriter
      · obtain ⟨template, -, hwriter⟩ := Json.bind_eq_ok_iff.mp hwriter
        cases hwriter
        rfl
      · obtain ⟨template, -, hwriter⟩ := Json.bind_eq_ok_iff.mp hwriter
        cases hwriter
        rfl
    apply PageWriter.confinedTo_writeBy hfree.1
    · rw [hcollision]
      exact hfree.2
    · exact h.dirs
    · rw [hcollision]
      exact h.files

theorem tree_handle_of_ne (s : Settings) (t : FileTree) {tool : Tool} (h : tool ≠ .renderApiDocs)
    (params : Option Json) : (s.handle t tool params).1 = t := by
  cases tool with
  | buildManifest => rfl
  | scanDocs =>
    unfold handle
    simp only
    split <;> rfl
  | extractApi => rfl
  | renderApiDocs => exact absurd rfl h

theorem tree_handleLine (s : Settings) (t : FileTree) (line : List Char) :
    (s.handleLine t line).1 =
      match Request.renderParams? line with
      | some p => (s.render t p).1
      | none => t := by
  unfold handleLine Request.renderParams?
  cases Request.codec.ofText (String.ofList line) with
  | error e => rfl
  | ok request =>
    simp only
    cases Tool.ofName request.tool with
    | error e => rfl
    | ok tool =>
      cases tool with
      | buildManifest | scanDocs | extractApi =>
        exact s.tree_handle_of_ne t (by decide) request.params
      | renderApiDocs =>
        unfold handle
        simp only
        cases decodeParams RenderParams.codec {} request.params with
        | error e => rfl
        | ok p =>
          simp only [Except.toOption]
          split
          · rename_i later e hrender
            rw [hrender]
          · rename_i later paths hrender
            rw [hrender]

theorem tree_render_of_rejection {p : RenderParams} {e : Error}
    (h : (s.render t p).2 = .error e) (he : e.isRejection = true) : (s.render t p).1 = t := by
  unfold render at h ⊢
  split at h
  · rfl
  · obtain ⟨cause, rfl⟩ := PageWriter.error_of_writeBy h
    cases he

theorem tree_handle_of_rejection {tool : Tool} {params : Option Json} {e : Error}
    (h : (s.handle t tool params).2 = .failed e) (he : e.isRejection = true) :
    (s.handle t tool params).1 = t := by
  by_cases htool : tool = .renderApiDocs
  · subst htool
    unfold handle at h ⊢
    simp only at h ⊢
    split at h
    · rfl
    · rename_i p hparams
      split at h
      · rename_i later cause hrender
        cases h
        have hsame : (s.render t p).1 = t := by
          apply tree_render_of_rejection _ he
          rw [hrender]
        rw [hrender] at hsame
        exact hsame
      · unfold Outcome.ofList at h
        split at h <;> cases h
  · exact s.tree_handle_of_ne t htool params

theorem tree_handleLine_of_rejection {line : List Char} {e : Error}
    (h : (s.handleLine t line).2 = .failed e) (he : e.isRejection = true) :
    (s.handleLine t line).1 = t := by
  unfold handleLine at h ⊢
  cases hrequest : Request.codec.ofText (String.ofList line) with
  | error cause => rfl
  | ok request =>
    simp only [hrequest] at h ⊢
    cases htool : Tool.ofName request.tool with
    | error cause => rfl
    | ok tool =>
      simp only [htool] at h ⊢
      exact tree_handle_of_rejection h he

theorem confinedTo_handleLine {line : List Char}
    (h : ∀ p ∈ Request.renderParams? line, s.Within t dirs files p) :
    ConfinedTo dirs files t (s.handleLine t line).1 := by
  rw [tree_handleLine]
  split
  · rename_i p hp
    exact confinedTo_render (h p hp)
  · exact .refl t

/-- Lines handled in turn stay within the bounds that each of them keeps to. -/
theorem confinedTo_treeAfter {lines : List (List Char)}
    (h : ∀ p ∈ Request.renders lines, s.Within t dirs files p) :
    ConfinedTo dirs files t (s.treeAfter t lines) := by
  induction lines generalizing t with
  | nil => exact .refl t
  | cons line lines ih =>
    have hfirst : ConfinedTo dirs files t (s.handleLine t line).1 := by
      apply confinedTo_handleLine
      intro p hp
      exact h p (List.mem_filterMap.mpr ⟨line, List.mem_cons_self, hp⟩)
    -- The links are the same after the first line, and paths lead to the same locations.
    refine hfirst.trans (ih ?_)
    intro p hp
    obtain ⟨other, hother, hp⟩ := List.mem_filterMap.mp hp
    have hmem : p ∈ Request.renders (line :: lines) :=
      List.mem_filterMap.mpr ⟨other, List.mem_cons_of_mem line hother, hp⟩
    exact (h p hmem).keep hfirst.keeps

theorem tree_serveLines (s : Settings) (t : FileTree) (lines : List Bytes) (notices : Notices) :
    (s.serveLines t lines notices).tree = s.treeAfter t (Bytes.requests lines) := by
  induction lines generalizing t notices with
  | nil => rfl
  | cons line lines ih =>
    rw [Bytes.requests]
    cases htext : line.lineText? with
    | none =>
      obtain ⟨offset, run, -, hstop⟩ := s.serveLines_fault t line lines notices htext
      rw [hstop]
      rfl
    | some text =>
      simp only
      split
      · rename_i hblank
        have hblank : line.isBlankLine := by
          unfold Bytes.isBlankLine
          rw [htext]
          exact hblank
        rw [serveLines_blank _ _ _ _ _ hblank, ih]
      · rename_i hblank
        have hblank : line.isBlankLine = false := by
          unfold Bytes.isBlankLine
          rw [htext]
          exact Bool.eq_false_iff.mpr hblank
        rw [serveLines_text _ _ _ _ _ text htext hblank]
        exact ih _ _

/-- Where lines may have a directory made: where one of them wants its pages, and above. -/
def MayMake (s : Settings) (t : FileTree) (lines : List (List Char)) (location : Location) : Prop :=
  ∃ p ∈ Request.renders lines, ∃ q ∈ (s.pageDir p).ancestors, location = t.locationOf q

/-- Where lines may have a file written: where one of them wants its pages, and only pages. -/
def MayWrite (s : Settings) (t : FileTree) (lines : List (List Char)) (location : Location) :
    Prop :=
  ∃ p ∈ Request.renders lines, ∃ name, '/' ∉ name.toList ∧
    location = t.locationOf (s.pageDir p) ++ [pageName name]

/-- Requests write where they are told to. Of all locations, only directories for pages and those
above them are made, and only pages in such directories are written, also by the requests on a
stream. A request that is turned down, and one for anything but pages, leaves every file as it
was. -/
theorem treeAfter_footprint (s : Settings) (t : FileTree) (lines : List (List Char))
    (hfree : ∀ p ∈ Request.renders lines, ∀ out ∈ s.outputs p, t.LinkFree out) :
    ConfinedTo (s.MayMake t lines) (s.MayWrite t lines) t (s.treeAfter t lines) ∧
    (∀ now input notices,
      (s.serve now input notices).tree = s.treeAfter now (Bytes.requests input.lines)) ∧
    (∀ now line e, (s.handleLine now line).2 = .failed e → e.isRejection = true →
      (s.handleLine now line).1 = now) ∧
    ∀ now tool params, tool ≠ .renderApiDocs → (s.handle now tool params).1 = now := by
  refine ⟨confinedTo_treeAfter ?_, ?_, ?_, ?_⟩
  · intro p hp
    exact
      { linkFree := hfree p hp
        dirs := fun q hq => ⟨p, hp, q, hq, rfl⟩
        files := fun name hname => ⟨p, hp, name, Collision.noSlash_names hname, rfl⟩ }
  · exact fun now input => s.tree_serveLines now input.lines
  · exact fun now line e h he => tree_handleLine_of_rejection h he
  · exact fun now tool params htool => s.tree_handle_of_ne now htool params

def climbingLine : List Char :=
  ("\x7b\"tool\":\"render_api_docs\",\"params\":\x7b\"docs_root\":\"out/api\"," ++
    "\"api_model\":[\x7b\"container\":\"../up\"\x7d]\x7d\x7d").toList

def climbingParams : RenderParams where
  entries? := some [{ container := "../up" }]
  docsRoot? := some (.ofString "out/api")

theorem treeAfter_footprint_climbing :
    Request.renders [climbingLine] = [climbingParams] ∧
    ({} : Settings).outputs climbingParams =
      [.ofString "out/api", .ofString "out/api/.._up.md"] ∧
    ConfinedTo (({} : Settings).MayMake .empty [climbingLine])
      (({} : Settings).MayWrite .empty [climbingLine]) .empty
      (({} : Settings).treeAfter .empty [climbingLine]) := by
  have hfree (p : RenderParams) (_ : p ∈ Request.renders [climbingLine]) (out : Path)
      (_ : out ∈ ({} : Settings).outputs p) : FileTree.empty.LinkFree out :=
    fun front _ target => PageWriter.link_notMem_empty _ target
  exact ⟨by cbv, by cbv, (treeAfter_footprint {} .empty [climbingLine] hfree).1⟩

end Settings

end ApiAtlas
