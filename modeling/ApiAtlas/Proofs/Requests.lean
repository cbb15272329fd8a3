import ApiAtlas.Proofs.Documents
import ApiAtlas.Proofs.FileTree.Writing
import ApiAtlas.Proofs.Service
import ApiAtlas.Proofs.TryWalk
import ApiAtlas.Proofs.Wire

/-!
Which requests are aborted. Settings and parameters hold text, so every page that is rendered has a
path that is text; what is left are the names of files. They fail a manifest or a report that they
stand in, but a listing of documents is aborted by the first of them.
-/
namespace ApiAtlas

open Json (Codec Fields Record)

namespace FileTree

variable {t : FileTree} {root : Path}

def isMarkdownName (name : Bytes) : Bool :=
  ".md".toList.isSuffixOf (Text.lower (Utf8.decodeLossy name))

/-- Somewhere below `root` is a Markdown file that has nothing of version control about it, in a
directory that can be opened, and on the way to it a name that is no text. -/
def HasStrayDocument (t : FileTree) (root : Path) : Prop :=
  root.isDash = false ∧ ∃ children front name content,
    t.stat root = .ok (.dir children) ∧
      (Node.dir children).get? (front ++ [name]) = some (.file content) ∧
      (Noise.ofMarkers root [".git"] []).Spares (front ++ [name]) (.file content) ∧
      root.Opens (front ++ [name]) ∧ isMarkdownName name = true ∧
      ∃ part ∈ front ++ [name], Utf8.decode part = none

theorem isMarkdown_along {name : Bytes} (h : Path.IsName name) (root : Path) (front : Location)
    (kind : FileKind) :
    (⟨root.along (front ++ [name]), kind⟩ : Visit).isMarkdown = true ↔
      kind = .file ∧ isMarkdownName name = true := by
  unfold Visit.isMarkdown isMarkdownName
  rw [Path.fileName?_along h]
  simp

theorem mem_documents_iff {d : Document} :
    d ∈ t.documents root ↔ d.kind = .ofPath d.path ∧
      ∃ kind, ⟨d.path, kind⟩ ∈ t.walk (Noise.ofMarkers root [".git"] []).drop root ∧
        (⟨d.path, kind⟩ : Visit).isMarkdown = true := by
  unfold documents
  constructor
  · intro hd
    obtain ⟨v, hv, rfl⟩ := List.mem_map.mp hd
    exact ⟨rfl, v.kind, List.mem_filter.mp hv⟩
  · rintro ⟨hkind, kind, hv⟩
    refine List.mem_map.mpr ⟨⟨d.path, kind⟩, List.mem_filter.mpr hv, ?_⟩
    rw [← hkind]

theorem exists_document_iff (hwell : t.top.WellFormed) (htext : root.toText?.isSome) :
    (∃ d ∈ t.documents root, d.path.toText? = none) ↔ t.HasStrayDocument root := by
  cases hdash : root.isDash with
  | true => simp [documents_of_isDash hdash, HasStrayDocument, hdash]
  | false =>
    obtain ⟨own, children, hframe⟩ := t.exists_walkFrame root
    have hbelow := hframe.wellFormed hwell
    have hpath {front : Location} {name : Bytes} {node : Node}
        (hnode : (Node.dir children).get? (front ++ [name]) = some node) :
        (root.along (front ++ [name])).toText? = none ↔
          ∃ part ∈ front ++ [name], Utf8.decode part = none := by
      have halong := Path.isSome_toText?_along root (Node.isName_of_get? hbelow hnode)
      rw [← Option.not_isSome_iff_eq_none, halong]
      simp [htext]
    constructor
    · rintro ⟨d, hd, hnone⟩
      obtain ⟨-, kind, hmem, hmarkdown⟩ := mem_documents_iff.mp hd
      rw [hframe.walk] at hmem
      rcases List.mem_append.mp hmem with hown | hmem
      · have hself : d.path = root := hframe.path _ hown
        rw [hself] at hnone
        rw [hnone] at htext
        cases htext
      · obtain ⟨front, name, node, hnode, hspares, hopens, heq⟩ :=
          (Node.mem_visits_iff hbelow root root [".git"] []).mp hmem
        have hname := Node.isName_of_get? hbelow hnode name (by simp)
        rw [heq, isMarkdown_along hname] at hmarkdown
        rw [(Visit.mk.inj heq).1, hpath hnode] at hnone
        have hdir : t.stat root = .ok (.dir children) := by
          refine hframe.entered.resolve_left ?_
          rintro rfl
          cases front <;> cases hnode
        cases node with
        | file content =>
          exact ⟨hdash, children, front, name, content, hdir, hnode, hspares, hopens, hmarkdown.2,
            hnone⟩
        | dir inner => cases hmarkdown.1
        | link target => cases hmarkdown.1
    · rintro ⟨-, others, front, name, content, hothers, hfile, hspares, hopens, hmarkdown, hnone⟩
      obtain rfl := hframe.whole hdash others hothers
      have hname := Node.isName_of_get? hbelow hfile name (by simp)
      refine ⟨⟨root.along (front ++ [name]), .ofPath (root.along (front ++ [name]))⟩,
        mem_documents_iff.mpr ⟨rfl, .file, ?_, ?_⟩, (hpath hfile).mpr hnone⟩
      · rw [hframe.walk, List.mem_append, Node.mem_visits_iff hbelow]
        exact .inr ⟨front, name, .file content, hfile, hspares, hopens, rfl⟩
      · exact (isMarkdown_along hname root front .file).mpr ⟨rfl, hmarkdown⟩

end FileTree

section

open Json.Codec (rewrites_of_ok rewrites_path writesText_path)

theorem Member.rewrites : Member.codec.Rewrites := by
  have hstring : Codec.string.Rewrites := rewrites_of_ok fun _ => rfl
  have hkind : MemberKind.codec.Rewrites := rewrites_of_ok fun _ => rfl
  apply Record.rewrites_codec
  · exact .required hstring (.default hkind ⟨_, rfl⟩ (.default hstring ⟨_, rfl⟩
      (.default hstring.list ⟨_, rfl⟩ (.default hstring ⟨_, rfl⟩
        (.default hstring ⟨_, rfl⟩ Fields.rewrite_nil)))))
  · exact fun _ => rfl

theorem Entry.rewrites : Entry.codec.Rewrites := by
  have hstring : Codec.string.Rewrites := rewrites_of_ok fun _ => rfl
  have hkind : ContainerKind.codec.Rewrites := rewrites_of_ok fun _ => rfl
  have hlanguage : Language.codec.Rewrites := rewrites_of_ok fun _ => rfl
  apply Record.rewrites_codec
  · exact .default rewrites_path ⟨_, rfl⟩ (.default hlanguage ⟨_, rfl⟩
      (.default hstring ⟨_, rfl⟩ (.default hkind ⟨_, rfl⟩ (.default hstring ⟨_, rfl⟩
        (.default Member.rewrites.list ⟨_, rfl⟩ Fields.rewrite_nil)))))
  · exact fun _ => rfl

theorem RootParams.writesText : RootParams.codec.WritesText fun p => p.root?.toList := by
  apply Record.writesText_codec
  · exact .cons writesText_path.option Fields.writesText_nil
  · intro p
    simp

theorem RootParams.rewrites : RootParams.codec.Rewrites := by
  apply Record.rewrites_codec
  · exact .optional rewrites_path Fields.rewrite_nil
  · exact fun _ => rfl

theorem RenderParams.writesText : RenderParams.codec.WritesText fun p =>
    p.root?.toList ++ ((p.entries?.getD []).map (·.file) ++ p.docsRoot?.toList) := by
  apply Record.writesText_codec
  · exact .cons writesText_path.option (.cons Entry.writesText.list_map.option
      (.cons writesText_path.option Fields.writesText_nil))
  · rintro ⟨root?, entries?, docsRoot?⟩
    cases entries? <;> simp

theorem RenderParams.rewrites : RenderParams.codec.Rewrites := by
  apply Record.rewrites_codec
  · exact .optional rewrites_path (.optional Entry.rewrites.list
      (.optional rewrites_path Fields.rewrite_nil))
  · exact fun _ => rfl

end

theorem decodeParams_text {α : Type} {codec : Codec α} {paths : α → List Path}
    (hwrites : codec.WritesText paths) (hrewrites : codec.Rewrites) {default p : α}
    (hdefault : ∃ w, codec.toJson default = .ok w) {params : Option Json}
    (h : decodeParams codec default params = .ok p) : ∀ q ∈ paths p, q.toText?.isSome := by
  rw [← hwrites p]
  unfold decodeParams at h
  split at h
  · cases h
    exact hdefault
  · cases h
    exact hdefault
  · split at h
    · rename_i hvalue
      cases h
      unfold Json.Codec.ofValue at hvalue
      split at hvalue
      · rename_i hread
        cases hvalue
        exact hrewrites hread
      · cases hvalue
    · cases h

namespace Outcome

theorem ofExcept_ne_aborted (result : Except Error Json) : ofExcept result ≠ .aborted := by
  cases result <;> simp [ofExcept]

theorem ofList_eq_aborted_iff {α : Type} {codec : Codec α} {path : α → Path}
    (h : codec.WritesText fun a => [path a]) (name : String) (items : List α) :
    ofList name codec items = .aborted ↔ ∃ item ∈ items, (path item).toText? = none := by
  have hlist := h.list_map items
  unfold ofList
  cases hv : (Codec.list codec).toJson items with
  | ok v =>
    rw [hv] at hlist
    have hall := hlist.mp ⟨v, rfl⟩
    simp only [reduceCtorEq, false_iff, not_exists, not_and]
    intro item hitem hnone
    have htext := hall (path item) (List.mem_map_of_mem hitem)
    rw [hnone] at htext
    cases htext
  | error e =>
    rw [hv] at hlist
    simp only [true_iff]
    by_contra hnone
    obtain ⟨v, hv⟩ := hlist.mpr (by
      intro p hp
      obtain ⟨item, hitem, rfl⟩ := List.mem_map.mp hp
      rw [Option.isSome_iff_ne_none]
      exact fun h => hnone ⟨item, hitem, h⟩)
    cases hv

end Outcome

namespace Settings

variable {s : Settings}

def IsText (s : Settings) : Prop :=
  ∀ p ∈ s.root?.toList ++ s.docsRoot?.toList ++ s.template?.toList, p.toText?.isSome

theorem IsText.root (h : s.IsText) : s.root.toText?.isSome := by
  unfold Settings.root
  cases hroot : s.root? with
  | none => exact Path.isSome_toText?_ofString "."
  | some root => exact h root (by simp [hroot])

theorem IsText.rootOr (h : s.IsText) {root? : Option Path}
    (hroot : ∀ root ∈ root?, root.toText?.isSome) : (s.rootOr root?).toText?.isSome := by
  cases root? with
  | none => exact h.root
  | some root => exact hroot root rfl

end Settings

theorem Path.isSome_toText?_apiDocs {root : Path} (h : root.toText?.isSome) :
    root.apiDocs.toText?.isSome := by
  unfold apiDocs
  rw [isSome_toText?_join rfl, isSome_toText?_join rfl]
  exact ⟨⟨h, isSome_toText?_ofString _⟩, isSome_toText?_ofString _⟩

namespace Settings

variable {s : Settings}

theorem IsText.pageDir (h : s.IsText) {p : RenderParams}
    (hp : ∀ q ∈ p.root?.toList ++ ((p.entries?.getD []).map (·.file) ++ p.docsRoot?.toList),
      q.toText?.isSome) : (s.pageDir p).toText?.isSome := by
  unfold Settings.pageDir
  split
  · rename_i dir hdir
    exact hp dir (by simp [hdir])
  · rename_i root hnone hroot
    exact Path.isSome_toText?_apiDocs (hp root (by simp [hroot]))
  · unfold Settings.docsRoot
    cases hdocs : s.docsRoot? with
    | none => exact Path.isSome_toText?_apiDocs h.root
    | some dir => exact h dir (by simp [hdocs])

theorem text_of_render {t later : FileTree} {p : RenderParams} {paths : List Path}
    (hdir : (s.pageDir p).toText?.isSome) (h : s.render t p = (later, .ok paths)) :
    ∀ q ∈ paths, q.toText?.isSome := by
  unfold render at h
  split at h
  · cases h
  · rename_i writer hwriter
    obtain ⟨rfl, -⟩ := PageWriter.writeBy_eq_ok h
    intro q hq
    obtain ⟨page, hpage, rfl⟩ := List.mem_map.mp hq
    obtain ⟨file, hfile, rfl⟩ := List.mem_map.mp hpage
    have hname := PageWriter.isName_of_mem_filesBy hfile
    rw [PageWriter.map_fst_filesBy] at hpage
    obtain ⟨name, -, heq⟩ := List.mem_map.mp hpage
    rw [Path.isSome_toText?_join hname.not_isAbsolute, ← heq]
    exact ⟨hdir, Path.isSome_toText?_ofString (name ++ ".md")⟩

theorem handle_aborted_iff (hs : s.IsText) {t : FileTree} (hwell : t.top.WellFormed) (tool : Tool)
    (params : Option Json) :
    (s.handle t tool params).2 = .aborted ↔ tool = .scanDocs ∧
      ∃ p, decodeParams RootParams.codec {} params = .ok p ∧
        t.HasStrayDocument (s.rootOr p.root?) := by
  cases tool with
  | buildManifest => simp [handle, Outcome.ofExcept_ne_aborted]
  | extractApi => simp [handle, Outcome.ofExcept_ne_aborted]
  | scanDocs =>
    unfold handle
    cases hparams : decodeParams RootParams.codec {} params with
    | error e => simp
    | ok p =>
      have hroot := decodeParams_text RootParams.writesText RootParams.rewrites ⟨_, rfl⟩ hparams
      have hroot : (s.rootOr p.root?).toText?.isSome :=
        hs.rootOr fun root hroot' => hroot root (Option.mem_toList.mpr hroot')
      simp only [Outcome.ofList_eq_aborted_iff Document.writesText, true_and]
      rw [FileTree.exists_document_iff hwell hroot]
      simp
  | renderApiDocs =>
    unfold handle
    cases hparams : decodeParams RenderParams.codec {} params with
    | error e => simp
    | ok p =>
      have hp := decodeParams_text RenderParams.writesText RenderParams.rewrites ⟨_, rfl⟩ hparams
      cases hrender : s.render t p with
      | mk later result =>
        cases result with
        | error e => simp [hrender]
        | ok paths =>
          have htext := text_of_render (hs.pageDir hp) hrender
          simp only [hrender, reduceCtorEq, false_and, iff_false]
          rw [Outcome.ofList_eq_aborted_iff Json.Codec.writesText_path]
          rintro ⟨q, hq, hnone⟩
          have hq := htext q hq
          rw [hnone] at hq
          cases hq

end Settings

theorem encodeAnswer_record {α : Type} {r : Record α} {a : α} {v : Json}
    (h : encodeAnswer r.codec a = .ok v) : ∃ fields, v = .obj fields := by
  unfold encodeAnswer at h
  split at h
  · rename_i w hw
    obtain ⟨fields, -, hw⟩ := Json.bind_eq_ok_iff.mp hw
    cases hw
    cases h
    exact ⟨_, by rw [Json.sorted]⟩
  · cases h

namespace Outcome

theorem response_ofExcept {result : Except Error Json} (notice : String)
    (h : ∀ v, result = .ok v → ∃ fields, v = .obj fields) :
    ∃ fields, (ofExcept result).response notice = .obj fields := by
  cases result with
  | error e => exact ⟨_, rfl⟩
  | ok v => exact h v rfl

theorem response_ofList {α : Type} (name : String) (codec : Codec α) (items : List α)
    (notice : String) : ∃ fields, (ofList name codec items).response notice = .obj fields := by
  unfold ofList
  split <;> exact ⟨_, rfl⟩

end Outcome

namespace Settings

variable {s : Settings}

theorem exists_response_handle (s : Settings) (t : FileTree) (tool : Tool) (params : Option Json)
    (notice : String) : ∃ fields, (s.handle t tool params).2.response notice = .obj fields := by
  cases tool with
  | buildManifest =>
    refine Outcome.response_ofExcept notice fun v hv => ?_
    obtain ⟨p, -, hv⟩ := Json.bind_eq_ok_iff.mp hv
    exact encodeAnswer_record hv
  | extractApi =>
    refine Outcome.response_ofExcept notice fun v hv => ?_
    obtain ⟨p, -, hv⟩ := Json.bind_eq_ok_iff.mp hv
    exact encodeAnswer_record hv
  | scanDocs =>
    simp only [handle]
    split
    · exact ⟨_, rfl⟩
    · exact Outcome.response_ofList _ _ _ _
  | renderApiDocs =>
    simp only [handle]
    split
    · exact ⟨_, rfl⟩
    · split
      · exact ⟨_, rfl⟩
      · exact Outcome.response_ofList _ _ _ _

/-- A request is aborted exactly if it lists the documents below a root where there is one whose
path is no text. Every other request ends in an answer or an error, and its line is answered with an
object; to the exclude patterns no path below a root is foreign. -/
theorem aborts_iff_stray_document (hs : s.IsText) {t : FileTree} (hwell : t.top.WellFormed) :
    (∀ tool params, (s.handle t tool params).2 = .aborted ↔ tool = .scanDocs ∧
      ∃ p, decodeParams RootParams.codec {} params = .ok p ∧
        t.HasStrayDocument (s.rootOr p.root?)) ∧
    (∀ line, (s.handleLine t line).2 = .aborted ↔
      ∃ request, Request.codec.ofText (String.ofList line) = .ok request ∧
        Tool.ofName request.tool = .ok .scanDocs ∧
        ∃ p, decodeParams RootParams.codec {} request.params = .ok p ∧
          t.HasStrayDocument (s.rootOr p.root?)) ∧
    (∀ line, (s.handleLine t line).2 ≠ .aborted →
      ∀ notice, ∃ fields, (s.handleLine t line).2.response notice = .obj fields) ∧
    ∀ root markers location isDir, location ≠ [] → (∀ name ∈ location, Path.IsName name) →
      ∃ ignored, (Noise.ofMarkers root markers s.exclude).ignores (.ofNames location) isDir =
        .ok ignored := by
  refine ⟨handle_aborted_iff hs hwell, ?_, ?_, ?_⟩
  · intro line
    unfold handleLine
    cases Request.codec.ofText (String.ofList line) with
    | error e => simp
    | ok request =>
      cases htool : Tool.ofName request.tool with
      | error e => simp [htool]
      | ok tool =>
        simp only [htool, handle_aborted_iff hs hwell]
        simp [htool]
  · intro line _ notice
    unfold handleLine
    split
    · exact ⟨_, rfl⟩
    · split
      · exact ⟨_, rfl⟩
      · exact s.exists_response_handle t _ _ notice
  · intro root markers location isDir hne hnames
    exact ⟨_, Noise.ignores_eq (Path.isPlain_ofNames hnames hne) root markers s.exclude isDir⟩

theorem isText_default : IsText {} := List.forall_mem_nil _

end Settings

namespace FileTree

def strayName : Bytes := 0xFF :: Bytes.ofString ".md"

def strayed : FileTree where
  top := .dir [(strayName, .file [])]
  workingDir := []

theorem wellFormed_strayed : strayed.top.WellFormed := by
  refine ⟨⟨?_, trivial, trivial⟩, ?_, trivial, trivial⟩
  · constructor <;> decide
  · simp

theorem isMarkdownName_strayName : isMarkdownName strayName = true := by
  have htext : Utf8.decodeLossy strayName = ['\ufffd'] ++ ".md".toList := by decide
  unfold isMarkdownName
  rw [htext, Text.lower_append]
  exact List.isSuffixOf_iff_suffix.mpr (List.suffix_append _ _)

theorem hasStrayDocument_strayed : strayed.HasStrayDocument (.ofString ".") := by
  have hmarked : (Noise.ofMarkers (.ofString ".") [".git"] []).isMarked (.ofNames [strayName]) =
      false := by
    rw [← Bool.not_eq_true, Noise.isMarked_git_iff]
    decide
  refine ⟨by decide, [(strayName, .file [])], [], strayName, [], by cbv, by cbv, ⟨?_, ?_⟩,
    by decide, isMarkdownName_strayName, strayName, by simp, by decide⟩
  · intro _
    rw [Noise.ignores_nil]
    exact congrArg _ hmarked
  · intro front name rest hlocation hfront
    cases front with
    | nil => exact absurd rfl hfront
    | cons first front => simp at hlocation

end FileTree

theorem Settings.aborts_iff_stray_document_strayed :
    FileTree.strayed.HasStrayDocument (.ofString ".") ∧
      ∀ tool ≠ .scanDocs, ∀ params,
        (({} : Settings).handle .strayed tool params).2 ≠ .aborted := by
  refine ⟨FileTree.hasStrayDocument_strayed, ?_⟩
  intro tool htool params haborted
  exact htool (((aborts_iff_stray_document isText_default FileTree.wellFormed_strayed).1
    tool params).mp haborted).1

theorem Settings.aborted_strayed :
    (({} : Settings).handle .strayed .scanDocs none).2 = .aborted :=
  (handle_aborted_iff isText_default FileTree.wellFormed_strayed .scanDocs none).mpr
    ⟨rfl, {}, rfl, FileTree.hasStrayDocument_strayed⟩

end ApiAtlas
