import ApiAtlas.Proofs.Pruning
import ApiAtlas.Proofs.Requests

/-!
What a listing of documents lists. A file is looked at by itself, with its name and the names on the
way to it; that the walk does not even enter some directories cannot be told from the listing.
-/
namespace ApiAtlas

/-- Whether a document stands at a location: a regular file with a name that ends as those of
Markdown files do, and with no marker of version control in the path to it. -/
structure Node.HasDocument (node : Node) (location : Location) : Prop where
  file : ∃ content, node.get? location = some (.file content)
  unmarked : ¬ ".git".toList <:+: Text.slashed (Utf8.decodeLossy (Path.ofNames location).bytes)
  name : ∃ front name, location = front ++ [name] ∧
    ".md".toList <:+ Text.lower (Utf8.decodeLossy name)

namespace FileTree

theorem hasDocument_iff {children : List (Bytes × Node)} (hwell : (Node.dir children).WellFormed)
    (root : Path) {location : Location} {node : Node} (hne : location ≠ [])
    (hnode : (Node.dir children).get? location = some node) :
    (Node.dir children).HasDocument location ↔
      (Noise.ofMarkers root [".git"] []).Spares location node ∧
        (⟨root.along location, node.kind⟩ : Visit).isMarkdown = true := by
  have hnames := Node.isName_of_get? hwell hnode
  obtain ⟨front, name, rfl⟩ := location.eq_nil_or_concat.resolve_left hne
  rw [List.concat_eq_append] at hnode hnames ⊢
  have hmarkdown := isMarkdown_along (hnames name (by simp)) root front node.kind
  have hunmarked :
      (Noise.ofMarkers root [".git"] []).isMarked (.ofNames (front ++ [name])) = false ↔
        ¬ ".git".toList <:+:
          Text.slashed (Utf8.decodeLossy (Path.ofNames (front ++ [name])).bytes) := by
    rw [← Text.occurs_iff, Bool.not_eq_true]
    simp [Noise.isMarked, Noise.ofMarkers]
  have hname : isMarkdownName name = true ↔ ".md".toList <:+ Text.lower (Utf8.decodeLossy name) :=
    List.isSuffixOf_iff_suffix
  rw [Noise.spares_nil_iff root [".git"] (by simp) hnames, hunmarked, hmarkdown, hname]
  constructor
  · rintro ⟨⟨content, hfile⟩, hunmarked, front', name', hsplit, hends⟩
    obtain ⟨-, hlast⟩ := List.append_inj' hsplit rfl
    cases hlast
    cases hnode.symm.trans hfile
    exact ⟨hunmarked, rfl, hends⟩
  · rintro ⟨hunmarked, hkind, hends⟩
    cases node with
    | file content => exact ⟨⟨content, hnode⟩, hunmarked, front, name, rfl, hends⟩
    | dir inner => cases hkind
    | link target => cases hkind

open Classical in
/-- The documents of a directory are the Markdown files in the directories below it that can be
opened, apart from those with the marker of version control in their path, each once and in the
order of the names on the way. One is about an API if its path as a whole leads through `api`. -/
theorem documents_eq_unmarked_files (t : FileTree) (root : Path) (children : List (Bytes × Node))
    (hdash : root.isDash = false) (hdir : t.linkStat root = .ok (.dir children))
    (hwell : (Node.dir children).WellFormed) :
    ∃ locations : List Location,
      Enumerates (fun location => (Node.dir children).HasDocument location ∧ root.Opens location)
        locations ∧
      t.documents root = locations.map fun location =>
        ⟨root.along location,
          if "/api/".toList <:+:
              Text.lower (Text.slashed (Utf8.decodeLossy (root.along location).bytes)) then .api
          else .generic⟩ := by
  have hlists := Node.enumerates_spots (.dir children) hwell.ordered fun location _ =>
    (Node.dir children).HasDocument location ∧ root.Opens location
  refine ⟨_, ⟨fun location => ?_, hlists.sorted⟩, ?_⟩
  · rw [hlists.mem_iff]
    constructor
    · rintro ⟨-, node, -, hholds⟩
      exact hholds
    · rintro ⟨hdocument, hopens⟩
      obtain ⟨content, hfile⟩ := hdocument.file
      obtain ⟨front, name, hsplit, -⟩ := hdocument.name
      exact ⟨by simp [hsplit], _, hfile, hdocument, hopens⟩
  · have hroot : (⟨root, .dir⟩ : Visit).isMarkdown = false := rfl
    unfold documents
    rw [walk_eq_spots hdash hdir hwell root [".git"] [], List.filter_cons_of_neg (by simp [hroot]),
      List.filter_map, List.filter_filter, List.map_map, List.map_map]
    have hkept : (Node.dir children).spots.filter (fun spot =>
          (Visit.isMarkdown ∘ fun spot : Location × Node =>
            ⟨root.along spot.1, spot.2.kind⟩) spot &&
            decide ((Noise.ofMarkers root [".git"] []).Spares spot.1 spot.2 ∧ root.Opens spot.1)) =
        (Node.dir children).spots.filter fun spot =>
          (Node.dir children).HasDocument spot.1 ∧ root.Opens spot.1 := by
      apply List.filter_congr
      intro spot hspot
      obtain ⟨hne, hnode⟩ := (Node.mem_spots_iff _ hwell.ordered spot.1 spot.2).mp hspot
      simp only [hasDocument_iff hwell root hne hnode, Function.comp_apply, Bool.decide_and,
        Bool.decide_eq_true]
      ac_rfl
    rw [hkept]
    apply List.map_congr_left
    intro spot _
    simp only [Function.comp_apply, DocumentKind.ofPath, Text.occurs_iff]

def archive : List (Bytes × Node) :=
  [(Bytes.ofString ".git", .dir [(Bytes.ofString "a.md", .file [])]),
    (Bytes.ofString "api", .dir [(Bytes.ofString "b.MD", .file [])]),
    (Bytes.ofString "c.md", .link ⟨[]⟩)]

def archived : FileTree where
  top := .dir [(Bytes.ofString "r", .dir archive)]
  workingDir := []

theorem wellFormed_archive : (Node.dir archive).WellFormed := by
  refine ⟨⟨?_, ⟨?_, trivial, trivial⟩, ?_, ⟨?_, trivial, trivial⟩, ?_, trivial, trivial⟩,
    ?_, ⟨?_, trivial, trivial⟩, ?_, ⟨?_, trivial, trivial⟩, ?_, trivial, trivial⟩
  iterate 5 · constructor <;> decide
  iterate 5 decide

theorem documents_eq_unmarked_files_archived :
    ∃ locations : List Location,
      [Bytes.ofString "api", Bytes.ofString "b.MD"] ∈ locations ∧
      [Bytes.ofString ".git", Bytes.ofString "a.md"] ∉ locations ∧
      [Bytes.ofString "c.md"] ∉ locations ∧ locations.Pairwise (· < ·) ∧
      ⟨.ofString "r/api/b.MD", .api⟩ ∈ archived.documents (.ofString "r") := by
  obtain ⟨locations, hlocations, hdocuments⟩ := documents_eq_unmarked_files archived (.ofString "r")
    archive (by decide) (by cbv) wellFormed_archive
  have hmem : [Bytes.ofString "api", Bytes.ofString "b.MD"] ∈ locations :=
    (hlocations.mem_iff _).mpr
      ⟨⟨⟨[], rfl⟩, by decide, [Bytes.ofString "api"], _, rfl, by decide⟩, by decide⟩
  refine ⟨locations, hmem, ?_, ?_, hlocations.sorted, ?_⟩
  · rw [hlocations.mem_iff]
    rintro ⟨hdocument, -⟩
    exact hdocument.unmarked (by decide)
  · rw [hlocations.mem_iff]
    rintro ⟨hdocument, -⟩
    obtain ⟨content, hfile⟩ := hdocument.file
    cases hfile
  · rw [hdocuments, List.mem_map]
    exact ⟨_, hmem, by rw [if_pos (by decide)]; decide⟩

/-- Whether a document stands at a location below `root`, and none is listed. -/
structure HidesDocument (t : FileTree) (root : Path) (location : Location) : Prop where
  spelled : root.bytes ≠ [] ∧ root.bytes ≠ Bytes.ofString "-"
  holds : ∃ children, t.linkStat root = .ok (.dir children) ∧ (Node.dir children).WellFormed ∧
    (Node.dir children).HasDocument location
  unlisted : t.documents root = []

theorem hidesDocument_dotted {house name : Bytes} (hhouse : Path.IsName house)
    (hname : Path.IsName name) {n : Nat} (hlong : maxPath ≤ 2 * (n + 1) + house.length)
    (hshort : 2 * (n + 1) < maxPath) (content : Bytes)
    (hdocument : (housed house name content).top.HasDocument [house, name]) :
    (housed house name content).HidesDocument (.dotted (n + 1)) [house, name] := by
  classical
  have hwell := wellFormed_housed hhouse hname content
  have hstat := linkStat_dotted_housed hhouse hname hshort content
  refine ⟨Path.spelled_dotted_succ n, ⟨_, hstat, hwell, hdocument⟩, ?_⟩
  rw [List.eq_nil_iff_forall_not_mem]
  intro d hd
  obtain ⟨-, kind, hmem, hmarkdown⟩ := mem_documents_iff.mp hd
  rw [walk_eq_spots (Path.isDash_dotted_succ n) hstat hwell, List.mem_cons] at hmem
  rcases hmem with hroot | hmem
  · cases (Visit.mk.inj hroot).2
    cases hmarkdown
  · obtain ⟨⟨location, node⟩, hspot, hvisit⟩ := List.mem_map.mp hmem
    obtain ⟨hspot, hspared⟩ := List.mem_filter.mp hspot
    obtain ⟨hne, hnode⟩ := (Node.mem_spots_iff _ hwell.ordered _ _).mp hspot
    cases (Visit.mk.inj hvisit).2
    rcases get?_housed hhouse hname content hne hnode with h | h
    · cases h
      cases hmarkdown
    · cases h
      rw [decide_eq_true_eq] at hspared
      exact not_opens_dotted hhouse hlong _ hspared.2

/-- A document in a directory that is called as standard input is spelled, and one in a directory
with a path that is too long. -/
theorem hidesDocument_dash_and_deep :
    (housed (Bytes.ofString "-") (Bytes.ofString "a.md") []).HidesDocument (.ofString "-/")
      [Bytes.ofString "a.md"] ∧
    (housed (Bytes.ofString "lib") (Bytes.ofString "a.md") []).HidesDocument (.dotted 2047)
      [Bytes.ofString "lib", Bytes.ofString "a.md"] := by
  have hname : Path.IsName (Bytes.ofString "a.md") := by constructor <;> decide
  constructor
  · have hdash : Path.IsName (Bytes.ofString "-") := by constructor <;> decide
    have hchild : (housed (Bytes.ofString "-") (Bytes.ofString "a.md") []).top.get?
        [Bytes.ofString "-"] = some (.dir [(Bytes.ofString "a.md", .file [])]) := by cbv
    have hwell := (wellFormed_housed hdash hname []).get? hchild
    exact ⟨by decide, ⟨_, by cbv, hwell, ⟨_, rfl⟩, by decide, [], _, rfl, by decide⟩,
      documents_of_isDash (by decide : (Path.ofString "-/").isDash = true) _⟩
  · have hlib : Path.IsName (Bytes.ofString "lib") := by constructor <;> decide
    exact hidesDocument_dotted hlib hname (by decide) (by decide) []
      ⟨⟨_, rfl⟩, by decide, [_], _, rfl, by decide⟩

end FileTree

end ApiAtlas
