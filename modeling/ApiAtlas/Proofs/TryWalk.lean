import ApiAtlas.Proofs.Components
import ApiAtlas.Proofs.FileTree.Writing
import ApiAtlas.Proofs.Survey

/-!
Walks that ask for leave. Rules cannot be asked about a path that, with their root taken off, still
starts at the top. A walk takes its start off every path, part by part, before it asks, so it never
comes upon such a path, and one that would end there goes on to its end.
-/
namespace ApiAtlas

namespace Node

mutual

def tryVisits {ε : Type} (ask : Path → Bool → Except ε Bool) (start path : Path) :
    Node → Except ε (List Visit)
  | .dir children =>
    if path.bytes.length < FileTree.maxPath then tryVisitsOf ask start path children else .ok []
  | .file _ => .ok []
  | .link _ => .ok []

def tryVisitsOf {ε : Type} (ask : Path → Bool → Except ε Bool) (start path : Path) :
    List (Bytes × Node) → Except ε (List Visit)
  | [] => .ok []
  | (name, node) :: rest => do
    let dropped ← ask ((path.join ⟨name⟩).relativeTo start) node.isDir
    let met ←
      if dropped then .ok []
      else (node.tryVisits ask start (path.join ⟨name⟩)).map (⟨path.join ⟨name⟩, node.kind⟩ :: ·)
    let later ← tryVisitsOf ask start path rest
    return met ++ later

end

theorem visits_emptyDir (drop : Drop) (path within : Path) :
    (dir []).visits drop path within = [] := by
  unfold visits
  split <;> rfl

section

variable {ε : Type} {ask : Path → Bool → Except ε Bool} {drop : Drop}

theorem tryVisits_emptyDir (start path : Path) : (dir []).tryVisits ask start path = .ok [] := by
  unfold tryVisits
  split <;> rfl

mutual

theorem tryVisits_eq_ok (hask : ∀ p : Path, p.IsPlain → ∀ isDir, ask p isDir = .ok (drop p isDir))
    (root path within : Path)
    (hpath : ∀ name, Path.IsName name → path.join ⟨name⟩ = root.join (within.below name))
    (hwithin : within.bytes = [] ∨ within.IsPlain) (node : Node) (hnode : node.WellNamed) :
    node.tryVisits ask root path = .ok (node.visits drop path within) := by
  cases node with
  | file content => rfl
  | link target => rfl
  | dir children =>
    unfold tryVisits visits
    split
    · exact tryVisitsOf_eq_ok hask root path within hpath hwithin children hnode
    · rfl

theorem tryVisitsOf_eq_ok (hask : ∀ p : Path, p.IsPlain → ∀ isDir, ask p isDir = .ok (drop p isDir))
    (root path within : Path)
    (hpath : ∀ name, Path.IsName name → path.join ⟨name⟩ = root.join (within.below name))
    (hwithin : within.bytes = [] ∨ within.IsPlain) (children : List (Bytes × Node))
    (hchildren : AllWellNamed children) :
    tryVisitsOf ask root path children = .ok (visitsOf drop path within children) := by
  match children with
  | [] => rfl
  | (name, node) :: rest =>
    obtain ⟨hname, hnode, hrest⟩ := hchildren
    have hplain : (within.below name).IsPlain := Path.isPlain_below hwithin hname
    have hrelative : (path.join ⟨name⟩).relativeTo root = within.below name := by
      rw [hpath name hname, Path.relativeTo_join hplain]
    have hbelow := tryVisits_eq_ok hask root (path.join ⟨name⟩) (within.below name)
      (fun name' hname' => by rw [hpath name hname, Path.join_below hplain hname'])
      (.inr hplain) node hnode
    have hlater := tryVisitsOf_eq_ok hask root path within hpath hwithin rest hrest
    unfold tryVisitsOf visitsOf
    rw [hrelative, hask _ hplain, hbelow, hlater]
    simp only [bind, Except.bind]
    split <;> rfl

end

end

end Node

namespace FileTree

/-- A walk that ends where it gets no answer. -/
def tryWalk {ε : Type} (t : FileTree) (ask : Path → Bool → Except ε Bool) (start : Path) :
    Except ε (List Visit) :=
  if start.isDash then .ok []
  else
    match t.linkStat start with
    | .error _ => .ok []
    | .ok (.link _) =>
      match t.stat start with
      | .ok (.dir children) =>
        ((Node.dir children).tryVisits ask start start).map (⟨start, .link⟩ :: ·)
      | .ok (.file _) => .ok [⟨start, .file⟩]
      | _ => .ok []
    | .ok node => (node.tryVisits ask start start).map (⟨start, node.kind⟩ :: ·)

def tryManifest (t : FileTree) (root : Path) (excludes : List String) :
    Except Exclude.Outside Manifest :=
  (t.tryWalk (Noise.ofExcludes root excludes).ignores root).map .ofVisits

def tryDocuments (t : FileTree) (root : Path) : Except Exclude.Outside (List Document) :=
  (t.tryWalk (Noise.ofMarkers root [".git"] []).ignores root).map fun visits =>
    (visits.filter Visit.isMarkdown).map fun v => ⟨v.path, .ofPath v.path⟩

/-- What every walk from a start meets of the start itself, and the directory it enters there; one
that is not there has no children. -/
structure WalkFrame (t : FileTree) (start : Path) (own : List Visit)
    (children : List (Bytes × Node)) : Prop where
  path : ∀ v ∈ own, v.path = start
  entered : children = [] ∨ t.stat start = .ok (.dir children)
  whole : start.isDash = false → ∀ others, t.stat start = .ok (.dir others) → children = others
  walk : ∀ drop, t.walk drop start = own ++ (Node.dir children).visits drop start ⟨[]⟩
  tryWalk : ∀ {ε : Type} (ask : Path → Bool → Except ε Bool),
    t.tryWalk ask start = ((Node.dir children).tryVisits ask start start).map (own ++ ·)

theorem walkFrame_of_nil {t : FileTree} {start : Path} {own : List Visit}
    (hpath : ∀ v ∈ own, v.path = start)
    (hother : start.isDash = false → ∀ others, t.stat start ≠ .ok (.dir others))
    (hwalk : ∀ drop, t.walk drop start = own)
    (htry : ∀ {ε : Type} (ask : Path → Bool → Except ε Bool), t.tryWalk ask start = .ok own) :
    t.WalkFrame start own [] where
  path := hpath
  entered := .inl rfl
  whole hdash others hdir := absurd hdir (hother hdash others)
  walk drop := by rw [hwalk, Node.visits_emptyDir, List.append_nil]
  tryWalk ask := by rw [htry, Node.tryVisits_emptyDir, Except.map, List.append_nil]

theorem exists_walkFrame (t : FileTree) (start : Path) :
    ∃ own children, t.WalkFrame start own children := by
  cases hdash : start.isDash with
  | true =>
    exact ⟨[], [], walkFrame_of_nil (by simp) (by simp [hdash]) (by simp [walk, hdash])
      (by simp [tryWalk, hdash])⟩
  | false =>
    cases hlink : t.linkStat start with
    | error e =>
      refine ⟨[], [], walkFrame_of_nil (by simp) ?_ (by simp [walk, hdash, hlink])
        (by simp [tryWalk, hdash, hlink])⟩
      intro _ others hdir
      obtain ⟨found, hfound⟩ := linkStat_of_stat hdir
      rw [hlink] at hfound
      cases hfound
    | ok node =>
      cases node with
      | file content =>
        have hfile := stat_of_linkStat hlink (by simp)
        exact ⟨[⟨start, .file⟩], [], walkFrame_of_nil (by simp) (by simp [hfile])
          (by simp [walk, hdash, hlink, Node.visits, Node.kind])
          (by simp [tryWalk, hdash, hlink, Node.tryVisits, Node.kind, Except.map])⟩
      | dir children =>
        have hdir := stat_of_linkStat hlink (by simp)
        exact ⟨[⟨start, .dir⟩], children, by simp, .inr hdir, by simp [hdir],
          by simp [walk, hdash, hlink, Node.kind], by simp [tryWalk, hdash, hlink, Node.kind]⟩
      | link target =>
        cases hstat : t.stat start with
        | error e =>
          exact ⟨[], [], walkFrame_of_nil (by simp) (by simp [hstat])
            (by simp [walk, hdash, hlink, hstat]) (by simp [tryWalk, hdash, hlink, hstat])⟩
        | ok found =>
          cases found with
          | file content =>
            exact ⟨[⟨start, .file⟩], [], walkFrame_of_nil (by simp) (by simp [hstat])
              (by simp [walk, hdash, hlink, hstat]) (by simp [tryWalk, hdash, hlink, hstat])⟩
          | dir children =>
            exact ⟨[⟨start, .link⟩], children, by simp, .inr hstat, by simp [hstat],
              by simp [walk, hdash, hlink, hstat], by simp [tryWalk, hdash, hlink, hstat]⟩
          | link other =>
            exact ⟨[], [], walkFrame_of_nil (by simp) (by simp [hstat])
              (by simp [walk, hdash, hlink, hstat]) (by simp [tryWalk, hdash, hlink, hstat])⟩

theorem WalkFrame.wellFormed {t : FileTree} (hwell : t.top.WellFormed) {start : Path}
    {own : List Visit} {children : List (Bytes × Node)} (h : t.WalkFrame start own children) :
    (Node.dir children).WellFormed := by
  rcases h.entered with rfl | hdir
  · exact Node.wellFormed_emptyDir
  · obtain ⟨location, hlook⟩ := stat_eq_ok_iff.mp hdir
    exact hwell.get? (get?_of_resolve hlook)

theorem tryWalk_eq_ok {t : FileTree} (hwell : t.top.WellFormed) {ε : Type}
    {ask : Path → Bool → Except ε Bool} {drop : Drop}
    (hask : ∀ p : Path, p.IsPlain → ∀ isDir, ask p isDir = .ok (drop p isDir)) (start : Path) :
    t.tryWalk ask start = .ok (t.walk drop start) := by
  obtain ⟨own, children, hframe⟩ := t.exists_walkFrame start
  have hvisits := Node.tryVisits_eq_ok hask start start ⟨[]⟩ (fun name _ => rfl) (.inl rfl)
    (.dir children) (hframe.wellFormed hwell).named
  rw [hframe.tryWalk, hframe.walk, hvisits]
  rfl

/-- However a root is spelled, its rules can be asked about everything below it: what a walk hands
to them are the names on the way, which do not start at the top when the root is taken off them once
more. So no listing of sources or documents ends before the walk does. -/
theorem rules_answer_walk (t : FileTree) (hwell : t.top.WellFormed) (root : Path)
    (markers excludes : List String) :
    (∀ children location node, t.stat root = .ok (.dir children) → location ≠ [] →
      (Node.dir children).get? location = some node →
      (root.along location).relativeTo root = .ofNames location ∧
      ((Noise.ofMarkers root markers excludes).exclude.relative
        ((root.along location).relativeTo root)).isAbsolute = false ∧
      ∃ ignored, (Noise.ofMarkers root markers excludes).ignores
        ((root.along location).relativeTo root) node.isDir = .ok ignored) ∧
    t.tryWalk (Noise.ofMarkers root markers excludes).ignores root =
      .ok (t.walk (Noise.ofMarkers root markers excludes).drop root) ∧
    t.tryManifest root excludes = .ok (t.manifest root excludes) ∧
    t.tryDocuments root = .ok (t.documents root) := by
  have hanswers (markers excludes : List String) :
      t.tryWalk (Noise.ofMarkers root markers excludes).ignores root =
        .ok (t.walk (Noise.ofMarkers root markers excludes).drop root) :=
    tryWalk_eq_ok hwell (fun p hp isDir => Noise.ignores_eq hp root markers excludes isDir) root
  refine ⟨?_, hanswers markers excludes, ?_, ?_⟩
  · intro children location node hdir hne hnode
    obtain ⟨place, hlook⟩ := stat_eq_ok_iff.mp hdir
    have hnames := Node.isName_of_get? (hwell.get? (get?_of_resolve hlook)) hnode
    have hplain := Path.isPlain_ofNames hnames hne
    have hrelative : (root.along location).relativeTo root = .ofNames location := by
      rw [Path.along_eq_join hnames root hne, Path.relativeTo_join hplain]
    rw [hrelative]
    exact ⟨rfl, Exclude.isAbsolute_seen hplain root,
      _, Noise.ignores_eq hplain root markers excludes node.isDir⟩
  · unfold tryManifest Noise.ofExcludes
    rw [hanswers]
    rfl
  · unfold tryDocuments
    rw [hanswers]
    rfl

theorem wellFormed_shelved : shelved.top.WellFormed where
  named := ⟨by constructor <;> decide, wellFormed_shelf.named, trivial⟩
  ordered := ⟨by simp, wellFormed_shelf.ordered, trivial⟩

theorem rules_answer_walk_detour :
    ((Path.ofString ".//Docs/../Docs/").along
      [Bytes.ofString "a", Bytes.ofString "b.py"]).relativeTo
        (.ofString ".//Docs/../Docs/") = .ofString "a/b.py" ∧
      shelved.tryManifest (.ofString ".//Docs/../Docs/") ["/a-*", "Docs/"] =
        .ok (shelved.manifest (.ofString ".//Docs/../Docs/") ["/a-*", "Docs/"]) := by
  have hdir : shelved.stat (.ofString ".//Docs/../Docs/") = .ok (.dir shelf) := by cbv
  obtain ⟨hbelow, -, hmanifest, -⟩ := rules_answer_walk shelved wellFormed_shelved
    (.ofString ".//Docs/../Docs/") [] ["/a-*", "Docs/"]
  exact ⟨(hbelow shelf _ _ hdir (by simp) rfl).1, hmanifest⟩

end FileTree

end ApiAtlas
