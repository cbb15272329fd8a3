import ApiAtlas.Proofs.FileTree

/-!
What a tree shows at each location: a file with its content, a directory, or a link. A file or an
empty directory that is put in place changes what is shown there and nothing else, and ways through
a tree depend on nothing but what it shows.
-/
namespace ApiAtlas

theorem Node.face_put_cons (new : Node) (name : Bytes) (rest : Location) (node : Node) :
    (new.put (name :: rest) node).face = node.face := by
  cases node with
  | file content => simp
  | link target => simp
  | dir children =>
    obtain ⟨others, hothers⟩ := exists_put_dir new name rest children
    rw [hothers]
    rfl

namespace FileTree

theorem takesFile_iff (t : FileTree) (location : Location) :
    t.TakesFile location ↔
      t.faceAt location = none ∨ ∃ content, t.faceAt location = some (.file content) := by
  simp only [TakesFile, faceAt_eq_none_iff, faceAt_eq_file_iff]

/-- Two well-formed trees with one working directory are the same if they show the same. -/
theorem eq_of_faceAt {t later : FileTree} (hwell : t.top.WellFormed) (hlater : later.top.WellFormed)
    (hdir : t.workingDir = later.workingDir)
    (h : ∀ location, t.faceAt location = later.faceAt location) : t = later := by
  obtain ⟨top, workingDir⟩ := t
  obtain ⟨top', workingDir'⟩ := later
  congr 1
  exact Node.eq_of_face top top' hwell.ordered hlater.ordered h

theorem faceAt_below {t : FileTree} {front : Location} (h : t.faceAt front ≠ some .dir)
    (name : Bytes) (back : Location) : t.faceAt (front ++ name :: back) = none := by
  rw [faceAt_eq_none_iff, Option.eq_none_iff_forall_ne_some]
  intro node hnode
  exact h ((t.faceAt_eq_dir_iff front).mpr (isDirAt_of_append hnode (List.cons_ne_nil name back)))

theorem faceAt_putAt {t : FileTree} {there : Location} {name : Bytes} (hdir : t.IsDirAt there)
    (htakes : t.TakesFile (there ++ [name])) {new : Node} (hnew : ∀ n, new.child? n = none)
    (location : Location) :
    (t.putAt (there ++ [name]) new).faceAt location =
      if location = there ++ [name] then some new.face else t.faceAt location := by
  obtain ⟨children, hchildren⟩ := hdir
  have hself : (t.putAt (there ++ [name]) new).top.get? (there ++ [name]) = some new :=
    Node.get?_put_self new hchildren name
  rcases Node.location_cases (there ++ [name]) location with
    ⟨back, rfl⟩ | ⟨next, rest, heq⟩ | ⟨front, x, y, as, bs, hne, heq, rfl⟩
  · cases back with
    | nil =>
      rw [List.append_nil, if_pos rfl]
      unfold faceAt
      rw [hself, Option.map_some]
    | cons next back =>
      have hlater : (t.putAt (there ++ [name]) new).faceAt (there ++ [name] ++ next :: back) =
          none := by
        rw [faceAt_eq_none_iff, Node.get?_append, hself, Option.bind_some, Node.get?, hnew,
          Option.bind_none]
      have hbefore : t.faceAt (there ++ [name]) ≠ some .dir := by
        rcases (t.takesFile_iff _).mp htakes with hnone | ⟨content, hfile⟩
        · simp [hnone]
        · simp [hfile]
      rw [if_neg (by simp), hlater, faceAt_below hbefore]
  · have hne : location ≠ there ++ [name] := by
      intro hlocation
      rw [hlocation] at heq
      simp at heq
    rw [if_neg hne]
    unfold faceAt putAt
    rw [heq, Node.get?_put_above, Option.map_map]
    congr 1
    funext node
    exact Node.face_put_cons new next rest node
  · have hne' : front ++ y :: bs ≠ there ++ [name] := by
      rw [heq]
      intro hsame
      exact hne (List.cons.inj (List.append_cancel_left hsame)).1.symm
    rw [if_neg hne']
    unfold faceAt putAt
    rw [heq, Node.get?_put_beside new front hne.symm]

theorem bind_node_eq_ok_iff {found : Except IoError Spot} {node : Node} :
    (found.bind fun spot =>
      match spot with
      | .node _ node => .ok node
      | .vacant _ _ => .error .notFound) = .ok node ↔
        ∃ location, found = .ok (.node location node) := by
  cases found with
  | error e => simp [Except.bind]
  | ok spot => cases spot <;> simp [Except.bind]

theorem stat_eq_ok_iff {t : FileTree} {p : Path} {node : Node} :
    t.stat p = .ok node ↔ ∃ location, t.resolve .look p = .ok (.node location node) :=
  bind_node_eq_ok_iff

theorem linkStat_eq_ok_iff {t : FileTree} {p : Path} {node : Node} :
    t.linkStat p = .ok node ↔ ∃ location, t.resolve .lookAtLink p = .ok (.node location node) :=
  bind_node_eq_ok_iff

theorem stat_of_linkStat {t : FileTree} {p : Path} {node : Node} (h : t.linkStat p = .ok node)
    (hnode : ∀ target, node ≠ .link target) : t.stat p = .ok node := by
  obtain ⟨location, hlocation⟩ := linkStat_eq_ok_iff.mp h
  obtain ⟨hcheck, hspot⟩ := resolve_eq_ok_iff.mp hlocation
  refine stat_eq_ok_iff.mpr ⟨location, resolve_eq_ok_iff.mpr ⟨hcheck, ?_⟩⟩
  rw [resolveFrom_eq_ok_iff] at hspot ⊢
  apply hspot.look
  rintro - there target heq
  cases heq
  exact hnode target rfl

theorem Reaches.exists_lookAtLink {t : FileTree} {links : Nat} {here : Location}
    {parts : List Bytes} {spot : Spot} (h : t.Reaches .look links here parts spot)
    (hspot : ∃ location node, spot = .node location node) :
    ∃ there found, t.Reaches .lookAtLink links here parts (.node there found) := by
  have hname {part : Bytes} {rest : List Bytes} (h : IsLookup .look part rest) :
      IsLookup .lookAtLink part rest := ⟨h.notVoid, h.notDots, by simp, h.short⟩
  induction h with
  | arrived hnode => exact ⟨_, _, .arrived hnode⟩
  | vacant =>
    obtain ⟨location, node, heq⟩ := hspot
    cases heq
  | link haim => cases haim
  | @moved _ _ _ _ part rest _ _ hmove _ ih =>
    obtain ⟨there, found, hfound⟩ := ih hspot
    cases hmove with
    | stay hdir hpart => exact ⟨there, found, .moved (.stay hdir hpart) hfound⟩
    | up hdir => exact ⟨there, found, .moved (.up hdir) hfound⟩
    | down hlookup hnode hlink =>
      exact ⟨there, found, .moved (.down (hname hlookup) hnode hlink) hfound⟩
    | follow hlookup hlink _ htarget =>
      by_cases hlast : rest = []
      · subst hlast
        exact ⟨_, _, .link rfl (hname hlookup) hlink⟩
      · exact ⟨there, found,
          .moved (.follow (hname hlookup) hlink (fun hend => hlast hend.1) htarget) hfound⟩

theorem linkStat_of_stat {t : FileTree} {root : Path} {node : Node} (h : t.stat root = .ok node) :
    ∃ found, t.linkStat root = .ok found := by
  obtain ⟨location, hlook⟩ := stat_eq_ok_iff.mp h
  obtain ⟨hcheck, hspot⟩ := resolve_eq_ok_iff.mp hlook
  obtain ⟨there, found, hfound⟩ :=
    (resolveFrom_eq_ok_iff.mp hspot).exists_lookAtLink ⟨location, node, rfl⟩
  exact ⟨found, linkStat_eq_ok_iff.mpr
    ⟨there, resolve_eq_ok_iff.mpr ⟨hcheck, resolveFrom_eq_ok_iff.mpr hfound⟩⟩⟩

/-- The way to a directory stays the same while directories and links do. -/
theorem resolveFrom_keep {t later : FileTree} (hkeep : t.Keeps later) {aim : Aim} {links : Nat}
    {here location : Location} {parts : List Bytes} {children : List (Bytes × Node)}
    (h : t.resolveFrom aim links here parts = .ok (.node location (.dir children))) :
    ∃ others, later.resolveFrom aim links here parts = .ok (.node location (.dir others)) := by
  simp only [resolveFrom_eq_ok_iff] at h ⊢
  generalize hspot : Spot.node location (.dir children) = spot at h
  induction h with
  | arrived hnode =>
    cases hspot
    obtain ⟨others, hothers⟩ := hkeep.dirs location ⟨children, hnode⟩
    exact ⟨others, .arrived hothers⟩
  | vacant => cases hspot
  | link => cases hspot
  | moved hmove _ ih =>
    obtain ⟨others, hothers⟩ := ih hspot
    exact ⟨others, .moved (hmove.keep hkeep hothers.faceAt_ne_none) hothers⟩

end FileTree

end ApiAtlas
