import ApiAtlas.Proofs.FileTree.Order
import ApiAtlas.Proofs.Views

/-!
Walks by location. A walk that drops nothing meets every location below its start once, in the order
of the names on the way; one that drops noise meets those of them that noise spares.
-/
namespace ApiAtlas

namespace Node

mutual

/-- Every location below a node, with what stands there, in the order of a walk. -/
def spots : Node → List (Location × Node)
  | .dir children => spotsOf children
  | .file _ => []
  | .link _ => []

def spotsOf : List (Bytes × Node) → List (Location × Node)
  | [] => []
  | (name, node) :: rest =>
    ([name], node) :: (node.spots.map fun spot => (name :: spot.1, spot.2)) ++ spotsOf rest

end

mutual

theorem tour_dropNothing (front : Location) (hfront : ∀ name ∈ front, Path.IsName name)
    (node : Node) (hnode : node.WellNamed) :
    node.tour dropNothing (.ofNames front) =
      node.spots.map fun spot => ⟨.ofNames (front ++ spot.1), spot.2.kind⟩ := by
  cases node with
  | file content => rfl
  | link target => rfl
  | dir children =>
    unfold tour spots
    exact tourOf_dropNothing front hfront children hnode

theorem tourOf_dropNothing (front : Location) (hfront : ∀ name ∈ front, Path.IsName name)
    (children : List (Bytes × Node)) (hchildren : AllWellNamed children) :
    tourOf dropNothing (.ofNames front) children =
      (spotsOf children).map fun spot => ⟨.ofNames (front ++ spot.1), spot.2.kind⟩ := by
  match children with
  | [] => rfl
  | (name, node) :: rest =>
    obtain ⟨hname, hnode, hrest⟩ := hchildren
    have hinner : ∀ n ∈ front ++ [name], Path.IsName n := by
      rw [List.forall_mem_append, List.forall_mem_singleton]
      exact ⟨hfront, hname⟩
    unfold tourOf spotsOf
    rw [dropNothing, if_neg Bool.false_ne_true, Path.below_ofNames hfront,
      tour_dropNothing _ hinner node hnode, tourOf_dropNothing front hfront rest hrest]
    simp [List.map_append, Function.comp_def]

end

mutual

theorem mem_spots_iff (node : Node) (hnode : node.Ordered) (location : Location) (found : Node) :
    (location, found) ∈ node.spots ↔ location ≠ [] ∧ node.get? location = some found := by
  cases node with
  | file content => cases location <;> simp [spots, get?, child?]
  | link target => cases location <;> simp [spots, get?, child?]
  | dir children =>
    unfold spots
    exact mem_spotsOf_iff children hnode location found

theorem mem_spotsOf_iff (children : List (Bytes × Node)) (hchildren : AllOrdered children)
    (location : Location) (found : Node) :
    (location, found) ∈ spotsOf children ↔
      location ≠ [] ∧ (Node.dir children).get? location = some found := by
  match children with
  | [] => cases location <;> simp [spotsOf, get?, child?]
  | (name, node) :: rest =>
    obtain ⟨hfirst, hnode, hrest⟩ := hchildren
    unfold spotsOf
    rw [List.mem_append, List.mem_cons, List.mem_map, mem_spotsOf_iff rest hrest]
    cases location with
    | nil => simp
    | cons first back =>
      simp only [Prod.mk.injEq, ne_eq, reduceCtorEq, not_false_eq_true, true_and, get?, child?,
        lookup_cons_ite, List.cons.injEq, Prod.exists, mem_spots_iff node hnode]
      by_cases hname : first = name
      · subst hname
        have hlater : rest.lookup first = none := by
          rw [Option.eq_none_iff_forall_ne_some]
          intro d hd
          exact List.lt_irrefl first (hfirst _ (mem_of_lookup hd))
        simp only [hlater, Option.bind_none, reduceCtorEq, or_false, if_true, Option.bind_some,
          true_and, exists_eq_right_right]
        cases back with
        | nil => simp [get?, eq_comm]
        | cons next back => simp
      · simp [hname, Ne.symm hname, eq_comm]

end

mutual

theorem pairwise_spots (node : Node) (hnode : node.Ordered) :
    node.spots.Pairwise (fun a b => a.1 < b.1) := by
  cases node with
  | file content => exact .nil
  | link target => exact .nil
  | dir children =>
    unfold spots
    exact pairwise_spotsOf children hnode

theorem pairwise_spotsOf (children : List (Bytes × Node)) (hchildren : AllOrdered children) :
    (spotsOf children).Pairwise (fun a b => a.1 < b.1) := by
  match children with
  | [] => exact .nil
  | (name, node) :: rest =>
    obtain ⟨hfirst, hnode, hrest⟩ := hchildren
    unfold spotsOf
    rw [List.pairwise_append, List.pairwise_cons]
    refine ⟨⟨?_, ?_⟩, pairwise_spotsOf rest hrest, ?_⟩
    · intro spot hspot
      obtain ⟨⟨inner, found⟩, hinner, rfl⟩ := List.mem_map.mp hspot
      obtain ⟨hne, -⟩ := (mem_spots_iff node hnode inner found).mp hinner
      rw [List.cons_lt_cons_iff]
      cases inner with
      | nil => exact absurd rfl hne
      | cons next inner => exact .inr ⟨rfl, List.nil_lt_cons next inner⟩
    · rw [List.pairwise_map]
      apply (pairwise_spots node hnode).imp
      intro a b hab
      exact List.cons_lt_cons_iff.mpr (.inr ⟨rfl, hab⟩)
    · -- Everything in front starts with the first name, everything behind with a later one.
      intro spot hspot later hlater
      obtain ⟨back, hback⟩ : ∃ back, spot.1 = name :: back := by
        rcases List.mem_cons.mp hspot with rfl | hspot
        · exact ⟨[], rfl⟩
        · obtain ⟨inner, -, rfl⟩ := List.mem_map.mp hspot
          exact ⟨inner.1, rfl⟩
      obtain ⟨location, found⟩ := later
      obtain ⟨hne, hfound⟩ := (mem_spotsOf_iff rest hrest location found).mp hlater
      cases location with
      | nil => exact absurd rfl hne
      | cons next location =>
        obtain ⟨child, hchild, -⟩ := Option.bind_eq_some_iff.mp hfound
        have hlt : name < next := hfirst _ (mem_of_lookup hchild)
        rw [hback]
        exact List.cons_lt_cons_iff.mpr (.inl hlt)

end

theorem isName_of_get? {node : Node} (hnode : node.WellFormed) {location : Location} {found : Node}
    (h : node.get? location = some found) : ∀ name ∈ location, Path.IsName name := by
  induction location generalizing node with
  | nil => simp
  | cons name rest ih =>
    obtain ⟨child, hchild, hrest⟩ := Option.bind_eq_some_iff.mp h
    cases node with
    | dir children =>
      obtain ⟨hname, hwell⟩ := hnode.child hchild
      exact List.forall_mem_cons.mpr ⟨hname, ih hwell hrest⟩
    | file content => simp [child?] at hchild
    | link target => simp [child?] at hchild

end Node

namespace Noise

theorem ignores_eq {p : Path} (hp : p.IsPlain) (root : Path) (markers excludes : List String)
    (isDir : Bool) :
    (ofMarkers root markers excludes).ignores p isDir =
      .ok ((ofMarkers root markers excludes).drop p isDir) := by
  have hverdict : ∃ v, (ofMarkers root markers excludes).exclude.verdict p isDir = .ok v := by
    unfold Exclude.verdict ofMarkers
    simp only [Exclude.relative_ofLines, Exclude.isAbsolute_seen hp root, Bool.false_eq_true,
      if_false]
    split
    · exact ⟨_, rfl⟩
    · split <;> exact ⟨_, rfl⟩
  obtain ⟨v, hv⟩ := hverdict
  unfold drop ignores
  rw [hv]
  split
  · rfl
  · split <;> rfl

theorem ignores_nil (root : Path) (markers : List String) (p : Path) (isDir : Bool) :
    (ofMarkers root markers []).ignores p isDir = .ok ((ofMarkers root markers []).isMarked p) := by
  unfold ignores
  cases (ofMarkers root markers []).isMarked p with
  | true => rfl
  | false =>
    simp only [Bool.false_eq_true, if_false]
    split <;> rfl

/-- Whether noise spares a location: neither that nor a directory on the way to it is ignored. -/
structure Spares (noise : Noise) (location : Location) (node : Node) : Prop where
  self : location ≠ [] → noise.ignores (.ofNames location) node.isDir = .ok false
  above : ∀ front name rest, location = front ++ name :: rest → front ≠ [] →
    noise.ignores (.ofNames front) true = .ok false

theorem spares_iff_isReached (root : Path) (markers excludes : List String) {location : Location}
    (hne : location ≠ []) (hnames : ∀ name ∈ location, Path.IsName name) (node : Node) :
    (⟨.ofNames location, node.kind⟩ : Visit).IsReached (ofMarkers root markers excludes).drop ⟨[]⟩ ↔
      (ofMarkers root markers excludes).Spares location node := by
  have hself := ignores_eq (Path.isPlain_ofNames hnames hne) root markers excludes node.isDir
  have hkind : decide (node.kind = .dir) = node.isDir := by simp
  have habove (front : Location) (name : Bytes) (rest : Location)
      (hlocation : location = front ++ name :: rest) (hfront : front ≠ []) := by
    have hfronts : ∀ n ∈ front, Path.IsName n :=
      fun n hn => hnames n (hlocation ▸ List.mem_append_left _ hn)
    exact ignores_eq (Path.isPlain_ofNames hfronts hfront) root markers excludes true
  constructor
  · intro hreached
    refine ⟨?_, ?_⟩
    · intro _
      rw [hself, ← hkind, hreached.kept]
    · intro front name rest hlocation hfront
      rw [habove front name rest hlocation hfront, hreached.above _ (.inl rfl)
        ((Path.above_ofNames_iff hnames hne _).mpr ⟨front, name, rest, hlocation, hfront, rfl⟩)]
  · intro hspares
    refine ⟨?_, ?_⟩
    · have hkept := hspares.self hne
      rw [hself] at hkept
      simp only [hkind]
      exact Except.ok.inj hkept
    · intro p _ hp
      obtain ⟨front, name, rest, hlocation, hfront, rfl⟩ :=
        (Path.above_ofNames_iff hnames hne p).mp hp
      have hkept := hspares.above front name rest hlocation hfront
      rw [habove front name rest hlocation hfront] at hkept
      exact Except.ok.inj hkept

theorem isMarked_of_above {noise : Noise} {p q : Path} (hpq : p.Above q)
    (h : noise.isMarked p = true) : noise.isMarked q = true := by
  obtain ⟨rest, hrest⟩ := Path.above_iff.mp hpq
  unfold isMarked at h ⊢
  simp only [List.any_eq_true, Text.occurs_iff] at h ⊢
  obtain ⟨marker, hmarker, hfound⟩ := h
  refine ⟨marker, hmarker, ?_⟩
  rw [hrest, Utf8.decodeLossy_append_slash, Text.slashed_append]
  exact hfound.trans (List.prefix_append _ _).isInfix

theorem spares_nil_iff (root : Path) (markers : List String) {location : Location}
    (hne : location ≠ []) (hnames : ∀ name ∈ location, Path.IsName name) (node : Node) :
    (ofMarkers root markers []).Spares location node ↔
      (ofMarkers root markers []).isMarked (.ofNames location) = false := by
  constructor
  · intro hspares
    have hself := hspares.self hne
    rw [ignores_nil] at hself
    exact Except.ok.inj hself
  · intro hunmarked
    refine ⟨fun _ => by rw [ignores_nil, hunmarked], ?_⟩
    intro front name rest hlocation hfront
    have habove : (Path.ofNames front).Above (.ofNames location) :=
      (Path.above_ofNames_iff hnames hne _).mpr ⟨front, name, rest, hlocation, hfront, rfl⟩
    rw [ignores_nil]
    cases hmarked : (ofMarkers root markers []).isMarked (.ofNames front) with
    | false => rfl
    | true =>
      rw [isMarked_of_above habove hmarked] at hunmarked
      cases hunmarked

end Noise

open Classical in
/-- Below a directory a walk meets the locations that noise spares, where it can open the directories
they stand in. -/
theorem Node.visits_eq_spots {children : List (Bytes × Node)}
    (hwell : (Node.dir children).WellFormed) (root base : Path) (markers excludes : List String) :
    (Node.dir children).visits (Noise.ofMarkers base markers excludes).drop root ⟨[]⟩ =
      ((Node.dir children).spots.filter fun spot =>
        (Noise.ofMarkers base markers excludes).Spares spot.1 spot.2 ∧ root.Opens spot.1).map
          fun spot => ⟨root.along spot.1, spot.2.kind⟩ := by
  have hvisits : (Node.dir children).visits (Noise.ofMarkers base markers excludes).drop root ⟨[]⟩ =
      _ := Node.visits_eq_tour (Noise.ofMarkers base markers excludes).drop root [] (by simp)
    (.dir children) hwell.named
  have htour : (Node.dir children).tour dropNothing ⟨[]⟩ = _ :=
    Node.tour_dropNothing [] (by simp) (.dir children) hwell.named
  have hspot (spot : Location × Node) (hspot : spot ∈ (Node.dir children).spots) :
      spot.1 ≠ [] ∧ ∀ name ∈ spot.1, Path.IsName name := by
    obtain ⟨hne, hfound⟩ := (Node.mem_spots_iff _ hwell.ordered spot.1 spot.2).mp hspot
    exact ⟨hne, Node.isName_of_get? hwell hfound⟩
  rw [hvisits, Path.ofNames_nil, Node.tour_eq_filter _ ⟨[]⟩ (.inl rfl) _ hwell.named, htour,
    List.filter_map, List.map_map]
  have hfilter : (Node.dir children).spots.filter ((fun v : Visit => decide
        (v.IsReached ((Noise.ofMarkers base markers excludes).drop.openedFrom root) ⟨[]⟩)) ∘
          fun spot => ⟨.ofNames ([] ++ spot.1), spot.2.kind⟩) =
      (Node.dir children).spots.filter fun spot =>
        decide ((Noise.ofMarkers base markers excludes).Spares spot.1 spot.2 ∧
          root.Opens spot.1) := by
    apply List.filter_congr
    intro spot hmem
    obtain ⟨hne, hnames⟩ := hspot spot hmem
    apply decide_eq_decide.mpr
    simp only [List.nil_append]
    rw [Visit.isReached_openedFrom_iff _ root (Path.isPlain_ofNames hnames hne),
      Noise.spares_iff_isReached base markers excludes hne hnames,
      Path.splitSlash_ofNames hnames hne]
  rw [hfilter]
  apply List.map_congr_left
  intro spot hmem
  obtain ⟨hne, hnames⟩ := hspot spot (List.mem_of_mem_filter hmem)
  rw [Path.along_eq_join hnames root hne]
  rfl

theorem Node.mem_visits_iff {children : List (Bytes × Node)}
    (hwell : (Node.dir children).WellFormed) (root base : Path) (markers excludes : List String)
    {v : Visit} :
    v ∈ (Node.dir children).visits (Noise.ofMarkers base markers excludes).drop root ⟨[]⟩ ↔
      ∃ front name node, (Node.dir children).get? (front ++ [name]) = some node ∧
        (Noise.ofMarkers base markers excludes).Spares (front ++ [name]) node ∧
        root.Opens (front ++ [name]) ∧ v = ⟨root.along (front ++ [name]), node.kind⟩ := by
  rw [visits_eq_spots hwell, List.mem_map]
  simp only [List.mem_filter, decide_eq_true_eq, Prod.exists, mem_spots_iff _ hwell.ordered]
  constructor
  · rintro ⟨location, node, ⟨⟨hne, hfound⟩, hspares, hopens⟩, rfl⟩
    rcases List.eq_nil_or_concat location with rfl | ⟨front, name, rfl⟩
    · exact absurd rfl hne
    · rw [List.concat_eq_append] at hfound hspares hopens ⊢
      exact ⟨front, name, node, hfound, hspares, hopens, rfl⟩
  · rintro ⟨front, name, node, hfound, hspares, hopens, rfl⟩
    exact ⟨_, node, ⟨⟨by simp, hfound⟩, hspares, hopens⟩, rfl⟩

open Classical in
/-- A walk of a directory meets the directory, and then the locations below it that noise spares,
where it can open the directories they stand in. -/
theorem FileTree.walk_eq_spots {t : FileTree} {root : Path} {children : List (Bytes × Node)}
    (hdash : root.isDash = false) (hdir : t.linkStat root = .ok (.dir children))
    (hwell : (Node.dir children).WellFormed) (base : Path) (markers excludes : List String) :
    t.walk (Noise.ofMarkers base markers excludes).drop root =
      ⟨root, .dir⟩ ::
        ((Node.dir children).spots.filter fun spot =>
          (Noise.ofMarkers base markers excludes).Spares spot.1 spot.2 ∧ root.Opens spot.1).map
            fun spot => ⟨root.along spot.1, spot.2.kind⟩ := by
  unfold walk
  rw [hdash, if_neg Bool.false_ne_true, hdir]
  exact congrArg _ (Node.visits_eq_spots hwell root base markers excludes)

end ApiAtlas
