import ApiAtlas.Proofs.Path
import ApiAtlas.Survey

/-!
Walks apart from where they start. What a walk meets below its start is a tour of paths from there,
put below the start; the tour knows the start only by what it is told to drop and by the directories
that cannot be opened from there.
-/
namespace ApiAtlas

@[simp] theorem Node.kind_eq_dir_iff (node : Node) : node.kind = .dir ↔ node.isDir = true := by
  cases node <;> simp [Node.kind, Node.isDir]

namespace Node

mutual

def WellNamed : Node → Prop
  | .dir children => AllWellNamed children
  | .file _ => True
  | .link _ => True

def AllWellNamed : List (Bytes × Node) → Prop
  | [] => True
  | (name, node) :: rest => Path.IsName name ∧ node.WellNamed ∧ AllWellNamed rest

end

mutual

/-- Everything below a node that a walk meets, by its path from the start. -/
def tour (drop : Drop) (within : Path) : Node → List Visit
  | .dir children => tourOf drop within children
  | .file _ => []
  | .link _ => []

def tourOf (drop : Drop) (within : Path) : List (Bytes × Node) → List Visit
  | [] => []
  | (name, node) :: rest =>
    (if drop (within.below name) node.isDir then []
      else ⟨within.below name, node.kind⟩ :: node.tour drop (within.below name)) ++
      tourOf drop within rest

end

end Node

def Visit.under (root : Path) (v : Visit) : Visit := ⟨root.join v.path, v.kind⟩

def dropNothing : Drop := fun _ _ => false

/-- Whether, from a start, the directory in which a location stands can be opened: its path must not
be too long. -/
def Path.Opens (root : Path) (location : Location) : Prop :=
  (root.along location.dropLast).bytes.length < FileTree.maxPath

instance (root : Path) (location : Location) : Decidable (root.Opens location) :=
  inferInstanceAs (Decidable (_ < _))

theorem Path.opens_of_length {root : Path} {location : Location}
    (hnames : ∀ name ∈ location, IsName name)
    (h : (root.along location).bytes.length < FileTree.maxPath) : root.Opens location :=
  Nat.lt_of_le_of_lt (root.length_along_le (List.dropLast_prefix location) hnames) h

/-- Drops also what stands in a directory that cannot be opened. -/
def Drop.openedFrom (drop : Drop) (root : Path) : Drop := fun p isDir =>
  drop p isDir || !decide (root.Opens (Path.splitSlash p.bytes))

/-- Whether a walk comes to a visit: it drops neither that nor a directory on the way to it. -/
structure Visit.IsReached (drop : Drop) (within : Path) (v : Visit) : Prop where
  kept : drop v.path (v.kind = .dir) = false
  above : ∀ p : Path, within.bytes = [] ∨ within.Above p → p.Above v.path → drop p true = false

theorem Path.Opens.front {root : Path} {front location : Location} (h : root.Opens location)
    (hfront : front <+: location) (hnames : ∀ name ∈ location, IsName name) : root.Opens front := by
  obtain ⟨back, rfl⟩ := hfront
  rcases List.eq_nil_or_concat back with rfl | ⟨back, name, rfl⟩
  · rwa [List.append_nil] at h
  · rw [List.concat_eq_append, ← List.append_assoc] at h hnames
    rw [Opens, List.dropLast_concat] at h
    have habove := (List.dropLast_prefix front).trans (List.prefix_append front back)
    exact Nat.lt_of_le_of_lt
      (root.length_along_le habove fun name hname => hnames name (List.mem_append_left _ hname)) h

theorem Drop.openedFrom_of_opens {root p : Path} (h : root.Opens (Path.splitSlash p.bytes))
    (drop : Drop) (isDir : Bool) : drop.openedFrom root p isDir = drop p isDir := by
  unfold openedFrom
  rw [decide_eq_true h, Bool.not_true, Bool.or_false]

theorem Drop.openedFrom_below (drop : Drop) (root : Path) {front : Location}
    (hfront : ∀ name ∈ front, Path.IsName name) {name : Bytes} (hname : Path.IsName name)
    (isDir : Bool) :
    drop.openedFrom root ((Path.ofNames front).below name) isDir =
      (drop ((Path.ofNames front).below name) isDir ||
        !decide ((root.along front).bytes.length < FileTree.maxPath)) := by
  have hnames : ∀ n ∈ front ++ [name], Path.IsName n := by
    rw [List.forall_mem_append, List.forall_mem_singleton]
    exact ⟨hfront, hname⟩
  have hopens : root.Opens (front ++ [name]) ↔
      (root.along front).bytes.length < FileTree.maxPath := by
    rw [Path.Opens, List.dropLast_concat]
  unfold openedFrom
  rw [Path.below_ofNames hfront, Path.splitSlash_ofNames hnames (by simp), decide_eq_decide.mpr hopens]

theorem Visit.isReached_openedFrom_iff (drop : Drop) (root : Path) {v : Visit}
    (hplain : v.path.IsPlain) :
    v.IsReached (drop.openedFrom root) ⟨[]⟩ ↔
      v.IsReached drop ⟨[]⟩ ∧ root.Opens (Path.splitSlash v.path.bytes) := by
  have hopened (p : Path) (isDir : Bool) : drop.openedFrom root p isDir = false ↔
      drop p isDir = false ∧ root.Opens (Path.splitSlash p.bytes) := by
    simp [Drop.openedFrom]
  constructor
  · intro h
    obtain ⟨hkept, hopens⟩ := (hopened _ _).mp h.kept
    exact ⟨⟨hkept, fun p hp hpv => ((hopened p true).mp (h.above p hp hpv)).1⟩, hopens⟩
  · rintro ⟨h, hopens⟩
    refine ⟨(hopened _ _).mpr ⟨h.kept, hopens⟩, fun p hp hpv => ?_⟩
    refine (hopened p true).mpr ⟨h.above p hp hpv, ?_⟩
    obtain ⟨rest, hrest⟩ := Path.above_iff.mp hpv
    unfold Path.IsPlain at hplain
    rw [hrest, Path.splitSlash_append_slash] at hplain hopens
    exact hopens.front (List.prefix_append _ _) hplain

namespace Node

theorem tourOf_of_closed {root : Path} {front : Location} (hfront : ∀ name ∈ front, Path.IsName name)
    (hclosed : ¬ (root.along front).bytes.length < FileTree.maxPath) (drop : Drop)
    {children : List (Bytes × Node)} (hchildren : AllWellNamed children) :
    tourOf (drop.openedFrom root) (.ofNames front) children = [] := by
  induction children with
  | nil => rfl
  | cons child rest ih =>
    obtain ⟨hname, -, hrest⟩ := hchildren
    unfold tourOf
    rw [Drop.openedFrom_below drop root hfront hname, decide_eq_false hclosed, Bool.not_false,
      Bool.or_true, if_pos rfl, ih hrest]
    rfl

mutual

theorem visits_eq_tour (drop : Drop) (root : Path) (front : Location)
    (hfront : ∀ name ∈ front, Path.IsName name) (node : Node) (hnode : node.WellNamed) :
    node.visits drop (root.along front) (.ofNames front) =
      (node.tour (drop.openedFrom root) (.ofNames front)).map (Visit.under root) := by
  cases node with
  | file content => rfl
  | link target => rfl
  | dir children =>
    unfold visits tour
    split
    · rename_i hopen
      exact visitsOf_eq_tourOf drop root front hfront hopen children hnode
    · rename_i hclosed
      rw [tourOf_of_closed hfront hclosed drop hnode, List.map_nil]

theorem visitsOf_eq_tourOf (drop : Drop) (root : Path) (front : Location)
    (hfront : ∀ name ∈ front, Path.IsName name)
    (hopen : (root.along front).bytes.length < FileTree.maxPath) (children : List (Bytes × Node))
    (hchildren : AllWellNamed children) :
    visitsOf drop (root.along front) (.ofNames front) children =
      (tourOf (drop.openedFrom root) (.ofNames front) children).map (Visit.under root) := by
  match children with
  | [] => rfl
  | (name, node) :: rest =>
    obtain ⟨hname, hnode, hrest⟩ := hchildren
    have hinner : ∀ n ∈ front ++ [name], Path.IsName n := by
      rw [List.forall_mem_append, List.forall_mem_singleton]
      exact ⟨hfront, hname⟩
    -- Below the child, the way goes on by its name.
    have hbelow := visits_eq_tour drop root (front ++ [name]) hinner node hnode
    have hself : root.along (front ++ [name]) = root.join (.ofNames (front ++ [name])) :=
      Path.along_eq_join hinner root (by simp)
    unfold visitsOf tourOf
    rw [visitsOf_eq_tourOf drop root front hfront hopen rest hrest,
      Drop.openedFrom_below drop root hfront hname, decide_eq_true hopen, Bool.not_true,
      Bool.or_false, Path.below_ofNames hfront, ← Path.along_concat, hbelow, List.map_append, hself]
    split <;> rfl

end

mutual

theorem isPlain_of_mem_tour (drop : Drop) (within : Path)
    (hwithin : within.bytes = [] ∨ within.IsPlain) (node : Node) (hnode : node.WellNamed)
    (v : Visit) (hv : v ∈ node.tour drop within) : v.path.IsPlain := by
  cases node with
  | file content => simp [tour] at hv
  | link target => simp [tour] at hv
  | dir children =>
    unfold tour at hv
    exact isPlain_of_mem_tourOf drop within hwithin children hnode v hv

theorem isPlain_of_mem_tourOf (drop : Drop) (within : Path)
    (hwithin : within.bytes = [] ∨ within.IsPlain) (children : List (Bytes × Node))
    (hchildren : AllWellNamed children) (v : Visit) (hv : v ∈ tourOf drop within children) :
    v.path.IsPlain := by
  match children with
  | [] => simp [tourOf] at hv
  | (name, node) :: rest =>
    obtain ⟨hname, hnode, hrest⟩ := hchildren
    have hplain : (within.below name).IsPlain := Path.isPlain_below hwithin hname
    unfold tourOf at hv
    rcases List.mem_append.mp hv with hv | hv
    · split at hv
      · simp at hv
      · rcases List.mem_cons.mp hv with rfl | hv
        · exact hplain
        · exact isPlain_of_mem_tour drop (within.below name) (.inr hplain) node hnode v hv
    · exact isPlain_of_mem_tourOf drop within hwithin rest hrest v hv

end

mutual

theorem above_of_mem_tour (drop : Drop) (within : Path) (hwithin : within.IsPlain) (node : Node)
    (hnode : node.WellNamed) (v : Visit) (hv : v ∈ node.tour drop within) :
    within.Above v.path := by
  cases node with
  | file content => simp [tour] at hv
  | link target => simp [tour] at hv
  | dir children =>
    unfold tour at hv
    exact above_of_mem_tourOf drop within hwithin children hnode v hv

theorem above_of_mem_tourOf (drop : Drop) (within : Path) (hwithin : within.IsPlain)
    (children : List (Bytes × Node)) (hchildren : AllWellNamed children) (v : Visit)
    (hv : v ∈ tourOf drop within children) : within.Above v.path := by
  match children with
  | [] => simp [tourOf] at hv
  | (name, node) :: rest =>
    obtain ⟨hname, hnode, hrest⟩ := hchildren
    have hplain : (within.below name).IsPlain := Path.isPlain_below (.inr hwithin) hname
    have habove := (Path.above_child within name).resolve_left hwithin.ne_nil
    unfold tourOf at hv
    rcases List.mem_append.mp hv with hv | hv
    · split at hv
      · simp at hv
      · rcases List.mem_cons.mp hv with rfl | hv
        · exact habove
        · exact habove.trans (.inr (above_of_mem_tour drop _ hplain node hnode v hv))
    · exact above_of_mem_tourOf drop within hwithin rest hrest v hv

end

theorem isDir_of_mem_tour {drop : Drop} {within : Path} {node : Node} {v : Visit}
    (hv : v ∈ node.tour drop within) : node.isDir = true := by
  cases node <;> simp [tour, isDir] at hv ⊢

mutual

theorem mem_tour_of_above (drop : Drop) (within : Path)
    (hwithin : within.bytes = [] ∨ within.IsPlain) (node : Node) (hnode : node.WellNamed)
    (v : Visit) (hv : v ∈ node.tour drop within) (p : Path)
    (hp : within.bytes = [] ∨ within.Above p) (hpv : p.Above v.path) :
    ⟨p, .dir⟩ ∈ node.tour drop within := by
  cases node with
  | file content => simp [tour] at hv
  | link target => simp [tour] at hv
  | dir children =>
    unfold tour at hv ⊢
    exact mem_tourOf_of_above drop within hwithin children hnode v hv p hp hpv

theorem mem_tourOf_of_above (drop : Drop) (within : Path)
    (hwithin : within.bytes = [] ∨ within.IsPlain) (children : List (Bytes × Node))
    (hchildren : AllWellNamed children) (v : Visit) (hv : v ∈ tourOf drop within children)
    (p : Path) (hp : within.bytes = [] ∨ within.Above p) (hpv : p.Above v.path) :
    ⟨p, .dir⟩ ∈ tourOf drop within children := by
  match children with
  | [] => simp [tourOf] at hv
  | (name, node) :: rest =>
    obtain ⟨hname, hnode, hrest⟩ := hchildren
    have hplain : (within.below name).IsPlain := Path.isPlain_below hwithin hname
    unfold tourOf at hv ⊢
    rcases List.mem_append.mp hv with hv | hv
    · apply List.mem_append_left
      split at hv
      · simp at hv
      · rename_i hkept
        rw [if_neg hkept]
        rcases List.mem_cons.mp hv with rfl | hv
        · have hself : (within.below name).AtOrAbove p :=
            Path.above_below hname hp hpv (.inl rfl)
          exact absurd hself.length_le (Nat.not_le.mpr hpv.length_lt)
        · have hbelow := above_of_mem_tour drop _ hplain node hnode v hv
          rcases Path.above_below hname hp hpv (.inr hbelow) with rfl | hchild
          · rw [(kind_eq_dir_iff node).mpr (isDir_of_mem_tour hv)]
            exact List.mem_cons_self
          · apply List.mem_cons_of_mem
            exact mem_tour_of_above drop _ (.inr hplain) node hnode v hv p (.inr hchild) hpv
    · apply List.mem_append_right
      exact mem_tourOf_of_above drop within hwithin rest hrest v hv p hp hpv

end

open Classical in
mutual

/-- A walk meets what there is to meet and it comes to, in the same order. -/
theorem tour_eq_filter (drop : Drop) (within : Path)
    (hwithin : within.bytes = [] ∨ within.IsPlain) (node : Node) (hnode : node.WellNamed) :
    node.tour drop within =
      (node.tour dropNothing within).filter (·.IsReached drop within) := by
  cases node with
  | file content => rfl
  | link target => rfl
  | dir children =>
    unfold tour
    exact tourOf_eq_filter drop within hwithin children hnode

theorem tourOf_eq_filter (drop : Drop) (within : Path)
    (hwithin : within.bytes = [] ∨ within.IsPlain) (children : List (Bytes × Node))
    (hchildren : AllWellNamed children) :
    tourOf drop within children =
      (tourOf dropNothing within children).filter (·.IsReached drop within) := by
  match children with
  | [] => rfl
  | (name, node) :: rest =>
    obtain ⟨hname, hnode, hrest⟩ := hchildren
    have hplain : (within.below name).IsPlain := Path.isPlain_below hwithin hname
    have hbelow := above_of_mem_tour dropNothing _ hplain node hnode
    have hchild := Path.above_child within name
    unfold tourOf
    rw [tourOf_eq_filter drop within hwithin rest hrest, dropNothing, if_neg Bool.false_ne_true,
      List.filter_append]
    congr 1
    split
    · -- The child is dropped, so nothing below it is reached.
      rename_i hdropped
      symm
      rw [List.filter_eq_nil_iff]
      intro v hv hreached
      have hreached := of_decide_eq_true hreached
      rcases List.mem_cons.mp hv with rfl | hv
      · have hself := hreached.kept
        simp only [kind_eq_dir_iff, Bool.decide_eq_true] at hself
        rw [hself] at hdropped
        exact Bool.false_ne_true hdropped
      · rw [isDir_of_mem_tour hv, hreached.above _ hchild (hbelow v hv)] at hdropped
        exact Bool.false_ne_true hdropped
    · rename_i hkept
      have hself : (⟨within.below name, node.kind⟩ : Visit).IsReached drop within := by
        refine ⟨by simpa using hkept, ?_⟩
        intro p hp hpv
        have hat : (within.below name).AtOrAbove p := Path.above_below hname hp hpv (.inl rfl)
        exact absurd hat.length_le (Nat.not_le.mpr hpv.length_lt)
      rw [List.filter_cons, if_pos (decide_eq_true hself),
        tour_eq_filter drop _ (.inr hplain) node hnode]
      apply congrArg
      apply List.filter_congr
      intro v hv
      rw [isDir_of_mem_tour hv] at hkept
      apply decide_eq_decide.mpr
      constructor
      · intro hreached
        refine ⟨hreached.kept, ?_⟩
        intro p hp hpv
        rcases Path.above_below hname hp hpv (.inr (hbelow v hv)) with rfl | hat
        · exact Bool.eq_false_iff.mpr hkept
        · exact hreached.above p (.inr hat) hpv
      · intro hreached
        refine ⟨hreached.kept, ?_⟩
        intro p hp hpv
        have hat := hp.resolve_left hplain.ne_nil
        exact hreached.above p (hchild.imp_right fun hchild => hchild.trans (.inr hat)) hpv

end

theorem mem_tour_iff (drop : Drop) (node : Node) (hnode : node.WellNamed) (v : Visit) :
    v ∈ node.tour drop ⟨[]⟩ ↔ v ∈ node.tour dropNothing ⟨[]⟩ ∧ v.IsReached drop ⟨[]⟩ := by
  classical
  rw [tour_eq_filter drop ⟨[]⟩ (.inl rfl) node hnode, List.mem_filter, decide_eq_true_iff]

end Node

theorem Language.ofPath_join {p : Path} (h : p.IsPlain) (root : Path) :
    ofPath (root.join p) = ofPath p := by
  unfold ofPath Path.extension?
  rw [Path.fileName?_join h]

namespace Visit

def isListed (v : Visit) : Bool := v.source?.isSome || v.isDocDir

theorem isDocDir_under {v : Visit} (h : v.path.IsPlain) (root : Path) :
    (v.under root).isDocDir = v.isDocDir := by
  unfold isDocDir under
  rw [Path.fileName?_join h]

theorem kind_of_isDocDir {v : Visit} (h : v.isDocDir) : v.kind = .dir := by
  unfold isDocDir at h
  exact of_decide_eq_true ((Bool.and_eq_true _ _).mp h).1

theorem source?_eq_some {v : Visit} {s : Source} (h : v.source? = some s) :
    v.kind ≠ .dir ∧ s.path = v.path := by
  unfold source? at h
  split at h
  · rename_i hkind
    cases h
    exact ⟨hkind.1, rfl⟩
  · simp at h

theorem source?_under {v : Visit} (h : v.path.IsPlain) (root : Path) :
    (v.under root).source? = v.source?.map fun s => ⟨root.join s.path, s.language⟩ := by
  unfold source? under
  rw [Language.ofPath_join h]
  split <;> rfl

end Visit

namespace Manifest

def under (root : Path) (m : Manifest) : Manifest where
  sources := m.sources.map fun s => ⟨root.join s.path, s.language⟩
  docDirs := m.docDirs.map root.join

theorem ofVisits_under (root : Path) (visits : List Visit)
    (h : ∀ v ∈ visits, v.path.IsPlain) :
    ofVisits (visits.map (Visit.under root)) = (ofVisits visits).under root := by
  unfold ofVisits under
  congr 1
  · rw [List.filterMap_map, List.map_filterMap]
    apply List.filterMap_congr
    intro v hv
    exact Visit.source?_under (h v hv) root
  · have hdocs : visits.filter (Visit.isDocDir ∘ Visit.under root) = visits.filter Visit.isDocDir := by
      apply List.filter_congr
      intro v hv
      exact Visit.isDocDir_under (h v hv) root
    rw [List.filter_map, hdocs, List.map_map, List.map_map]
    rfl

structure IsPlain (m : Manifest) : Prop where
  sources : ∀ s ∈ m.sources, s.path.IsPlain
  docDirs : ∀ dir ∈ m.docDirs, dir.IsPlain

theorem isPlain_ofVisits (visits : List Visit) (h : ∀ v ∈ visits, v.path.IsPlain) :
    (ofVisits visits).IsPlain where
  sources s hs := by
    obtain ⟨v, hv, hsource⟩ := List.mem_filterMap.mp hs
    rw [(Visit.source?_eq_some hsource).2]
    exact h v hv
  docDirs dir hdir := by
    obtain ⟨v, hv, rfl⟩ := List.mem_map.mp hdir
    exact h v (List.mem_of_mem_filter hv)

def withRoot (root : Path) (m : Manifest) : Manifest :=
  { m.under root with
    docDirs := (if (⟨root, .dir⟩ : Visit).isDocDir then [root] else []) ++ (m.under root).docDirs }

theorem under_injective {root : Path} {m m' : Manifest} (hm : m.IsPlain) (hm' : m'.IsPlain)
    (h : m.under root = m'.under root) : m = m' := by
  -- Taking the front of the root off again leads back.
  let back (p : Path) : Path := ⟨p.bytes.drop root.frontOf.length⟩
  have hback (p : Path) (hp : p.IsPlain) : back (root.join p) = p := by
    simp only [back, Path.bytes_join_of_relative hp.not_isAbsolute, List.drop_left]
  have hunder (m : Manifest) (hm : m.IsPlain) :
      m = ⟨(m.under root).sources.map fun s => ⟨back s.path, s.language⟩,
        (m.under root).docDirs.map back⟩ := by
    obtain ⟨sources, docDirs⟩ := m
    simp only [under, List.map_map, Manifest.mk.injEq]
    constructor
    · symm
      refine (List.map_congr_left (g := id) ?_).trans (List.map_id sources)
      intro s hs
      simp only [Function.comp_apply, hback s.path (hm.sources s hs), id_eq]
    · symm
      refine (List.map_congr_left (g := id) ?_).trans (List.map_id docDirs)
      intro dir hdir
      simp only [Function.comp_apply, hback dir (hm.docDirs dir hdir), id_eq]
  rw [hunder m hm, hunder m' hm', h]

theorem withRoot_injective {root : Path} {m m' : Manifest} (hm : m.IsPlain) (hm' : m'.IsPlain)
    (h : m.withRoot root = m'.withRoot root) : m = m' := by
  have hsources : (m.withRoot root).sources = (m'.withRoot root).sources :=
    congrArg Manifest.sources h
  have hdocs : (m.under root).docDirs = (m'.under root).docDirs :=
    List.append_cancel_left (congrArg Manifest.docDirs h)
  have hunder : m.under root = m'.under root := congrArg₂ Manifest.mk hsources hdocs
  exact under_injective hm hm' hunder

def Lists (m : Manifest) (p : Path) : Prop := p ∈ m.sources.map (·.path) ∨ p ∈ m.docDirs

theorem lists_ofVisits (visits : List Visit) (p : Path) :
    (ofVisits visits).Lists p ↔ ∃ v ∈ visits, v.isListed ∧ v.path = p := by
  unfold Lists ofVisits Visit.isListed
  simp only [List.mem_map, List.mem_filterMap, List.mem_filter, Bool.or_eq_true]
  constructor
  · rintro (⟨s, ⟨v, hv, hs⟩, rfl⟩ | ⟨v, ⟨hv, hdoc⟩, rfl⟩)
    · exact ⟨v, hv, .inl (by rw [hs]; rfl), (Visit.source?_eq_some hs).2.symm⟩
    · exact ⟨v, hv, .inr hdoc, rfl⟩
  · rintro ⟨v, hv, hsource | hdoc, rfl⟩
    · obtain ⟨s, hs⟩ := Option.isSome_iff_exists.mp hsource
      exact .inl ⟨s, ⟨v, hv, hs⟩, (Visit.source?_eq_some hs).2⟩
    · exact .inr ⟨v, ⟨hv, hdoc⟩, rfl⟩

theorem ofVisits_filter_congr (visits : List Visit) (f g : Visit → Bool)
    (h : ∀ v ∈ visits, v.isListed → f v = g v) :
    ofVisits (visits.filter f) = ofVisits (visits.filter g) := by
  unfold ofVisits
  congr 1
  · rw [List.filterMap_filter, List.filterMap_filter]
    apply List.filterMap_congr
    intro v hv
    cases hsource : v.source? with
    | none => simp
    | some s => rw [h v hv (by simp [Visit.isListed, hsource])]
  · rw [List.filter_filter, List.filter_filter]
    apply congrArg (List.map _)
    apply List.filter_congr
    intro v hv
    cases hdoc : v.isDocDir with
    | false => rfl
    | true => rw [h v hv (by simp [Visit.isListed, hdoc])]

theorem lists_withRoot {root : Path} {m : Manifest} (hm : m.IsPlain) {p : Path} (hp : p.IsPlain) :
    (m.withRoot root).Lists (root.join p) ↔ m.Lists p := by
  have hjoin (p' : Path) (hp' : p'.IsPlain) : root.join p' = root.join p ↔ p' = p := by
    constructor
    · exact Path.join_injective_of_relative hp'.not_isAbsolute hp.not_isAbsolute root
    · exact congrArg root.join
  have hroot : root.join p ≠ root := by
    intro heq
    have hlength := congrArg (·.bytes.length) heq
    have hne := List.length_pos_iff.mpr hp.ne_nil
    simp only [Path.bytes_join_of_relative hp.not_isAbsolute, Path.frontOf] at hlength
    split at hlength <;> simp only [List.length_append, List.length_singleton] at hlength <;> omega
  unfold Lists withRoot under
  simp only [List.map_map, List.mem_append, List.mem_map, Function.comp_apply]
  constructor
  · rintro (⟨s, hs, heq⟩ | heq | ⟨dir, hdir, heq⟩)
    · exact .inl ⟨s, hs, (hjoin s.path (hm.sources s hs)).mp heq⟩
    · split at heq
      · exact absurd (List.mem_singleton.mp heq) hroot
      · simp at heq
    · rw [← (hjoin dir (hm.docDirs dir hdir)).mp heq]
      exact .inr hdir
  · rintro (⟨s, hs, heq⟩ | hdir)
    · exact .inl ⟨s, hs, (hjoin s.path (hm.sources s hs)).mpr heq⟩
    · exact .inr (.inr ⟨p, hdir, rfl⟩)

end Manifest

theorem Node.isReached_of_ofVisits_eq {drop drop' : Drop} {node : Node} (hnode : node.WellNamed)
    (h : Manifest.ofVisits (node.tour drop ⟨[]⟩) = .ofVisits (node.tour drop' ⟨[]⟩)) {v : Visit}
    (hv : v ∈ node.tour dropNothing ⟨[]⟩) (hlisted : v.isListed)
    (hreached : v.IsReached drop ⟨[]⟩) : v.IsReached drop' ⟨[]⟩ := by
  have hmem := (mem_tour_iff drop node hnode v).mpr ⟨hv, hreached⟩
  obtain ⟨w, hw, hpath, hkind⟩ : ∃ w ∈ node.tour drop' ⟨[]⟩,
      w.path = v.path ∧ (w.kind = .dir ↔ v.kind = .dir) := by
    unfold Visit.isListed at hlisted
    rcases (Bool.or_eq_true _ _).mp hlisted with hsource | hdoc
    · obtain ⟨s, hs⟩ := Option.isSome_iff_exists.mp hsource
      have hmem' : s ∈ (Manifest.ofVisits (node.tour drop' ⟨[]⟩)).sources := by
        rw [← h]
        exact List.mem_filterMap.mpr ⟨v, hmem, hs⟩
      obtain ⟨w, hw, hsw⟩ := List.mem_filterMap.mp hmem'
      obtain ⟨hkind, hpath⟩ := Visit.source?_eq_some hs
      obtain ⟨hkind', hpath'⟩ := Visit.source?_eq_some hsw
      exact ⟨w, hw, hpath'.symm.trans hpath, iff_of_false hkind' hkind⟩
    · have hmem' : v.path ∈ (Manifest.ofVisits (node.tour drop' ⟨[]⟩)).docDirs := by
        rw [← h]
        exact List.mem_map.mpr ⟨v, List.mem_filter.mpr ⟨hmem, hdoc⟩, rfl⟩
      obtain ⟨w, hw, hpath⟩ := List.mem_map.mp hmem'
      obtain ⟨hw, hdocw⟩ := List.mem_filter.mp hw
      exact ⟨w, hw, hpath, iff_of_true (Visit.kind_of_isDocDir hdocw) (Visit.kind_of_isDocDir hdoc)⟩
  have hreached' := ((mem_tour_iff drop' node hnode w).mp hw).2
  refine ⟨?_, ?_⟩
  · rw [← hpath, ← decide_eq_decide.mpr hkind]
    exact hreached'.kept
  · rw [← hpath]
    exact hreached'.above

namespace FileTree

theorem walk_of_isDash {root : Path} (h : root.isDash = true) (t : FileTree) (drop : Drop) :
    t.walk drop root = [] := if_pos h

theorem manifest_of_isDash {root : Path} (h : root.isDash = true) (t : FileTree)
    (excludes : List String) : t.manifest root excludes = {} := by
  unfold manifest
  rw [walk_of_isDash h]
  rfl

theorem documents_of_isDash {root : Path} (h : root.isDash = true) (t : FileTree) :
    t.documents root = [] := by
  unfold documents
  rw [walk_of_isDash h]
  rfl

end FileTree

theorem FileTree.manifest_eq (t : FileTree) (root : Path) (excludes : List String)
    (children : List (Bytes × Node)) (hdash : root.isDash = false)
    (hdir : t.linkStat root = .ok (.dir children)) (hnames : (Node.dir children).WellNamed) :
    t.manifest root excludes =
      (Manifest.ofVisits ((Node.dir children).tour
        ((Noise.ofExcludes root excludes).drop.openedFrom root) ⟨[]⟩)).withRoot root := by
  have hvisits : (Node.dir children).visits (Noise.ofExcludes root excludes).drop root ⟨[]⟩ = _ :=
    Node.visits_eq_tour (Noise.ofExcludes root excludes).drop root [] (by simp) (.dir children)
      hnames
  have hplain := Node.isPlain_of_mem_tour ((Noise.ofExcludes root excludes).drop.openedFrom root)
    ⟨[]⟩ (.inl rfl) (.dir children) hnames
  unfold manifest walk
  rw [hdash, hdir]
  simp only [Bool.false_eq_true, if_false]
  rw [hvisits]
  unfold Manifest.withRoot
  rw [← Manifest.ofVisits_under root _ hplain]
  simp only [Manifest.ofVisits, Visit.source?, ne_eq, Node.kind, not_true_eq_false, false_and,
    if_false, List.filterMap_cons_none, List.filter_cons]
  split <;> rfl

end ApiAtlas
