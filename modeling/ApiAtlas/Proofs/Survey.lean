import ApiAtlas.Proofs.FileTree.Ways
import ApiAtlas.Proofs.Locations
import ApiAtlas.Proofs.RootName

/-!
What a manifest lists. Its sources and its documentation directories are the locations below the
root that noise spares, in directories that can be opened, and that are of the one kind or the other,
each once and in the order of the names on the way. A root that is spelled as standard input lists
nothing, whatever stands there.
-/
namespace ApiAtlas

namespace Bytes

def lowerByte (b : UInt8) : UInt8 := if 0x41 ≤ b ∧ b ≤ 0x5A then b + 0x20 else b

def lowered (bs : Bytes) : Bytes := bs.map lowerByte

end Bytes

namespace Utf8

theorem pieces_of_ascii (bs : Bytes) (h : ∀ b ∈ bs, b.toNat < 0x80) :
    pieces bs = bs.map fun b => .char (.ofNat b.toNat) := by
  unfold pieces
  induction bs with
  | nil => rfl
  | cons b bs ih =>
    rw [List.forall_mem_cons] at h
    have hstart : start b = .inl (.char (.ofNat b.toNat)) := by
      have hb := start_of_lt h.1
      rwa [UInt8.ofNat_toNat] at hb
    rw [piecesFrom, hstart]
    simp only
    rw [ih h.2, List.map_cons]

theorem toNat_lt_of_isAscii {bs : Bytes} (h : ∀ piece ∈ pieces bs, piece.IsAscii) :
    ∀ b ∈ bs, b.toNat < 0x80 := by
  intro b hb
  obtain ⟨c, hc, hpos, hlt⟩ := h _ (mem_of_isAscii bs h b hb)
  have hc := Piece.char.inj hc
  rcases toNat_ofNat_cases b.toNat with hn | hn
  · rw [hc] at hn
    omega
  · rw [hc] at hn
    omega

theorem decodeLossy_of_ascii (bs : Bytes) (h : ∀ b ∈ bs, b.toNat < 0x80) :
    decodeLossy bs = bs.map fun b => .ofNat b.toNat := by
  unfold decodeLossy
  rw [pieces_of_ascii bs h, List.map_map]
  rfl

theorem asciiLower_decodeLossy (bs : Bytes) (h : ∀ b ∈ bs, b.toNat < 0x80) :
    Text.asciiLower (decodeLossy bs) = bs.lowered.map fun b => .ofNat b.toNat := by
  have hlower : ∀ n < 0x80, (Char.ofNat n).toLower =
      .ofNat (Bytes.lowerByte (.ofNat n)).toNat := by decide +kernel
  unfold Text.asciiLower Bytes.lowered
  rw [decodeLossy_of_ascii bs h, List.map_map, List.map_map]
  apply List.map_congr_left
  intro b hb
  have hb := hlower b.toNat (h b hb)
  rwa [UInt8.ofNat_toNat] at hb

theorem charOfByte_injective : Function.Injective fun b : UInt8 => Char.ofNat b.toNat := by
  have hchar : ∀ n < 256, (Char.ofNat n).toNat = n := by decide +kernel
  intro a b hab
  have hab := congrArg Char.toNat hab
  simp only [hchar _ a.toNat_lt, hchar _ b.toNat_lt] at hab
  exact UInt8.toNat_inj.mp hab

end Utf8

namespace Visit

theorem asciiLower_eq_docs_iff (name : Bytes) :
    Text.asciiLower (Utf8.decodeLossy name) = "docs".toList ↔
      name.lowered = Bytes.ofString "docs" := by
  have hdocs : "docs".toList = (Bytes.ofString "docs").map fun b => Char.ofNat b.toNat := by decide
  constructor
  · intro h
    rw [Utf8.asciiLower_decodeLossy name (Utf8.toNat_lt_of_isAscii (isAscii_of_docs h)), hdocs] at h
    exact List.map_injective_iff.mpr Utf8.charOfByte_injective h
  · intro h
    have hletter : ∀ n < 256, Bytes.lowerByte (.ofNat n) ∈ Bytes.ofString "docs" → n < 0x80 := by
      decide +kernel
    have hascii : ∀ b ∈ name, b.toNat < 0x80 := by
      intro b hb
      apply hletter b.toNat b.toNat_lt
      rw [UInt8.ofNat_toNat, ← h]
      exact List.mem_map_of_mem hb
    rw [Utf8.asciiLower_decodeLossy name hascii, h, hdocs]

theorem isDocDir_iff (p : Path) :
    (⟨p, .dir⟩ : Visit).isDocDir = true ↔
      ∃ name, p.fileName? = some name ∧ name.lowered = Bytes.ofString "docs" := by
  unfold isDocDir
  cases p.fileName? with
  | none => simp
  | some name => simpa using asciiLower_eq_docs_iff name

end Visit

/-- Locations listed in the order of the names on the way: those of which something holds, and no
others. -/
structure Enumerates (holds : Location → Prop) (locations : List Location) : Prop where
  mem_iff : ∀ location, location ∈ locations ↔ holds location
  sorted : locations.Pairwise (· < ·)

theorem Enumerates.eq {holds holds' : Location → Prop} {locations locations' : List Location}
    (h : Enumerates holds locations) (h' : Enumerates holds' locations')
    (hsame : ∀ location, holds location ↔ holds' location) : locations = locations' := by
  apply h.sorted.eq_of_mem_iff h'.sorted
  intro location
  rw [h.mem_iff, h'.mem_iff, hsame]

theorem Node.enumerates_spots (node : Node) (hnode : node.Ordered)
    (holds : Location → Node → Prop) [∀ location found, Decidable (holds location found)] :
    Enumerates (fun location => location ≠ [] ∧ ∃ found, node.get? location = some found ∧
        holds location found)
      ((node.spots.filter fun spot => holds spot.1 spot.2).map Prod.fst) where
  mem_iff location := by
    simp only [List.mem_map, List.mem_filter, decide_eq_true_eq, Prod.exists, exists_and_right,
      exists_eq_right]
    constructor
    · rintro ⟨found, hmem, hholds⟩
      obtain ⟨hne, hfound⟩ := (mem_spots_iff node hnode location found).mp hmem
      exact ⟨hne, found, hfound, hholds⟩
    · rintro ⟨hne, found, hfound, hholds⟩
      exact ⟨found, (mem_spots_iff node hnode location found).mpr ⟨hne, hfound⟩, hholds⟩
  sorted := List.pairwise_map.mpr ((pairwise_spots node hnode).filter _)

namespace Noise

/-- Whether a location below `root` is one of a source: no directory, spared by noise, and with an
extension that tells a language. -/
structure TakesSource (noise : Noise) (root : Path) (location : Location) (node : Node) : Prop where
  spared : noise.Spares location node
  notDir : node.isDir = false
  known : (Language.ofPath (root.along location)).isKnown = true

/-- Whether a location at or below `root` is one of a directory called `docs` that noise spares. -/
structure TakesDocDir (noise : Noise) (root : Path) (location : Location) (node : Node) : Prop where
  spared : noise.Spares location node
  isDir : node.isDir = true
  name : ∃ name, (root.along location).fileName? = some name ∧
    name.lowered = Bytes.ofString "docs"

theorem takesSource_iff (noise : Noise) (root : Path) (location : Location) (node : Node) :
    noise.TakesSource root location node ↔ noise.Spares location node ∧ node.kind ≠ .dir ∧
      (Language.ofPath (root.along location)).isKnown = true := by
  rw [ne_eq, Node.kind_eq_dir_iff, Bool.not_eq_true]
  exact ⟨fun ⟨hspared, hdir, hknown⟩ => ⟨hspared, hdir, hknown⟩,
    fun ⟨hspared, hdir, hknown⟩ => ⟨hspared, hdir, hknown⟩⟩

theorem takesDocDir_iff (noise : Noise) (root : Path) (location : Location) (node : Node) :
    noise.TakesDocDir root location node ↔ noise.Spares location node ∧
      (⟨root.along location, node.kind⟩ : Visit).isDocDir = true := by
  constructor
  · intro h
    rw [(Node.kind_eq_dir_iff node).mpr h.isDir, Visit.isDocDir_iff]
    exact ⟨h.spared, h.name⟩
  · rintro ⟨hspared, hdoc⟩
    cases node with
    | dir children => exact ⟨hspared, rfl, (Visit.isDocDir_iff _).mp hdoc⟩
    | file content => simp [Visit.isDocDir, Node.kind] at hdoc
    | link target => simp [Visit.isDocDir, Node.kind] at hdoc

theorem takesSource_of_unmarked (root : Path) {children : List (Bytes × Node)}
    (hwell : (Node.dir children).WellFormed) {location : Location} {content : Bytes}
    (hne : location ≠ []) (hnode : (Node.dir children).get? location = some (.file content))
    (hunmarked : (ofExcludes root []).isMarked (.ofNames location) = false)
    (hknown : (Language.ofPath (.ofNames location)).isKnown = true) :
    (ofExcludes root []).TakesSource root location (.file content) where
  spared := (spares_nil_iff root commonMarkers hne (Node.isName_of_get? hwell hnode) _).mpr hunmarked
  notDir := rfl
  known := by
    have hnames := Node.isName_of_get? hwell hnode
    rwa [Path.along_eq_join hnames root hne,
      Language.ofPath_join (Path.isPlain_ofNames hnames hne)]

theorem spares_nil (noise : Noise) (node : Node) : noise.Spares [] node where
  self hne := absurd rfl hne
  above front name rest hlocation _ := by simp at hlocation

end Noise

namespace FileTree

section

variable {t : FileTree} {root : Path} {children : List (Bytes × Node)} (noise : Noise)

open Classical in
theorem enumerates_sources (hwell : (Node.dir children).WellFormed) :
    Enumerates (fun location => ∃ node, (Node.dir children).get? location = some node ∧
        noise.TakesSource root location node ∧ root.Opens location)
      (((Node.dir children).spots.filter fun spot =>
        noise.TakesSource root spot.1 spot.2 ∧ root.Opens spot.1).map Prod.fst) := by
  have hbelow := Node.enumerates_spots (.dir children) hwell.ordered fun location node =>
    noise.TakesSource root location node ∧ root.Opens location
  refine ⟨fun location => ?_, hbelow.sorted⟩
  rw [hbelow.mem_iff, and_iff_right_iff_imp]
  -- The root itself is a directory.
  rintro ⟨node, hnode, hsource, -⟩ rfl
  cases hnode
  cases hsource.notDir

theorem takesDocDir_nil_iff (hroot : root.Opens []) :
    (∃ node, (Node.dir children).get? [] = some node ∧ noise.TakesDocDir root [] node ∧
        root.Opens []) ↔
      (⟨root, .dir⟩ : Visit).isDocDir = true := by
  rw [Visit.isDocDir_iff]
  constructor
  · rintro ⟨node, -, hdoc, -⟩
    exact hdoc.name
  · intro hname
    exact ⟨_, rfl, ⟨noise.spares_nil _, rfl, hname⟩, hroot⟩

open Classical in
theorem enumerates_docDirs (hwell : (Node.dir children).WellFormed) (hopens : root.Opens []) :
    Enumerates (fun location => ∃ node, (Node.dir children).get? location = some node ∧
        noise.TakesDocDir root location node ∧ root.Opens location)
      ((if (⟨root, .dir⟩ : Visit).isDocDir then [[]] else []) ++
        ((Node.dir children).spots.filter fun spot =>
          noise.TakesDocDir root spot.1 spot.2 ∧ root.Opens spot.1).map Prod.fst) := by
  have hbelow := Node.enumerates_spots (.dir children) hwell.ordered fun location node =>
    noise.TakesDocDir root location node ∧ root.Opens location
  have hroot (location : Location)
      (h : location ∈ (if (⟨root, .dir⟩ : Visit).isDocDir then [[]] else [] : List Location)) :
      location = [] := by
    split at h
    · exact List.mem_singleton.mp h
    · cases h
  refine ⟨fun location => ?_, List.pairwise_append.mpr ⟨by split <;> simp, hbelow.sorted, ?_⟩⟩
  · rw [List.mem_append, hbelow.mem_iff]
    by_cases hlocation : location = []
    · rw [hlocation, takesDocDir_nil_iff noise hopens]
      split <;> simp [*]
    · constructor
      · rintro (hmem | hmem)
        · exact absurd (hroot location hmem) hlocation
        · exact hmem.2
      · exact fun hdoc => .inr ⟨hlocation, hdoc⟩
  · intro location hlocation later hlater
    obtain ⟨hne, -⟩ := (hbelow.mem_iff later).mp hlater
    rw [hroot location hlocation]
    cases later with
    | nil => exact absurd rfl hne
    | cons name later => exact List.nil_lt_cons name later

end

theorem opens_nil_of_linkStat {t : FileTree} {root : Path} {node : Node}
    (h : t.linkStat root = .ok node) : root.Opens [] := by
  unfold linkStat resolve at h
  cases hcheck : checkPath root with
  | error e => simp [hcheck, bind, Except.bind] at h
  | ok u =>
    exact (checkPath_eq_ok_iff.mp hcheck).2.2

theorem exists_enumerates_manifest {t : FileTree} {root : Path} {children : List (Bytes × Node)}
    (hdash : root.isDash = false) (hdir : t.linkStat root = .ok (.dir children))
    (hwell : (Node.dir children).WellFormed) (excludes : List String) :
    ∃ sources docDirs : List Location,
      Enumerates (fun location => ∃ node, (Node.dir children).get? location = some node ∧
        (Noise.ofExcludes root excludes).TakesSource root location node ∧ root.Opens location)
        sources ∧
      Enumerates (fun location => ∃ node, (Node.dir children).get? location = some node ∧
        (Noise.ofExcludes root excludes).TakesDocDir root location node ∧ root.Opens location)
        docDirs ∧
      t.manifest root excludes =
        ⟨sources.map fun location => ⟨root.along location, .ofPath (root.along location)⟩,
          docDirs.map root.along⟩ := by
  classical
  refine ⟨_, _, enumerates_sources _ hwell,
    enumerates_docDirs _ hwell (opens_nil_of_linkStat hdir), ?_⟩
  unfold manifest Manifest.ofVisits
  rw [show Noise.ofExcludes root excludes = .ofMarkers root Noise.commonMarkers excludes from rfl,
    walk_eq_spots hdash hdir hwell root Noise.commonMarkers excludes]
  generalize Noise.ofMarkers root Noise.commonMarkers excludes = noise
  congr 1
  · rw [List.filterMap_cons_none (by simp [Visit.source?]), List.filterMap_map, List.map_map,
      List.filterMap_filter, ← List.filterMap_eq_map, List.filterMap_filter]
    apply List.filterMap_congr
    intro spot _
    simp only [Noise.takesSource_iff, decide_eq_true_eq, Function.comp_apply, Visit.source?]
    split_ifs <;> simp_all
  · have hbelow : ((Node.dir children).spots.filter fun spot =>
          (⟨root.along spot.1, spot.2.kind⟩ : Visit).isDocDir &&
            decide (noise.Spares spot.1 spot.2 ∧ root.Opens spot.1)) =
        (Node.dir children).spots.filter fun spot =>
          noise.TakesDocDir root spot.1 spot.2 ∧ root.Opens spot.1 := by
      apply List.filter_congr
      intro spot _
      simp only [Noise.takesDocDir_iff, Bool.decide_and, Bool.decide_eq_true]
      ac_rfl
    rw [List.filter_cons, List.filter_map, List.filter_filter, List.map_append, ← hbelow]
    split <;> simp [Function.comp_def, Path.along]

/-- A manifest is the tree without its noise: the sources are the locations below the root that hold
no directory, have the extension of a language and are spared, in directories that can be opened, and
the documentation directories likewise, each once and in the order of the names on the way. -/
theorem manifest_eq_spared_locations (t : FileTree) (root : Path) (excludes : List String) :
    (∀ children : List (Bytes × Node), root.isDash = false → t.linkStat root = .ok (.dir children) →
      (Node.dir children).WellFormed →
      ∃ sources docDirs : List Location,
        Enumerates (fun location => ∃ node, (Node.dir children).get? location = some node ∧
          (Noise.ofExcludes root excludes).TakesSource root location node ∧ root.Opens location)
          sources ∧
        Enumerates (fun location => ∃ node, (Node.dir children).get? location = some node ∧
          (Noise.ofExcludes root excludes).TakesDocDir root location node ∧ root.Opens location)
          docDirs ∧
        t.manifest root excludes =
          ⟨sources.map fun location => ⟨root.along location, .ofPath (root.along location)⟩,
            docDirs.map root.along⟩) ∧
    (t.pathExists root = false → t.manifest root excludes = {}) := by
  refine ⟨fun children hdash hdir hwell => exists_enumerates_manifest hdash hdir hwell excludes, ?_⟩
  intro hmissing
  have hstat : ∀ node, t.stat root ≠ .ok node := by
    intro node hnode
    simp [pathExists, hnode, Except.isOk, Except.toBool] at hmissing
  have hwalk : t.walk (Noise.ofExcludes root excludes).drop root = [] := by
    unfold walk
    split
    · rfl
    · split
      · rfl
      · split
        · rename_i hdir
          exact absurd hdir (hstat _)
        · rename_i hfile
          exact absurd hfile (hstat _)
        · rfl
      · rename_i node hlink hnode
        exact absurd (stat_of_linkStat hnode fun target => hlink target) (hstat node)
  unfold manifest
  rw [hwalk]
  rfl

def shelf : List (Bytes × Node) :=
  [(Bytes.ofString "a", .dir [(Bytes.ofString "b.py", .file [])]),
    (Bytes.ofString "a-b.py", .link ⟨[]⟩),
    (Bytes.ofString "bin", .dir [(Bytes.ofString "c.py", .file [])])]

def shelved : FileTree where
  top := .dir [(Bytes.ofString "Docs", .dir shelf)]
  workingDir := []

theorem wellFormed_shelf : (Node.dir shelf).WellFormed := by
  refine ⟨⟨?_, ⟨?_, trivial, trivial⟩, ?_, trivial, ?_, ⟨?_, trivial, trivial⟩, trivial⟩,
    ?_, ⟨?_, trivial, trivial⟩, ?_, trivial, ?_, ⟨?_, trivial, trivial⟩, trivial⟩
  iterate 5 · constructor <;> decide
  iterate 5 decide

theorem manifest_eq_spared_locations_shelved :
    (∃ sources docDirs : List Location,
      [Bytes.ofString "a", Bytes.ofString "b.py"] ∈ sources ∧
      [Bytes.ofString "bin", Bytes.ofString "c.py"] ∉ sources ∧ [] ∈ docDirs ∧
      sources.Pairwise (· < ·) ∧
      (shelved.manifest (.ofString "Docs") []).docDirs =
        docDirs.map (Path.ofString "Docs").along) ∧
    shelved.manifest (.ofString "docs") [] = {} := by
  refine ⟨?_, (manifest_eq_spared_locations shelved (.ofString "docs") []).2 (by cbv)⟩
  obtain ⟨sources, docDirs, hsources, hdocDirs, hmanifest⟩ :=
    (manifest_eq_spared_locations shelved (.ofString "Docs") []).1 shelf (by decide) (by cbv)
      wellFormed_shelf
  refine ⟨sources, docDirs, ?_, ?_, ?_, hsources.sorted, by rw [hmanifest]⟩
  · have hlanguage : Language.ofPath (.ofNames [Bytes.ofString "a", Bytes.ofString "b.py"]) =
        .python := by cbv
    have hnode : (Node.dir shelf).get? [Bytes.ofString "a", Bytes.ofString "b.py"] =
        some (.file []) := by cbv
    exact (hsources.mem_iff _).mpr ⟨_, hnode, Noise.takesSource_of_unmarked _ wellFormed_shelf
      (List.cons_ne_nil _ _) hnode (by cbv) (by rw [hlanguage]; rfl), by decide⟩
  · intro hmem
    obtain ⟨node, hnode, htakes, -⟩ := (hsources.mem_iff _).mp hmem
    have hmarked : (Noise.ofExcludes (.ofString "Docs") []).isMarked
        (.ofNames [Bytes.ofString "bin", Bytes.ofString "c.py"]) = true := by cbv
    have hunmarked := (Noise.spares_nil_iff (.ofString "Docs") Noise.commonMarkers
      (List.cons_ne_nil _ _) (Node.isName_of_get? wellFormed_shelf hnode) node).mp htakes.spared
    exact absurd (hmarked.symm.trans hunmarked) (by decide)
  · have hname : ((Path.ofString "Docs").along []).fileName? = some (Bytes.ofString "Docs") := by
      cbv
    exact (hdocDirs.mem_iff []).mpr
      ⟨_, rfl, ⟨Noise.spares_nil _ _, rfl, Bytes.ofString "Docs", hname, by decide⟩, by decide⟩

def housed (house name content : Bytes) : FileTree where
  top := .dir [(house, .dir [(name, .file content)])]
  workingDir := []

section

variable {house name : Bytes} (hhouse : Path.IsName house) (hname : Path.IsName name)
  (content : Bytes)

include hhouse hname

theorem wellFormed_housed : (housed house name content).top.WellFormed := by
  refine ⟨⟨hhouse, ⟨hname, trivial, trivial⟩, trivial⟩, ?_, ⟨?_, trivial, trivial⟩, trivial⟩
  · simp
  · simp

theorem get?_housed {location : Location} {node : Node} (hne : location ≠ [])
    (h : (housed house name content).top.get? location = some node) :
    (location, node) = ([house], .dir [(name, .file content)]) ∨
      (location, node) = ([house, name], .file content) := by
  have hmem := (Node.mem_spots_iff _
    (wellFormed_housed hhouse hname content).ordered location node).mpr ⟨hne, h⟩
  simpa [housed, Node.spots, Node.spotsOf] using hmem

theorem link_notMem_housed (location : Location) (target : Path) :
    (housed house name content).top.get? location ≠ some (.link target) := by
  intro hlink
  by_cases hne : location = []
  · rw [hne] at hlink
    cases hlink
  · rcases get?_housed hhouse hname content hne hlink with h | h
    · cases h
    · cases h

end

/-- Whether noise spares a source at a location below `root`, and the manifest lists none. -/
structure HidesSource (t : FileTree) (root : Path) (location : Location) : Prop where
  spelled : root.bytes ≠ [] ∧ root.bytes ≠ Bytes.ofString "-"
  takes : ∃ children node, t.linkStat root = .ok (.dir children) ∧ (Node.dir children).WellFormed ∧
    (Node.dir children).get? location = some node ∧
    (Noise.ofExcludes root []).TakesSource root location node
  unlisted : (t.manifest root []).sources = []

section

variable {house name : Bytes} (hhouse : Path.IsName house) (hname : Path.IsName name) {n : Nat}

include hhouse

theorem not_opens_dotted (hlong : maxPath ≤ 2 * n + house.length) (name : Bytes) :
    ¬ (Path.dotted n).Opens [house, name] := by
  have hfront := (Path.dotted n).length_le_frontOf
  have hjoin : (Path.dotted n).along [house, name].dropLast = (Path.dotted n).join ⟨house⟩ := rfl
  rw [Path.length_dotted] at hfront
  rw [Path.Opens, hjoin, Path.bytes_join hhouse, List.length_append]
  omega

include hname

theorem linkStat_dotted_housed (hshort : 2 * (n + 1) < maxPath) (content : Bytes) :
    (housed house name content).linkStat (.dotted (n + 1)) =
      .ok (housed house name content).top := by
  have hdir : (housed house name content).IsDirAt [] := ⟨_, rfl⟩
  exact linkStat_of_leadsTo (link_notMem_housed hhouse hname content) (checkPath_dotted hshort)
    (leadsTo_dotted hdir (n + 1)) rfl

theorem hidesSource_dotted (hlong : maxPath ≤ 2 * (n + 1) + house.length)
    (hshort : 2 * (n + 1) < maxPath) (content : Bytes)
    (hunmarked : (Noise.ofExcludes ⟨[]⟩ []).isMarked (.ofNames [house, name]) = false)
    (hknown : (Language.ofPath (.ofNames [house, name])).isKnown = true) :
    (housed house name content).HidesSource (.dotted (n + 1)) [house, name] := by
  have hwell := wellFormed_housed hhouse hname content
  have hstat := linkStat_dotted_housed hhouse hname hshort content
  have hnode : (housed house name content).top.get? [house, name] = some (.file content) := by
    simp [housed, Node.get?, Node.child?]
  refine ⟨Path.spelled_dotted_succ n, ⟨_, _, hstat, hwell, hnode, Noise.takesSource_of_unmarked _
    hwell (List.cons_ne_nil _ _) hnode hunmarked hknown⟩, ?_⟩
  obtain ⟨sources, docDirs, hsources, -, hmanifest⟩ :=
    exists_enumerates_manifest (Path.isDash_dotted_succ n) hstat hwell []
  have hnone : sources = [] := by
    rw [List.eq_nil_iff_forall_not_mem]
    intro location hlocation
    obtain ⟨node, hnode, htakes, hopens⟩ := (hsources.mem_iff location).mp hlocation
    have hne : location ≠ [] := by
      rintro rfl
      cases hnode
      cases htakes.notDir
    rcases get?_housed hhouse hname content hne hnode with h | h
    · cases h
      cases htakes.notDir
    · cases h
      exact not_opens_dotted hhouse hlong _ hopens
  rw [hmanifest, hnone]
  rfl

end

/-- A source in a directory that is called as standard input is spelled, and one in a directory with
a path that is too long. -/
theorem hidesSource_dash_and_deep :
    (housed (Bytes.ofString "-") (Bytes.ofString "a.py") []).HidesSource (.ofString "-/")
      [Bytes.ofString "a.py"] ∧
    (housed (Bytes.ofString "lib") (Bytes.ofString "a.py") []).HidesSource (.dotted 2047)
      [Bytes.ofString "lib", Bytes.ofString "a.py"] := by
  have hname : Path.IsName (Bytes.ofString "a.py") := by constructor <;> decide
  constructor
  · have hdash : Path.IsName (Bytes.ofString "-") := by constructor <;> decide
    have hchild : (housed (Bytes.ofString "-") (Bytes.ofString "a.py") []).top.get?
        [Bytes.ofString "-"] = some (.dir [(Bytes.ofString "a.py", .file [])]) := by cbv
    have hwell := (wellFormed_housed hdash hname []).get? hchild
    have hlanguage : Language.ofPath (.ofNames [Bytes.ofString "a.py"]) = .python := by cbv
    have htakes := Noise.takesSource_of_unmarked (.ofString "-/") hwell (List.cons_ne_nil _ _)
      (rfl : Node.get? _ [Bytes.ofString "a.py"] = some (.file [])) (by cbv)
      (by rw [hlanguage]; rfl)
    exact ⟨by decide, ⟨_, _, by cbv, hwell, rfl, htakes⟩, by rw [manifest_of_isDash (by decide)]⟩
  · have hlib : Path.IsName (Bytes.ofString "lib") := by constructor <;> decide
    have hlanguage : Language.ofPath (.ofNames [Bytes.ofString "lib", Bytes.ofString "a.py"]) =
        .python := by cbv
    exact hidesSource_dotted hlib hname (by decide) (by decide) [] (by cbv)
      (by rw [hlanguage]; rfl)

end FileTree

end ApiAtlas
