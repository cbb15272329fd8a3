import ApiAtlas.Proofs.Extraction
import ApiAtlas.Proofs.PageRun
import ApiAtlas.Proofs.Survey

/-!
Running the pipeline twice. Pages and the directories they are in are never sources, so a second run
lists what the first one listed and reads what it read; it comes to the same pages, and those are
there already.
-/
namespace ApiAtlas

def IsPageName (name : Bytes) : Prop := ∃ front, name = front ++ [Path.dot, 0x6D, 0x64]

theorem isPageName_pageName (name : String) : IsPageName (pageName name) :=
  ⟨_, pageName_eq name⟩

theorem splitName_page (front : Bytes) :
    (Path.splitName (front ++ [Path.dot, 0x6D, 0x64])).2 =
      if front = [] then none else some [0x6D, 0x64] := by
  have hafter : ((front ++ [Path.dot, 0x6D, 0x64]).reverse.takeWhile (· ≠ Path.dot)).reverse =
      [0x6D, 0x64] := by
    simp [Path.dot]
  have hbefore : (front ++ [Path.dot, 0x6D, 0x64]).take
      ((front ++ [Path.dot, 0x6D, 0x64]).length - 2 - 1) = front := by
    simp
  unfold Path.splitName
  simp only [hafter, List.length_cons, List.length_nil]
  rw [hbefore]
  by_cases hfront : front = []
  · simp [hfront]
  · simp [hfront]

theorem Language.ofPath_page {p : Path} {name : Bytes} (hp : p.fileName? = some name)
    (hname : IsPageName name) : Language.ofPath p = .unknown := by
  obtain ⟨front, rfl⟩ := hname
  have hdecode : Utf8.decode [0x6D, 0x64] = some ['m', 'd'] := by decide
  have hmd : Language.ofExtension (String.ofList ['m', 'd']) = .unknown := by cbv
  unfold Language.ofPath Path.extension?
  rw [hp, Option.bind_some, splitName_page]
  by_cases hfront : front = []
  · simp [hfront]
  · simp [hfront, hdecode, hmd]

namespace FileTree

def IsPageLocation (location : Location) : Prop :=
  ∃ front name, location = front ++ [name] ∧ IsPageName name

/-- A later tree with more directories and other pages, and otherwise the same. -/
structure Grows (t later : FileTree) : Prop where
  keeps : t.Keeps later
  faces : ∀ location, ¬ IsPageLocation location →
    later.faceAt location = t.faceAt location ∨
      t.faceAt location = none ∧ later.faceAt location = some .dir

theorem Grows.refl (t : FileTree) : t.Grows t := ⟨.refl t, fun _ _ => .inl rfl⟩

theorem Grows.trans {t later latest : FileTree} (h : t.Grows later) (h' : later.Grows latest) :
    t.Grows latest where
  keeps := h.keeps.trans h'.keeps
  faces location hpage := by
    rcases h.faces location hpage with hsame | ⟨hnone, hdir⟩ <;>
      rcases h'.faces location hpage with hsame' | ⟨hnone', hdir'⟩ <;> simp_all

theorem Grows.faceAt_iff {t later : FileTree} (h : t.Grows later) {location : Location}
    (hpage : ¬ IsPageLocation location) {face : Face} (hface : face ≠ .dir) :
    later.faceAt location = some face ↔ t.faceAt location = some face := by
  rcases h.faces location hpage with hsame | ⟨hnone, hdir⟩
  · rw [hsame]
  · rw [hnone, hdir]
    simp [hface.symm]

theorem grows_makeDirs (t : FileTree) (p : Path) : t.Grows (t.makeDirs p).1 := by
  have hstep (mid : FileTree) (p : Path) (later : FileTree) (h : t.Grows mid)
      (hmake : mid.makeDir p = .ok later) : t.Grows later := by
    obtain ⟨there, name, htakes, rfl⟩ := makeDir_eq_ok_iff.mp hmake
    obtain ⟨front, left, -, hleads⟩ := htakes.way
    refine h.trans ⟨keeps_makeDir hmake, fun location _ => ?_⟩
    rw [faceAt_putAt hleads.isDirAt (.inl htakes.free) (fun n => rfl)]
    split
    · rename_i heq
      rw [heq]
      exact .inr ⟨(faceAt_eq_none_iff _ _).mpr htakes.free, rfl⟩
    · exact .inl rfl
  exact makeDirs_induction (fun q _ mid later => hstep mid q later) (.refl t)

theorem grows_putFiles {t : FileTree} {there : Location} {files : List (Bytes × Bytes)}
    (hdir : t.IsDirAt there) (htakes : ∀ file ∈ files, t.TakesFile (there ++ [file.1]))
    (hpages : ∀ file ∈ files, IsPageName file.1) : t.Grows (t.putFiles there files) := by
  obtain ⟨hkeep, hfaces⟩ := putFiles_run hdir htakes
  refine ⟨hkeep, fun location hpage => .inl ?_⟩
  rw [hfaces]
  rcases faceAfter_cases there files location with hsame | ⟨file, hfile, hlocation, -⟩
  · exact hsame _
  · exact absurd ⟨there, file.1, hlocation, hpages file hfile⟩ hpage

theorem resolveFrom_names {t : FileTree}
    (hlinks : ∀ location target, t.top.get? location ≠ some (.link target)) (links : Nat)
    {here location : Location} {node : Node} (hnames : ∀ name ∈ location, Path.IsName name)
    (h : t.top.get? (here ++ location) = some node) :
    t.resolveFrom .look links here location =
      if ∀ name ∈ location, name.length ≤ maxName then .ok (.node (here ++ location) node)
      else .error .nameTooLong := by
  induction location generalizing here with
  | nil =>
    rw [List.append_nil] at h ⊢
    rw [resolveFrom_nil, h]
    simp
  | cons name rest ih =>
    rw [List.forall_mem_cons] at hnames
    have hdir := isDirAt_of_append h (List.cons_ne_nil name rest)
    rw [List.append_cons] at h ⊢
    simp only [List.forall_mem_cons]
    by_cases hlong : maxName < name.length
    · rw [resolveFrom_cons, next_of_name hdir hnames.1.not_void hnames.1.ne_dots (by simp),
        if_pos hlong, if_neg fun hshort => absurd hshort.1 (Nat.not_le.mpr hlong)]
    · cases hnode : t.top.get? (here ++ [name]) with
      | none =>
        rw [Node.get?_append, hnode] at h
        cases h
      | some child =>
        have hdown : t.Moves .look links here name rest links (here ++ [name]) rest := by
          refine .down ⟨hnames.1.not_void, hnames.1.ne_dots, by simp, Nat.not_lt.mp hlong⟩ hnode ?_
          rintro target rfl
          exact hlinks _ target hnode
        rw [hdown.resolveFrom_eq, ih hnames.2 h]
        simp only [Nat.not_lt.mp hlong, true_and]

theorem stat_along {t : FileTree}
    (hlinks : ∀ location target, t.top.get? location ≠ some (.link target)) {root : Path}
    {left : Nat} {there location : Location} {node : Node} (hleads : t.LeadsTo root left there)
    (hne : location ≠ []) (hnames : ∀ name ∈ location, Path.IsName name)
    (h : t.top.get? (there ++ location) = some node) :
    t.stat (root.along location) = (checkPath (root.along location)).bind fun _ =>
      if ∀ name ∈ location, name.length ≤ maxName then .ok node else .error .nameTooLong := by
  have hstart : startOf t.workingDir (root.along location) = startOf t.workingDir root := by
    unfold startOf
    rw [Path.isAbsolute_along root hnames]
  have hsteps : steps (root.along location) = root.way ++ location := by
    rcases List.eq_nil_or_concat location with hnil | ⟨front, name, hlocation⟩
    · exact absurd hnil hne
    · rw [List.concat_eq_append] at hlocation
      subst hlocation
      rw [List.forall_mem_append, List.forall_mem_singleton] at hnames
      rw [Path.along_concat, steps_join hnames.2, Path.way_along root hnames.1, List.append_assoc]
  unfold stat resolve
  rw [hstart, hsteps, hleads.resolveFrom_behind (.inl rfl), resolveFrom_names hlinks left hnames h]
  cases checkPath (root.along location) with
  | error e => rfl
  | ok u =>
    simp only [bind, Except.bind]
    split_ifs <;> rfl

theorem readText_congr {t later : FileTree} {p : Path} (h : later.stat p = t.stat p) :
    later.readText p = t.readText p := by
  unfold readText readBytes
  rw [h]

end FileTree

theorem Node.isDir_iff_face (node : Node) : node.isDir = true ↔ node.face = .dir := by
  cases node <;> simp [isDir, face]

theorem Noise.TakesSource.of_face {noise : Noise} {root : Path} {location : Location}
    {node node' : Node} (h : noise.TakesSource root location node)
    (hface : node'.face = node.face) : noise.TakesSource root location node' := by
  have hdir : node'.isDir = node.isDir := by
    rw [Bool.eq_iff_iff, Node.isDir_iff_face, Node.isDir_iff_face, hface]
  refine ⟨⟨?_, h.spared.above⟩, hdir.trans h.notDir, h.known⟩
  rw [hdir]
  exact h.spared.self

namespace FileTree

theorem not_isPageLocation_of_takesSource {t : FileTree} (hwell : t.top.WellFormed) {noise : Noise}
    {root : Path} {there location : Location} {node : Node} (hdir : t.IsDirAt there)
    (hnode : t.top.get? (there ++ location) = some node)
    (h : noise.TakesSource root location node) : ¬ IsPageLocation (there ++ location) := by
  rintro ⟨front, name, heq, hpage⟩
  have hname : Path.IsName name :=
    Node.isName_of_get? hwell hnode name (by rw [heq]; simp)
  rcases List.eq_nil_or_concat location with rfl | ⟨front', name', rfl⟩
  · obtain ⟨children, hchildren⟩ := hdir
    rw [List.append_nil, hchildren] at hnode
    cases hnode
    cases h.notDir
  · rw [List.concat_eq_append, ← List.append_assoc] at heq
    obtain ⟨-, rfl⟩ := List.append_inj' heq rfl |>.imp_right fun h => List.singleton_inj.mp h
    have hknown := h.known
    rw [List.concat_eq_append,
      Language.ofPath_page (Path.fileName?_along hname root front') hpage] at hknown
    cases hknown

section

variable {t later : FileTree} (hwell : t.top.WellFormed) (hlater : later.top.WellFormed)
  (hgrows : t.Grows later) {root : Path} {there : Location}

include hwell hgrows

include hlater in
theorem takesSource_iff_of_grows (hdir : t.IsDirAt there) (noise : Noise) (location : Location) :
    (∃ node, later.top.get? (there ++ location) = some node ∧
        noise.TakesSource root location node) ↔
      ∃ node, t.top.get? (there ++ location) = some node ∧
        noise.TakesSource root location node := by
  have hface {node : Node} (h : noise.TakesSource root location node) : node.face ≠ .dir := by
    rw [Ne, ← Node.isDir_iff_face, h.notDir]
    exact Bool.false_ne_true
  have hfound (tree : FileTree) {node : Node}
      (hnode : tree.top.get? (there ++ location) = some node) :
      tree.faceAt (there ++ location) = some node.face := by
    unfold faceAt
    rw [hnode]
    rfl
  constructor
  · rintro ⟨node, hnode, h⟩
    have hpage := not_isPageLocation_of_takesSource hlater (hgrows.keeps.dirs there hdir) hnode h
    obtain ⟨node', hnode', hsame⟩ := Option.map_eq_some_iff.mp
      ((hgrows.faceAt_iff hpage (hface h)).mp (hfound later hnode))
    exact ⟨node', hnode', h.of_face hsame⟩
  · rintro ⟨node, hnode, h⟩
    have hpage := not_isPageLocation_of_takesSource hwell hdir hnode h
    obtain ⟨node', hnode', hsame⟩ := Option.map_eq_some_iff.mp
      ((hgrows.faceAt_iff hpage (hface h)).mpr (hfound t hnode))
    exact ⟨node', hnode', h.of_face hsame⟩

theorem readText_of_grows
    (hlinks : ∀ location target, t.top.get? location ≠ some (.link target)) {left : Nat}
    (hleads : t.LeadsTo root left there) {noise : Noise} {location : Location} {node : Node}
    (hnode : t.top.get? (there ++ location) = some node)
    (h : noise.TakesSource root location node) :
    later.readText (root.along location) = t.readText (root.along location) := by
  cases node with
  | dir children => cases h.notDir
  | link target => exact absurd hnode (hlinks _ target)
  | file content =>
    have hnames : ∀ name ∈ location, Path.IsName name :=
      fun name hname => Node.isName_of_get? hwell hnode name (List.mem_append_right _ hname)
    have hne : location ≠ [] := by
      rintro rfl
      obtain ⟨children, hchildren⟩ := hleads.isDirAt
      rw [List.append_nil, hchildren] at hnode
      cases hnode
    have hpage := not_isPageLocation_of_takesSource hwell hleads.isDirAt hnode h
    have hnode' := (faceAt_eq_file_iff _ _ _).mp ((hgrows.faceAt_iff hpage (by simp)).mpr
      ((faceAt_eq_file_iff _ _ _).mpr hnode))
    apply readText_congr
    rw [stat_along hlinks hleads hne hnames hnode, stat_along
      (hgrows.keeps.noLinks hlinks) (LeadsTo.keep hgrows.keeps hleads) hne hnames hnode']

end

theorem exists_enumerates_sources {t : FileTree} (hwell : t.top.WellFormed)
    (hlinks : ∀ location target, t.top.get? location ≠ some (.link target)) {root : Path}
    {left : Nat} {there : Location} (hdash : root.isDash = false) (hcheck : checkPath root = .ok ())
    (hleads : t.LeadsTo root left there) (excludes : List String) :
    ∃ sources : List Location,
      Enumerates (fun location => ∃ node, t.top.get? (there ++ location) = some node ∧
        (Noise.ofExcludes root excludes).TakesSource root location node ∧ root.Opens location)
        sources ∧
      (t.manifest root excludes).sources =
        sources.map fun location => ⟨root.along location, .ofPath (root.along location)⟩ := by
  obtain ⟨children, hchildren⟩ := hleads.isDirAt
  obtain ⟨sources, docDirs, hsources, -, hmanifest⟩ := exists_enumerates_manifest hdash
    (linkStat_of_leadsTo hlinks hcheck hleads hchildren) (hwell.get? hchildren) excludes
  have hbelow (location : Location) :
      (Node.dir children).get? location = t.top.get? (there ++ location) := by
    rw [Node.get?_append, hchildren, Option.bind_some]
  simp only [hbelow] at hsources
  exact ⟨sources, hsources, by rw [hmanifest]⟩

/-- The sources of a tree that has grown are those it had, and they read as they did. -/
theorem sources_of_grows {t later : FileTree} (hwell : t.top.WellFormed)
    (hlater : later.top.WellFormed) (hgrows : t.Grows later)
    (hlinks : ∀ location target, t.top.get? location ≠ some (.link target)) {root : Path}
    (hroot : t.isDir root = true) (excludes : List String) :
    (later.manifest root excludes).sources = (t.manifest root excludes).sources ∧
      ∀ s ∈ (t.manifest root excludes).sources, later.readText s.path = t.readText s.path := by
  cases hdash : root.isDash with
  | true =>
    rw [manifest_of_isDash hdash, manifest_of_isDash hdash]
    exact ⟨rfl, List.forall_mem_nil _⟩
  | false =>
    obtain ⟨hcheck, left, there, hleads⟩ := isDir_iff.mp hroot
    obtain ⟨sources, hsources, hmanifest⟩ :=
      exists_enumerates_sources hwell hlinks hdash hcheck hleads excludes
    obtain ⟨sources', hsources', hmanifest'⟩ := exists_enumerates_sources hlater
      (hgrows.keeps.noLinks hlinks) hdash hcheck (LeadsTo.keep hgrows.keeps hleads) excludes
    have hsame : sources' = sources := by
      refine hsources'.eq hsources fun location => ?_
      simp only [← and_assoc, exists_and_right]
      rw [takesSource_iff_of_grows hwell hlater hgrows hleads.isDirAt]
    rw [hmanifest, hmanifest', hsame]
    refine ⟨rfl, fun s hs => ?_⟩
    obtain ⟨location, hlocation, rfl⟩ := List.mem_map.mp hs
    obtain ⟨node, hnode, htakes, -⟩ := (hsources.mem_iff location).mp hlocation
    exact readText_of_grows hwell hgrows hlinks hleads hnode htakes

end FileTree

theorem Registry.extract_congr (r : Registry) {t t' : FileTree} {m m' : Manifest}
    (hsources : m'.sources = m.sources)
    (hread : ∀ s ∈ m.sources, t'.readText s.path = t.readText s.path) (parallel parallel' : Bool) :
    r.extract t' parallel' m' = r.extract t parallel m := by
  have hgroups : m'.groups = m.groups := by
    unfold Manifest.groups
    rw [hsources]
  rw [extract_eq_concat, extract_eq_concat, hgroups]
  apply congrArg Report.concat
  apply List.map_congr_left
  intro g hg
  apply congrArg Report.concat
  apply List.map_congr_left
  intro path hpath
  rw [m.sorts_groups.files g hg] at hpath
  obtain ⟨s, hs, rfl⟩ := List.mem_map.mp hpath
  have hsame := hread s (List.mem_of_mem_filter hs)
  cases r.resolve g.language with
  | stub l => rfl
  | grammar grammar =>
    unfold Scanner.reportFile
    simp only [hsame]

namespace PageWriter

theorem isPageName_of_mem_filesBy {w : PageWriter} {origins : Origins} {entries : List Entry}
    {file : Bytes × Bytes} (h : file ∈ w.filesBy origins entries) : IsPageName file.1 := by
  have hfst : file.1 ∈ (w.filesBy origins entries).map Prod.fst := List.mem_map_of_mem h
  rw [map_fst_filesBy] at hfst
  obtain ⟨name, -, heq⟩ := List.mem_map.mp hfst
  exact heq ▸ isPageName_pageName name

theorem grows_writeBy {w : PageWriter} {origins : Origins} {t later : FileTree}
    (hlinks : ∀ location target, t.top.get? location ≠ some (.link target)) {entries : List Entry}
    {dir : Path} {generated : List Path}
    (h : w.writeBy origins t entries dir = (later, .ok generated)) :
    t.Grows later ∧ (t.top.WellFormed → later.top.WellFormed) := by
  obtain ⟨-, made, hmade, hwritten⟩ := writeBy_eq_ok_iff.mp h
  have hgrows := t.grows_makeDirs dir
  have hwell (h : t.top.WellFormed) := FileTree.wellFormed_makeDirs h dir
  rw [hmade] at hgrows hwell
  have hnames (file : Bytes × Bytes) (hfile : file ∈ w.filesBy origins entries) :
      Path.IsName file.1 := isName_of_mem_filesBy hfile
  have hpages (file : Bytes × Bytes) (hfile : file ∈ w.filesBy origins entries) :
      IsPageName file.1 := isPageName_of_mem_filesBy hfile
  rcases FileTree.writePages_cases hnames
      (fun _ _ _ _ _ => hgrows.keeps.noLinks hlinks _) hwritten with
    ⟨-, rfl⟩ | ⟨left, there, hleads, hroom, rfl⟩
  · exact ⟨hgrows, hwell⟩
  · refine ⟨hgrows.trans ?_, fun h => FileTree.wellFormed_putFiles (hwell h) hnames⟩
    exact FileTree.grows_putFiles hleads.isDirAt (fun file hfile => (hroom file hfile).takes) hpages

end PageWriter

namespace FileTree

/-- Running the pipeline again changes nothing: it lists the same sources, comes to the same report,
writes the same pages and leaves the tree as it is. -/
theorem rerun_changes_nothing (r : Registry) (w : PageWriter) (t later : FileTree)
    (root out : Path) (excludes : List String) (parallel parallel' : Bool) (generated : List Path)
    (hwell : t.top.WellFormed)
    (hlinks : ∀ location target, t.top.get? location ≠ some (.link target))
    (hroot : t.isDir root = true)
    (h : w.write t (r.extract t parallel (t.manifest root excludes)).entries out =
      (later, .ok generated)) :
    (later.manifest root excludes).sources = (t.manifest root excludes).sources ∧
      r.extract later parallel' (later.manifest root excludes) =
        r.extract t parallel (t.manifest root excludes) ∧
      w.write later (r.extract later parallel' (later.manifest root excludes)).entries out =
        (later, .ok generated) := by
  obtain ⟨hgrows, hlater⟩ := PageWriter.grows_writeBy hlinks h
  obtain ⟨hsources, hread⟩ := sources_of_grows hwell (hlater hwell) hgrows hlinks hroot excludes
  have hreport := r.extract_congr hsources hread parallel parallel'
  refine ⟨hsources, hreport, ?_⟩
  rw [hreport]
  exact PageWriter.writeBy_again hwell hlinks h

def lone (name content : Bytes) : FileTree where
  top := .dir [(Bytes.ofString "r", .dir [(name, .file content)])]
  workingDir := []

section

variable {name : Bytes} (hname : Path.IsName name) (content : Bytes)

include hname

theorem wellFormed_lone : (lone name content).top.WellFormed :=
  wellFormed_housed (by constructor <;> decide) hname content

theorem link_notMem_lone (location : Location) (target : Path) :
    (lone name content).top.get? location ≠ some (.link target) :=
  link_notMem_housed (by constructor <;> decide) hname content location target

omit hname in
theorem linkStat_lone : (lone name content).linkStat (.ofString "r") =
    .ok (.dir [(name, .file content)]) := by cbv

theorem manifest_lone (hmarked : (Noise.ofExcludes (.ofString "r") []).isMarked ⟨name⟩ = false)
    (hknown : (Language.ofPath ⟨name⟩).isKnown = true) :
    (lone name content).manifest (.ofString "r") [] =
      ⟨[⟨(Path.ofString "r").join ⟨name⟩, .ofPath ⟨name⟩⟩], []⟩ := by
  have hdrop : (Noise.ofExcludes (.ofString "r") []).drop ⟨name⟩ false = false := by
    rw [← Bool.not_eq_true, Noise.drop_nil_iff, hmarked]
    exact Bool.false_ne_true
  have hopen : (Path.ofString "r").bytes.length < maxPath := by decide
  have hbelow : (⟨[]⟩ : Path).below name = ⟨name⟩ := rfl
  have hdocs : (⟨.ofString "r", .dir⟩ : Visit).isDocDir = false := by cbv
  have hfile : (⟨(Path.ofString "r").join ⟨name⟩, .file⟩ : Visit).isDocDir = false := by
    simp [Visit.isDocDir]
  have hlanguage : Language.ofPath ((Path.ofString "r").join ⟨name⟩) = .ofPath ⟨name⟩ :=
    Language.ofPath_join (Path.isPlain_name hname) _
  unfold manifest walk
  rw [if_neg (by decide), linkStat_lone]
  simp [Node.visits, Node.visitsOf, hopen, hbelow, Node.isDir, hdrop, Node.kind, Manifest.ofVisits,
    Visit.source?, hlanguage, hknown, hdocs, hfile]

end

theorem rerun_changes_nothing_lone :
    ∃ later, PageWriter.namingWriter.write (lone (Bytes.ofString "a.rb") [])
        (Registry.standard.extract (lone (Bytes.ofString "a.rb") []) false
          ((lone (Bytes.ofString "a.rb") []).manifest (.ofString "r") [])).entries
        (.ofString "r/docs") = (later, .ok [.ofString "r/docs/a.rb.md"]) ∧
      PageWriter.namingWriter.write later
        (Registry.standard.extract later true (later.manifest (.ofString "r") [])).entries
        (.ofString "r/docs") = (later, .ok [.ofString "r/docs/a.rb.md"]) := by
  have hname : Path.IsName (Bytes.ofString "a.rb") := by constructor <;> decide
  have hlanguage : Language.ofPath ⟨Bytes.ofString "a.rb"⟩ = .ruby := by cbv
  have hmanifest := manifest_lone hname [] (by cbv) (by rw [hlanguage]; rfl)
  rw [hlanguage] at hmanifest
  have hok : (PageWriter.namingWriter.write (lone (Bytes.ofString "a.rb") [])
      (Registry.standard.extract (lone (Bytes.ofString "a.rb") []) false
        ((lone (Bytes.ofString "a.rb") []).manifest (.ofString "r") [])).entries
      (.ofString "r/docs")).2 = .ok [.ofString "r/docs/a.rb.md"] := by
    rw [hmanifest]
    cbv
  generalize hrun : PageWriter.namingWriter.write _ _ _ = run at hok
  obtain ⟨later, generated⟩ := run
  subst hok
  exact ⟨later, rfl, (rerun_changes_nothing Registry.standard PageWriter.namingWriter _ later
    (.ofString "r") (.ofString "r/docs") [] false true _ (wellFormed_lone hname [])
    (link_notMem_lone hname []) (by cbv) hrun).2.2⟩

end FileTree

end ApiAtlas
