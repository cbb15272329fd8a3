import ApiAtlas.Proofs.FileTree.Writing
import ApiAtlas.Proofs.PageRun

/-!
One file more. Two trees that differ in a single file have the same directories and links, so a path
leads to the same place in both, save that it can end at that file in one and find its name free, or
nothing at all, in the other. Directories and pages that can be made beside the file can be made
without it.
-/
namespace ApiAtlas.FileTree

/-- `more` has one file more than `t`, at a location where `t` has nothing. -/
structure Plus (t more : FileTree) (extra : Location) (content : Bytes) : Prop where
  workingDir : more.workingDir = t.workingDir
  free : t.faceAt extra = none
  file : more.faceAt extra = some (.file content)
  faceAt : ∀ location, location ≠ extra → more.faceAt location = t.faceAt location

variable {t more : FileTree} {extra : Location} {content : Bytes}

theorem plus_putAt {there : Location} {name : Bytes} (hdir : t.IsDirAt there)
    (hfree : t.top.get? (there ++ [name]) = none) (content : Bytes) :
    t.Plus (t.putAt (there ++ [name]) (.file content)) (there ++ [name]) content where
  workingDir := rfl
  free := (t.faceAt_eq_none_iff _).mpr hfree
  file := by
    rw [faceAt_putAt hdir (.inl hfree) (child?_file content), if_pos rfl]
    rfl
  faceAt location hne := by
    rw [faceAt_putAt hdir (.inl hfree) (child?_file content), if_neg hne]

namespace Plus

theorem extra_ne_nil (h : t.Plus more extra content) : extra ≠ [] := by
  rintro rfl
  have hnone := h.free
  simp [FileTree.faceAt, Node.get?] at hnone

theorem faceAt_iff (h : t.Plus more extra content) {face : Face}
    (hface : ∀ content, face ≠ .file content) (location : Location) :
    more.faceAt location = some face ↔ t.faceAt location = some face := by
  by_cases hextra : location = extra
  · rw [hextra, h.free, h.file]
    constructor
    · intro heq
      exact absurd (Option.some.inj heq).symm (hface content)
    · intro heq
      cases heq
  · rw [h.faceAt location hextra]

theorem isDirAt_iff (h : t.Plus more extra content) (location : Location) :
    more.IsDirAt location ↔ t.IsDirAt location := by
  rw [← faceAt_eq_dir_iff, ← faceAt_eq_dir_iff]
  exact h.faceAt_iff (fun _ heq => by cases heq) location

theorem link_iff (h : t.Plus more extra content) (location : Location) (target : Path) :
    more.top.get? location = some (.link target) ↔ t.top.get? location = some (.link target) := by
  rw [← faceAt_eq_link_iff, ← faceAt_eq_link_iff]
  exact h.faceAt_iff (fun _ heq => by cases heq) location

theorem keeps (h : t.Plus more extra content) : t.Keeps more where
  workingDir := h.workingDir
  dirs location := (h.isDirAt_iff location).mpr
  links := h.link_iff

theorem keeps_back (h : t.Plus more extra content) : more.Keeps t where
  workingDir := h.workingDir.symm
  dirs location := (h.isDirAt_iff location).mp
  links location target := (h.link_iff location target).symm

theorem leadsTo_iff (h : t.Plus more extra content) {dir : Path} {left : Nat} {there : Location} :
    more.LeadsTo dir left there ↔ t.LeadsTo dir left there :=
  ⟨LeadsTo.keep h.keeps_back, LeadsTo.keep h.keeps⟩

theorem isDir_eq (h : t.Plus more extra content) (p : Path) : more.isDir p = t.isDir p := by
  rw [Bool.eq_iff_iff]
  exact ⟨isDir_keep h.keeps_back, isDir_keep h.keeps⟩

theorem takesFile (h : t.Plus more extra content) {location : Location}
    (htakes : more.TakesFile location) : t.TakesFile location := by
  rw [takesFile_iff] at htakes ⊢
  by_cases hextra : location = extra
  · rw [hextra]
    exact .inl h.free
  · rw [← h.faceAt location hextra]
    exact htakes

theorem putAt (h : t.Plus more extra content) {there : Location} {name : Bytes}
    (hdir : more.IsDirAt there) (htakes : more.TakesFile (there ++ [name]))
    (hne : there ++ [name] ≠ extra) {new : Node} (hnew : ∀ n, new.child? n = none) :
    (t.putAt (there ++ [name]) new).Plus (more.putAt (there ++ [name]) new) extra content := by
  have hface := faceAt_putAt ((h.isDirAt_iff there).mp hdir) (h.takesFile htakes) hnew
  have hface' := faceAt_putAt hdir htakes hnew
  refine ⟨h.workingDir, ?_, ?_, ?_⟩
  · rw [hface, if_neg hne.symm, h.free]
  · rw [hface', if_neg hne.symm, h.file]
  · intro location hlocation
    rw [hface, hface', h.faceAt location hlocation]

end Plus

/-- What a path finds in a tree, and what it finds in one with a file more. -/
inductive Finds (extra : Location) : Except IoError Spot → Except IoError Spot → Prop where
  | node {location : Location} (a b : Node) (hne : location ≠ extra) :
      Finds extra (.ok (.node location a)) (.ok (.node location b))
  | vacant (dir : Location) (name : Bytes) :
      Finds extra (.ok (.vacant dir name)) (.ok (.vacant dir name))
  /-- The path is that of the file. -/
  | taken {dir : Location} {name : Bytes} (b : Node) (heq : dir ++ [name] = extra) :
      Finds extra (.ok (.vacant dir name)) (.ok (.node extra b))
  | error (e : IoError) : Finds extra (.error e) (.error e)
  /-- The file stands in the way. -/
  | blocked : Finds extra (.error .notFound) (.error .notDirectory)

/-- A path finds the same in both trees, the file and what would be below it apart. -/
theorem Plus.finds (h : t.Plus more extra content) {links : Nat} {here : Location}
    {parts : List Bytes} (hstart : here = extra → parts ≠ []) :
    Finds extra (t.resolveFrom .look links here parts)
      (more.resolveFrom .look links here parts) := by
  induction links, here, parts using resolveFrom_induction t .look with
  | nil links here =>
    have hsame := h.faceAt here fun heq => hstart heq rfl
    rw [resolveFrom_nil, resolveFrom_nil]
    cases hnode : t.top.get? here with
    | none =>
      rw [(t.faceAt_eq_none_iff here).mpr hnode, faceAt_eq_none_iff] at hsame
      rw [hsame]
      exact .error _
    | some node =>
      have hshown : t.faceAt here = some node.face := by
        rw [FileTree.faceAt, hnode, Option.map_some]
      obtain ⟨other, hother, -⟩ := get?_of_faceAt (hsame.trans hshown)
      rw [hother]
      exact .node _ _ fun heq => hstart heq rfl
  | cons links here part rest ih =>
    rw [resolveFrom_cons, resolveFrom_cons]
    by_cases hhere : here = extra
    · subst hhere
      unfold next
      rw [h.free, h.file]
      exact .blocked
    rcases next_eq_or h.faceAt hhere .look links part rest with hsame | ⟨rfl, hdir, hname⟩
    · rw [hsame]
      cases hnext : next .look links here part rest t with
      | goesOn links' here' parts =>
        have hmove := moves_of_next hnext
        refine ih links' here' parts hmove fun heq => absurd h.free ?_
        rw [← heq]
        exact hmove.faceAt_ne_none
      | ends found =>
        cases found with
        | error e => exact .error e
        | ok spot =>
          obtain ⟨-, -, -, ⟨-, rfl⟩ | ⟨target, haim, -⟩⟩ := found_of_next hnext
          · exact .vacant here part
          · cases haim
    · rw [next_of_lookup hname hdir, next_of_lookup hname ((h.isDirAt_iff here).mpr hdir), h.free,
        h.file]
      simp only [nextInto]
      cases rest with
      | nil =>
        rw [resolveFrom_nil, (more.faceAt_eq_file_iff _ _).mp h.file]
        exact .taken _ rfl
      | cons after rest =>
        rw [resolveFrom_cons, next, h.file]
        exact .blocked

theorem Plus.finds_resolve (h : t.Plus more extra content) (p : Path) :
    Finds extra (t.resolve .look p) (more.resolve .look p) := by
  unfold resolve
  cases hcheck : checkPath p with
  | error e => exact .error e
  | ok u =>
    rw [h.workingDir]
    apply h.finds
    intro hstart
    apply steps_ne_nil ((checkPath_eq_ok_iff.mp hcheck).2.1)
    rw [← Bool.not_eq_true]
    intro habsolute
    rw [startOf, if_pos habsolute] at hstart
    exact h.extra_ne_nil hstart.symm

/-- A file that is written where nothing was found is the one file more. -/
theorem plus_writeFile {p : Path} {later : FileTree} (hfresh : t.pathExists p = false)
    (h : t.writeFile p content = .ok later) :
    ∃ dir name, Path.IsName name ∧ later = t.putAt (dir ++ [name]) (.file content) ∧
      t.Plus later (dir ++ [name]) content ∧
      later.resolve .look p = .ok (.node (dir ++ [name]) (.file content)) := by
  rcases writeFile_cases h with ⟨location, old, hspot, rfl⟩ | ⟨dir, name, hspot, rfl⟩
  · have hexists : t.pathExists p = true :=
      pathExists_iff.mpr ⟨_, stat_eq_ok_iff.mpr ⟨location, resolve_look_of_write hspot⟩⟩
    rw [hfresh] at hexists
    cases hexists
  · obtain ⟨hdir, hfree, hname⟩ := vacant_of_resolve hspot
    have hplus := plus_putAt hdir hfree content
    refine ⟨dir, name, hname, rfl, hplus, ?_⟩
    have hfinds := hplus.finds_resolve p
    rw [resolve_look_of_write hspot] at hfinds
    generalize hfound : (t.putAt (dir ++ [name]) (.file content)).resolve .look p = found at hfinds
    cases hfinds with
    | vacant =>
      have hvacant := (faceAt_eq_none_iff _ _).mpr (vacant_of_resolve hfound).2.1
      rw [hplus.file] at hvacant
      cases hvacant
    | taken b heq =>
      have hnode := get?_of_resolve hfound
      rw [(faceAt_eq_file_iff _ _ _).mp hplus.file] at hnode
      cases hnode
      rfl

theorem keeps_writePages (t : FileTree) (pages : List Page) : t.Keeps (t.writePages pages).1 := by
  induction pages generalizing t with
  | nil => exact .refl t
  | cons page pages ih =>
    rw [writePages]
    split
    · rename_i later hwrite
      exact (keeps_writeFile hwrite).trans (ih later)
    · exact .refl t

namespace Plus

theorem stat (h : t.Plus more extra content) {p : Path} {node : Node}
    (hstat : t.stat p = .ok node) :
    ∃ other, more.stat p = .ok other ∧ other.face = node.face := by
  obtain ⟨location, hlocation⟩ := stat_eq_ok_iff.mp hstat
  have hfinds := h.finds_resolve p
  rw [hlocation] at hfinds
  generalize hfound : more.resolve .look p = found at hfinds
  cases hfinds with
  | node a other hne =>
    refine ⟨other, stat_eq_ok_iff.mpr ⟨location, hfound⟩, ?_⟩
    have hface := h.faceAt location hne
    rw [FileTree.faceAt, FileTree.faceAt, get?_of_resolve hfound,
      get?_of_resolve hlocation] at hface
    exact Option.some.inj hface

theorem readText_eq (h : t.Plus more extra content) {p : Path} (hexists : t.pathExists p = true) :
    more.readText p = t.readText p ∧ more.isFile p = t.isFile p := by
  obtain ⟨node, hstat⟩ := pathExists_iff.mp hexists
  obtain ⟨other, hother, hface⟩ := h.stat hstat
  unfold readText readBytes isFile
  rw [hstat, hother]
  cases node <;> cases other <;> simp_all [Node.face, bind, Except.bind]

theorem template_eq (h : t.Plus more extra content) {p : Path} (hexists : t.pathExists p = true) :
    more.template p = t.template p := by
  obtain ⟨htext, hfile⟩ := h.readText_eq hexists
  unfold template
  rw [htext, hfile]

theorem eq_file_of_stat (h : t.Plus more extra content) {p : Path} (hnone : t.pathExists p = false)
    {node : Node} (hstat : more.stat p = .ok node) : node = .file content := by
  obtain ⟨location, hlocation⟩ := stat_eq_ok_iff.mp hstat
  have hfinds := h.finds_resolve p
  rw [hlocation] at hfinds
  generalize hfound : t.resolve .look p = found at hfinds
  cases hfinds with
  | node a b hne =>
    have hexists := pathExists_iff.mpr ⟨a, stat_eq_ok_iff.mpr ⟨location, hfound⟩⟩
    rw [hnone] at hexists
    cases hexists
  | taken b heq =>
    have hnode := get?_of_resolve hlocation
    rw [(more.faceAt_eq_file_iff _ _).mp h.file] at hnode
    exact (Option.some.inj hnode).symm

theorem makeDir (h : t.Plus more extra content) {p : Path} {later : FileTree}
    (hmake : more.makeDir p = .ok later) :
    ∃ made, t.makeDir p = .ok made ∧ made.Plus later extra content := by
  obtain ⟨there, name, htakes, rfl⟩ := makeDir_eq_ok_iff.mp hmake
  obtain ⟨front, left, hway, hleads⟩ := htakes.way
  have hfree := (more.faceAt_eq_none_iff _).mpr htakes.free
  have hne : there ++ [name] ≠ extra := by
    rintro rfl
    rw [h.file] at hfree
    cases hfree
  rw [h.faceAt _ hne, faceAt_eq_none_iff] at hfree
  have hback := hleads.keep h.keeps_back
  rw [h.workingDir] at hback
  refine ⟨_, makeDir_eq_ok_iff.mpr ⟨there, name, ⟨htakes.check, ⟨front, left, hway, hback⟩,
    htakes.isName, htakes.short, hfree⟩, rfl⟩, ?_⟩
  exact h.putAt hleads.isDirAt (.inl htakes.free) hne fun n => rfl

theorem parentOf_notFound (h : t.Plus more extra content) {p : Path}
    (hparent : more.parentOf p = .error .notFound) : t.parentOf p = .error .notFound := by
  unfold parentOf at hparent ⊢
  rw [filter_splitSlash] at hparent ⊢
  cases hcheck : checkPath p with
  | error e =>
    rw [hcheck] at hparent
    exact hparent
  | ok u =>
    have hfinds : Finds extra
        (t.resolveFrom .look maxLinks (startOf t.workingDir p) (p.way.dropLast ++ [[Path.dot]]))
        (more.resolveFrom .look maxLinks (startOf t.workingDir p)
          (p.way.dropLast ++ [[Path.dot]])) := h.finds fun _ => by simp
    simp only [hcheck, bind, Except.bind, h.workingDir] at hparent ⊢
    generalize t.resolveFrom .look maxLinks _ _ = found at hfinds ⊢
    generalize more.resolveFrom .look maxLinks _ _ = found' at hfinds hparent
    cases hfinds with
    | node | taken | blocked => cases hparent
    | vacant | error => exact hparent

theorem makeDir_notFound (h : t.Plus more extra content) {p : Path}
    (hmake : more.makeDir p = .error .notFound) : t.makeDir p = .error .notFound := by
  have hparent : more.parentOf p = .error .notFound := by
    unfold FileTree.makeDir create at hmake
    cases hparent : more.parentOf p with
    | error e =>
      simp only [hparent, bind, Except.bind, Except.error.injEq] at hmake
      rw [hmake]
    | ok there =>
      simp only [hparent, bind, Except.bind] at hmake
      split at hmake
      · cases hmake
      · split_ifs at hmake
        · cases hmake
        · cases hmake
        · split at hmake <;> cases hmake
  unfold FileTree.makeDir create
  rw [h.parentOf_notFound hparent]
  rfl

theorem makeNearest (h : t.Plus more extra content) {paths missing : List Path} {later : FileTree}
    (hrun : more.makeNearest paths = .ok (missing, later)) :
    ∃ made, t.makeNearest paths = .ok (missing, made) ∧ made.Plus later extra content := by
  induction paths generalizing missing later with
  | nil =>
    cases hrun
    exact ⟨t, rfl, h⟩
  | cons p above ih =>
    rw [FileTree.makeNearest] at hrun ⊢
    split at hrun
    · rename_i hgiven
      cases hrun
      exact ⟨t, if_pos hgiven, h⟩
    · rename_i hgiven
      rw [if_neg hgiven]
      split at hrun
      · rename_i made hmake
        cases hrun
        obtain ⟨made, hmade, hplus⟩ := h.makeDir hmake
        exact ⟨made, by rw [hmade], hplus⟩
      · rename_i hmake
        rw [h.makeDir_notFound hmake]
        split at hrun
        · rename_i nearest made hnearest
          cases hrun
          obtain ⟨made, hmade, hplus⟩ := ih hnearest
          exact ⟨made, by simp only [hmade], hplus⟩
        · cases hrun
      · split at hrun
        · rename_i hdir
          cases hrun
          rw [h.isDir_eq] at hdir
          exact ⟨t, by simp only [makeDir_of_isDir hdir, hdir, if_true], h⟩
        · cases hrun
      · cases hrun

theorem makeEach (h : t.Plus more extra content) {paths : List Path} {later : FileTree}
    (hrun : more.makeEach paths = (later, .ok ())) :
    ∃ made, t.makeEach paths = (made, .ok ()) ∧ made.Plus later extra content := by
  induction paths generalizing t more with
  | nil =>
    cases hrun
    exact ⟨t, rfl, h⟩
  | cons p paths ih =>
    rw [FileTree.makeEach] at hrun ⊢
    split at hrun
    · rename_i next hmake
      obtain ⟨made, hmade, hplus⟩ := h.makeDir hmake
      rw [hmade]
      exact ih hplus hrun
    · split at hrun
      · rename_i hdir
        rw [h.isDir_eq] at hdir
        simp only [makeDir_of_isDir hdir, hdir, if_true]
        exact ih h hrun
      · cases hrun
    · cases hrun

theorem makeDirs (h : t.Plus more extra content) {p : Path} {later : FileTree}
    (hrun : more.makeDirs p = (later, .ok ())) :
    ∃ made, t.makeDirs p = (made, .ok ()) ∧ made.Plus later extra content := by
  unfold FileTree.makeDirs at hrun ⊢
  split at hrun
  · cases hrun
  · rename_i missing next hnearest
    obtain ⟨made, hmade, hplus⟩ := h.makeNearest hnearest
    rw [hmade]
    exact hplus.makeEach hrun

theorem putFiles (h : t.Plus more extra content) {there : Location} {files : List (Bytes × Bytes)}
    (hdir : more.IsDirAt there) (htakes : ∀ file ∈ files, more.TakesFile (there ++ [file.1]))
    (hne : ∀ name, there ++ [name] ≠ extra) :
    (t.putFiles there files).Plus (more.putFiles there files) extra content := by
  obtain ⟨hkeep, hfaces⟩ := putFiles_run hdir htakes
  obtain ⟨hkeep', hfaces'⟩ := putFiles_run ((h.isDirAt_iff there).mp hdir)
    fun file hfile => h.takesFile (htakes file hfile)
  have hsame (before : Option Face) : faceAfter there files extra before = before := by
    rcases faceAfter_cases there files extra with hsame | ⟨file, -, heq, -⟩
    · exact hsame before
    · exact absurd heq.symm (hne file.1)
  refine ⟨?_, ?_, ?_, ?_⟩
  · rw [hkeep.workingDir, hkeep'.workingDir, h.workingDir]
  · rw [hfaces', hsame, h.free]
  · rw [hfaces, hsame, h.file]
  · intro location hlocation
    rw [hfaces, hfaces', h.faceAt location hlocation]

theorem get?_eq (h : t.Plus more extra content) (hwell : t.top.WellFormed)
    (hwell' : more.top.WellFormed) {there : Location} (houtside : ¬ there <+: extra) :
    more.top.get? there = t.top.get? there := by
  have hface (back : Location) : more.faceAt (there ++ back) = t.faceAt (there ++ back) := by
    apply h.faceAt
    rintro rfl
    exact houtside (List.prefix_append there back)
  have hhere := hface []
  rw [List.append_nil] at hhere
  cases hnode : t.top.get? there with
  | none => exact (more.faceAt_eq_none_iff _).mp (hhere.trans ((t.faceAt_eq_none_iff _).mpr hnode))
  | some node =>
    have hsome : more.faceAt there = some node.face := by
      rw [hhere, FileTree.faceAt, hnode, Option.map_some]
    obtain ⟨other, hother, -⟩ := get?_of_faceAt hsome
    rw [hother]
    congr 1
    apply Node.eq_of_face _ _ (hwell'.get? hother).ordered (hwell.get? hnode).ordered
    intro back
    have hback := hface back
    simpa [FileTree.faceAt, Node.get?_append, hother, hnode] using hback

theorem place_iff (h : t.Plus more extra content) (hwell : t.top.WellFormed)
    (hwell' : more.top.WellFormed) {dir : Path} {there : Location} {node : Node}
    (houtside : ¬ there <+: extra) :
    more.place dir = .ok (.node there node) ↔ t.place dir = .ok (.node there node) := by
  simp only [place_eq_ok_iff, h.leadsTo_iff, h.get?_eq hwell hwell' houtside]

theorem writeBy (h : t.Plus more extra content) {w : PageWriter} {origins : Origins}
    {entries : List Entry} {dir : Path} {later : FileTree} {generated : List Path}
    (hrun : w.writeBy origins more entries dir = (later, .ok generated))
    (hlinks : ∀ left there, later.LeadsTo dir left there →
      ∀ name target, t.top.get? (there ++ [name]) ≠ some (.link target))
    (houtside : ∀ left there, later.LeadsTo dir left there → ¬ there <+: extra) :
    ∃ other, w.writeBy origins t entries dir = (other, .ok generated) ∧
      other.Plus later extra content ∧ (more.top.WellFormed → later.top.WellFormed) ∧
      (t.top.WellFormed → other.top.WellFormed) := by
  obtain ⟨hgenerated, made, hmade, hwritten⟩ := PageWriter.writeBy_eq_ok_iff.mp hrun
  obtain ⟨base, hbase, hplus⟩ := h.makeDirs hmade
  have hnames (file : Bytes × Bytes) (hfile : file ∈ w.filesBy origins entries) :
      Path.IsName file.1 := PageWriter.isName_of_mem_filesBy hfile
  have hlater : made.Keeps later := by
    have hkeep := made.keeps_writePages ((w.filesBy origins entries).map (Page.within dir))
    rwa [hwritten] at hkeep
  have hmore : t.Keeps base := by
    have hkeep : t.Keeps (t.makeDirs dir).1 := keeps_makeDirs dir
    rwa [hbase] at hkeep
  have hmadeWell (hwell : more.top.WellFormed) : made.top.WellFormed := by
    have hmade' := wellFormed_makeDirs hwell dir
    rwa [hmade] at hmade'
  have hbaseWell (hwell : t.top.WellFormed) : base.top.WellFormed := by
    have hbase' := wellFormed_makeDirs hwell dir
    rwa [hbase] at hbase'
  have hfree {left : Nat} {there : Location} (hleads : made.LeadsTo dir left there) (name : Bytes)
      (target : Path) : base.top.get? (there ++ [name]) ≠ some (.link target) :=
    fun hlink => hlinks left there (LeadsTo.keep hlater hleads) name target
      ((hmore.links _ _).mp hlink)
  rcases writePages_cases hnames (fun left there hleads file _ target hlink =>
      hfree hleads file.1 target ((hplus.link_iff _ _).mp hlink)) hwritten with
    ⟨hnone, rfl⟩ | ⟨left, there, hleads, hroom, rfl⟩
  · refine ⟨base, PageWriter.writeBy_eq_ok_iff.mpr ⟨hgenerated, base, hbase, ?_⟩, hplus, hmadeWell,
      hbaseWell⟩
    rw [hnone]
    rfl
  · have hne (name : Bytes) : there ++ [name] ≠ extra := by
      rintro rfl
      exact houtside left there (LeadsTo.keep hlater hleads) (List.prefix_append there [name])
    refine ⟨base.putFiles there (w.filesBy origins entries),
      PageWriter.writeBy_eq_ok_iff.mpr ⟨hgenerated, base, hbase, ?_⟩,
      hplus.putFiles hleads.isDirAt (fun file hfile => (hroom file hfile).takes) hne,
      fun hwell => wellFormed_putFiles (hmadeWell hwell) hnames,
      fun hwell => wellFormed_putFiles (hbaseWell hwell) hnames⟩
    rw [writePages_eq_ok_iff hnames (hplus.leadsTo_iff.mp hleads) fun file _ => hfree hleads file.1]
    refine ⟨fun file hfile => ?_, rfl⟩
    have hfile := hroom file hfile
    exact ⟨hfile.check, hfile.short, hplus.takesFile hfile.takes⟩

end Plus

end ApiAtlas.FileTree
