import ApiAtlas.Proofs.PageRoom
import ApiAtlas.Proofs.PageTargets

/-!
Runs that end early. What is wrong with a page is known once the directory is made: no path can hold
its name, the name or the path is too long, or a directory is called so. A run comes to its end
exactly if nothing is wrong with any page; otherwise it ends at the first with which something is,
and has done by then what a run of the entries before it does.
-/
namespace ApiAtlas

namespace Path

theorem eq_dot_of_mem_way {p : Path} (h : p.parts = []) {part : Bytes} (hpart : part ∈ p.way) :
    part = [dot] := by
  rw [way_eq_append, List.mem_append] at hpart
  rcases hpart with hlead | hrest
  · rcases p.lead_cases with ⟨hslash, -⟩ | ⟨-, hempty | ⟨hdot, -⟩⟩
    · rw [hslash] at hlead
      cases hlead
    · rw [hempty] at hlead
      cases hlead
    · rw [hdot] at hlead
      exact List.mem_singleton.mp hlead
  · have hmem := List.mem_of_mem_filter hrest
    exact (void_of_parts_eq_nil h part hmem).resolve_left (ne_nil_of_mem_way hrest)

end Path

namespace FileTree

section

variable {t : FileTree} {dir : Path} {left : Nat} {there : Location} {name : Bytes}

theorem isDirAt_startOf (hwork : t.IsDirAt t.workingDir) (p : Path) :
    t.IsDirAt (startOf t.workingDir p) := by
  unfold startOf
  split
  · by_cases htop : t.workingDir = []
    · exact htop ▸ hwork
    · obtain ⟨children, hchildren⟩ := hwork
      rw [← List.nil_append t.workingDir] at hchildren
      exact isDirAt_of_append hchildren htop
  · exact hwork

theorem leadsTo_of_makeDirs (hwork : t.IsDirAt t.workingDir) (h : (t.makeDirs dir).2 = .ok ()) :
    ∃ left there, (t.makeDirs dir).1.LeadsTo dir left there := by
  have hmade : t.makeDirs dir = ((t.makeDirs dir).1, .ok ()) := Prod.ext rfl h
  rcases isDir_of_makeDirs hmade with hgiven | hdir
  · have hleads : t.LeadsTo dir maxLinks (startOf t.workingDir dir) :=
      leads_of_dots (isDirAt_startOf hwork dir) maxLinks
        fun part => Path.eq_dot_of_mem_way (Path.parts_of_isGiven hgiven)
    exact ⟨_, _, LeadsTo.keep (keeps_makeDirs dir) hleads⟩
  · exact (isDir_iff.mp hdir).2

/-- A page can be written under a name: the directory is there, a path can hold the name, both are
short enough, and no directory is called so. -/
structure Writable (t : FileTree) (dir : Path) (name : Bytes) : Prop where
  within : ∃ left there, t.LeadsTo dir left there
  noNul : 0 ∉ name
  fits : Fits dir name
  noDir : t.isDir (dir.join ⟨name⟩) = false

theorem isDir_join_iff (hname : Path.IsName name) (hleads : t.LeadsTo dir left there)
    (hlink : ∀ target, t.top.get? (there ++ [name]) ≠ some (.link target))
    (hcheck : checkPath (dir.join ⟨name⟩) = .ok ()) (hshort : name.length ≤ maxName) :
    t.isDir (dir.join ⟨name⟩) = true ↔ t.faceAt (there ++ [name]) = some .dir := by
  obtain ⟨children, hchildren⟩ := hleads.isDirAt
  unfold isDir stat faceAt
  rw [resolve_join hname hleads .look hcheck, resolveFrom_name hname hchildren .look hlink,
    if_neg (Nat.not_lt.mpr hshort)]
  cases t.top.get? (there ++ [name]) with
  | none => simp [bind, Except.bind, throw, throwThe, MonadExceptOf.throw]
  | some node => cases node <;> simp [bind, Except.bind, pure, Except.pure, Node.face]

theorem hasRoom_iff_writable (hname : Path.IsName name) (hdir : 0 ∉ dir.bytes)
    (hleads : t.LeadsTo dir left there)
    (hlink : ∀ target, t.top.get? (there ++ [name]) ≠ some (.link target)) :
    t.HasRoom dir there name ↔ t.Writable dir name := by
  constructor
  · intro h
    have hnul : 0 ∉ name := by
      have hjoin := (checkPath_eq_ok_iff.mp h.check).1
      rw [Path.bytes_join hname, List.mem_append, not_or] at hjoin
      exact hjoin.2
    refine ⟨⟨left, there, hleads⟩, hnul, (hasRoom_iff_fits hname hdir hnul h.takes).mp h, ?_⟩
    rw [← Bool.not_eq_true, isDir_join_iff hname hleads hlink h.check h.short]
    exact (takesFile_iff_of_noLink hlink).mp h.takes
  · intro h
    have hcheck : checkPath (dir.join ⟨name⟩) = .ok () :=
      (checkPath_join hname hdir h.noNul).trans (if_pos h.fits.shortPath)
    refine ⟨hcheck, h.fits.short, (takesFile_iff_of_noLink hlink).mpr ?_⟩
    rw [Ne, ← isDir_join_iff hname hleads hlink hcheck h.fits.short, h.noDir]
    exact Bool.false_ne_true

end

/-- A run of pages stops at the first that cannot be written, after the run of those before. -/
theorem writePages_eq_error_iff_split {t later : FileTree} {pages : List Page} {e : IoError} :
    t.writePages pages = (later, .error e) ↔
      ∃ front page rest, pages = front ++ page :: rest ∧ t.writePages front = (later, .ok ()) ∧
        later.writeFile page.path page.content = .error e := by
  induction pages generalizing t with
  | nil => simp [writePages]
  | cons first pages ih =>
    rw [writePages]
    cases hwrite : t.writeFile first.path first.content with
    | ok next =>
      simp only [ih]
      constructor
      · rintro ⟨front, page, rest, rfl, hfront, hpage⟩
        refine ⟨first :: front, page, rest, rfl, ?_, hpage⟩
        rw [writePages, hwrite]
        exact hfront
      · rintro ⟨front, page, rest, hpages, hfront, hpage⟩
        cases front with
        | nil =>
          cases hpages
          cases hfront
          rw [hwrite] at hpage
          cases hpage
        | cons other front =>
          cases hpages
          rw [writePages, hwrite] at hfront
          exact ⟨front, page, rest, rfl, hfront, hpage⟩
    | error cause =>
      constructor
      · intro h
        cases h
        exact ⟨[], first, pages, rfl, rfl, hwrite⟩
      · rintro ⟨front, page, rest, hpages, hfront, hpage⟩
        cases front with
        | nil =>
          cases hpages
          cases hfront
          rw [hwrite] at hpage
          cases hpage
          rfl
        | cons other front =>
          cases hpages
          rw [writePages, hwrite] at hfront
          cases hfront

end FileTree

namespace PageWriter

/-- How a run ends at entry `k`, with everything before it done and nothing else. -/
structure StopsAt (w : PageWriter) (origins : Origins) (t later : FileTree) (entries : List Entry)
    (dir : Path) (k : Nat) (e : Error) : Prop where
  /-- The tree is that of a run of the entries before, which have the names they have among all. -/
  written : w.writeBy origins t (entries.take k) dir = (later,
    .ok (((w.collision.names origins.text entries).take k).map fun name => dir.join ⟨pageName name⟩))
  /-- Their pages are there, the later ones winning. -/
  documents : w.Documents (entries.take k) later
    (((w.collision.names origins.text entries).take k).map fun name => dir.join ⟨pageName name⟩)
  first : ∀ name ∈ (w.collision.names origins.text entries).take k,
    (t.makeDirs dir).1.Writable dir (pageName name)
  /-- The next page cannot be written, and the error is the one this gives. -/
  refused : ∃ entry name cause, entries[k]? = some entry ∧
    (w.collision.names origins.text entries)[k]? = some name ∧
    ¬ (t.makeDirs dir).1.Writable dir (pageName name) ∧
    later.writeFile (dir.join ⟨pageName name⟩) (Utf8.encode (w.template.fill entry)) =
      .error cause ∧ e = .io cause
  confined : FileTree.ConfinedTo (t.makeDirs dir).1.IsDirAt
    (t.IsTarget dir (((w.collision.names origins.text entries).take k).map pageName)) t later

theorem generated_take (w : PageWriter) (origins : Origins) (entries : List Entry) (dir : Path)
    (k : Nat) : ((w.filesBy origins (entries.take k)).map Prod.fst).map (fun name => dir.join ⟨name⟩) =
      ((w.collision.names origins.text entries).take k).map
        fun name => dir.join ⟨pageName name⟩ := by
  rw [filesBy_take, List.map_take, map_fst_filesBy, List.map_take, List.map_map, List.map_take]
  rfl

theorem names_take (w : PageWriter) (origins : Origins) (entries : List Entry) (k : Nat) :
    w.collision.names origins.text (entries.take k) =
      (w.collision.names origins.text entries).take k :=
  Collision.namesFrom_take w.collision origins.text k entries []

theorem exists_entry_of_filesBy {w : PageWriter} {origins : Origins} {entries : List Entry}
    {front rest : List (Bytes × Bytes)} {file : Bytes × Bytes}
    (h : w.filesBy origins entries = front ++ file :: rest) :
    w.filesBy origins (entries.take front.length) = front ∧
      w.filesBy origins (entries.take (front.length + 1)) = front ++ [file] ∧
      ∃ e name, entries[front.length]? = some e ∧
        (w.collision.names origins.text entries)[front.length]? = some name ∧
        file = (pageName name, Utf8.encode (w.template.fill e)) := by
  have hat : (w.filesBy origins entries)[front.length]? = some file := by
    rw [h, List.getElem?_append_right (Nat.le_refl _), Nat.sub_self, List.getElem?_cons_zero]
  have hfront : (w.filesBy origins entries).take front.length = front := by rw [h, List.take_left]
  refine ⟨by rw [filesBy_take, hfront], ?_, ?_⟩
  · rw [filesBy_take, List.take_add_one, hat, hfront]
    rfl
  · unfold filesBy at hat
    obtain ⟨e, name, he, hname, hfile⟩ := List.getElem?_zipWith_eq_some.mp hat
    exact ⟨e, name, he, hname, hfile.symm⟩

section

variable {w : PageWriter} {origins : Origins} {t later : FileTree} {entries : List Entry}
  {dir : Path} (hlinks : ∀ location target, t.top.get? location ≠ some (.link target))
include hlinks

theorem documents_of_writeBy {generated : List Path}
    (h : w.writeBy origins t entries dir = (later, .ok generated)) :
    w.Documents entries later generated := by
  obtain ⟨rfl, -⟩ := writeBy_eq_ok h
  rcases putFiles_of_writeBy (fun location target _ => hlinks location target) h with
    ⟨hnone, -⟩ | ⟨left, there, hleads, hroom, rfl⟩
  · refine ⟨by simp, fun i path hpath => ?_⟩
    rw [hnone] at hpath
    cases hpath
  · exact documents_putFiles hleads hroom

theorem writeBy_ok_iff_writable :
    (∃ later generated, w.writeBy origins t entries dir = (later, .ok generated)) ↔
      (t.makeDirs dir).2 = .ok () ∧ ∀ name ∈ w.collision.names origins.text entries,
        (t.makeDirs dir).1.Writable dir (pageName name) := by
  have hkeep : t.Keeps (t.makeDirs dir).1 := FileTree.keeps_makeDirs dir
  have hiff (hmade : (t.makeDirs dir).2 = .ok ()) {left : Nat} {there : Location}
      (hleads : (t.makeDirs dir).1.LeadsTo dir left there) {file : Bytes × Bytes}
      (hfile : file ∈ w.filesBy origins entries) :
      (t.makeDirs dir).1.HasRoom dir there file.1 ↔ (t.makeDirs dir).1.Writable dir file.1 :=
    FileTree.hasRoom_iff_writable (isName_of_mem_filesBy hfile)
      (FileTree.nul_notMem_of_makeDirs hmade) hleads (hkeep.noLinks hlinks _)
  rw [← forall_filesBy_iff]
  constructor
  · rintro ⟨later, generated, h⟩
    obtain ⟨-, made, hmakeDirs, -⟩ := writeBy_eq_ok_iff.mp h
    have hmade : (t.makeDirs dir).2 = .ok () := congrArg Prod.snd hmakeDirs
    refine ⟨hmade, fun file hfile => ?_⟩
    rcases putFiles_of_writeBy (fun location target _ => hlinks location target) h with
      ⟨hnone, -⟩ | ⟨left, there, hleads, hroom, -⟩
    · rw [hnone] at hfile
      cases hfile
    · exact (hiff hmade hleads hfile).mp (hroom file hfile)
  · rintro ⟨hmade, hwritable⟩
    have hmakeDirs : t.makeDirs dir = ((t.makeDirs dir).1, .ok ()) := Prod.ext rfl hmade
    cases hfiles : w.filesBy origins entries with
    | nil => exact ⟨_, _, writeBy_eq_ok_iff.mpr ⟨rfl, _, hmakeDirs, by rw [hfiles]; rfl⟩⟩
    | cons first rest =>
      obtain ⟨left, there, hleads⟩ :=
        (hwritable first (hfiles ▸ List.mem_cons_self)).within
      exact ⟨_, _, writeBy_of_hasRoom hmakeDirs hleads fun file hfile =>
        (hiff hmade hleads hfile).mpr (hwritable file hfile)⟩

theorem stopsAt_of_writeBy {e : Error} (hmade : (t.makeDirs dir).2 = .ok ())
    (h : w.writeBy origins t entries dir = (later, .error e)) :
    ∃ k, w.StopsAt origins t later entries dir k e := by
  have hmakeDirs : t.makeDirs dir = ((t.makeDirs dir).1, .ok ()) := Prod.ext rfl hmade
  obtain ⟨cause, hstopped, rfl⟩ := (writeBy_eq_error_iff hmakeDirs).mp h
  obtain ⟨front, page, rest, hpages, hfront, hpage⟩ :=
    FileTree.writePages_eq_error_iff_split.mp hstopped
  obtain ⟨files, others, hfiles, rfl, hrest⟩ := List.map_eq_append_iff.mp hpages
  obtain ⟨file, more, rfl, rfl, -⟩ := List.map_eq_cons_iff.mp hrest
  obtain ⟨hbefore, hupTo, entry, name, hentry, hname, rfl⟩ := exists_entry_of_filesBy hfiles
  have hwritten : w.writeBy origins t (entries.take files.length) dir = (later,
      .ok (((w.collision.names origins.text entries).take files.length).map
        fun name => dir.join ⟨pageName name⟩)) :=
    writeBy_eq_ok_iff.mpr ⟨(generated_take w origins entries dir _).symm, _, hmakeDirs, by
      rw [hbefore]; exact hfront⟩
  have hfirst := ((writeBy_ok_iff_writable hlinks).mp ⟨_, _, hwritten⟩).2
  rw [names_take] at hfirst
  -- If it could be written, so could all pages up to it, and their run would not fail.
  have hnot : ¬ (t.makeDirs dir).1.Writable dir (pageName name) := by
    intro hwritable
    have hall : ∀ other ∈ w.collision.names origins.text (entries.take (files.length + 1)),
        (t.makeDirs dir).1.Writable dir (pageName other) := by
      rw [names_take, List.take_add_one, hname, List.forall_mem_append]
      exact ⟨hfirst, List.forall_mem_singleton.mpr hwritable⟩
    obtain ⟨_, _, hok⟩ := (writeBy_ok_iff_writable hlinks).mpr ⟨hmade, hall⟩
    have herror : w.writeBy origins t (entries.take (files.length + 1)) dir =
        (later, .error (.io cause)) := by
      refine (writeBy_eq_error_iff hmakeDirs).mpr
        ⟨cause, FileTree.writePages_eq_error_iff_split.mpr ?_, rfl⟩
      refine ⟨_, Page.within dir _, [], ?_, hfront, hpage⟩
      rw [hupTo, List.map_append]
      rfl
    rw [hok] at herror
    cases herror
  have hconfined := confinedTo_of_writeBy (fun location target _ => hlinks location target) hwritten
  rw [map_fst_filesBy, names_take] at hconfined
  exact ⟨files.length, hwritten, documents_of_writeBy hlinks hwritten, hfirst,
    ⟨entry, name, cause, hentry, hname, hnot, hpage, rfl⟩, hconfined⟩

end

/-- A run comes to its end exactly if the directory is there or can be made and all pages can be
written in it. A run that fails in the directory ends at the first page that cannot. A directory
that was made is there, unless it is the working directory and that is gone. -/
theorem writeBy_ok_or_stops (w : PageWriter) (origins : Origins) (t : FileTree)
    (entries : List Entry) (dir : Path)
    (hlinks : ∀ location target, t.top.get? location ≠ some (.link target)) :
    ((∃ later generated, w.writeBy origins t entries dir = (later, .ok generated)) ↔
      (t.makeDirs dir).2 = .ok () ∧ ∀ name ∈ w.collision.names origins.text entries,
        (t.makeDirs dir).1.Writable dir (pageName name)) ∧
    (∀ later e, (t.makeDirs dir).2 = .ok () →
      w.writeBy origins t entries dir = (later, .error e) →
        ∃ k, w.StopsAt origins t later entries dir k e) ∧
    ((t.makeDirs dir).2 = .ok () → t.IsDirAt t.workingDir →
      ∃ left there, (t.makeDirs dir).1.LeadsTo dir left there) :=
  ⟨writeBy_ok_iff_writable hlinks, fun _ _ hmade h => stopsAt_of_writeBy hlinks hmade h,
    fun hmade hwork => FileTree.leadsTo_of_makeDirs hwork hmade⟩

def haltingEntries : List Entry :=
  [{ container := "a" }, { container := "b\x00" }, { container := "c" }]

theorem writeBy_ok_or_stops_halting :
    ∃ later, namingWriter.write .empty haltingEntries (.ofString "out") =
        (later, .error (.io .nulByte)) ∧
      namingWriter.StopsAt .standard .empty later haltingEntries (.ofString "out") 1
        (.io .nulByte) := by
  have herror : (namingWriter.write .empty haltingEntries (.ofString "out")).2 =
      .error (.io .nulByte) := by cbv
  generalize hrun : namingWriter.write .empty haltingEntries (.ofString "out") = run at herror
  obtain ⟨later, e⟩ := run
  subst herror
  obtain ⟨-, hstops, hthere⟩ := writeBy_ok_or_stops namingWriter .standard .empty haltingEntries
    (.ofString "out") link_notMem_empty
  have hmade : (FileTree.makeDirs .empty (.ofString "out")).2 = .ok () := by cbv
  obtain ⟨k, hk⟩ := hstops later _ hmade hrun
  have hnames : namingWriter.collision.names Origins.standard.text haltingEntries =
      ["a", "b\x00", "c"] := by cbv
  have hwritable : ((FileTree.makeDirs .empty (.ofString "out")).1).Writable (.ofString "out")
      (pageName "a") := ⟨hthere hmade ⟨[], rfl⟩, by decide, by decide, by cbv⟩
  obtain ⟨entry, name, cause, -, hname, hnot, -⟩ := hk.refused
  have hfirst := hk.first
  rw [hnames] at hname hfirst
  refine ⟨later, rfl, ?_⟩
  rcases k with - | - | k
  · obtain rfl := Option.some.inj hname
    exact absurd hwritable hnot
  · exact hk
  · exact absurd (hfirst "b\x00" (by simp)).noNul (by decide)

end PageWriter

theorem FileTree.makesEmpty_dotted {n : Nat} (hlength : 2 * (n + 1) < maxPath) :
    FileTree.empty.MakesEmpty (.dotted (n + 1)) .empty FileTree.empty.workingDir := by
  have hleads : FileTree.empty.LeadsTo (.dotted (n + 1)) maxLinks FileTree.empty.workingDir :=
    leadsTo_dotted ⟨[], rfl⟩ (n + 1)
  exact ⟨makeDirs_of_isDir (.inr (isDir_iff.mpr ⟨checkPath_dotted hlength, _, _, hleads⟩)),
    place_eq_ok_iff.mpr ⟨⟨_, hleads⟩, rfl⟩⟩

/-- A directory that is there and empty, and a page with a short name: but the path of the page is
too long, so it is not written. -/
theorem PageWriter.not_written_dotted :
    (∀ location target, FileTree.empty.top.get? location ≠ some (.link target)) ∧
    FileTree.empty.IsDirAt FileTree.empty.workingDir ∧
    FileTree.empty.MakesEmpty (.dotted 2040) .empty FileTree.empty.workingDir ∧
    (∀ name ∈ namingWriter.collision.names Origins.standard.text [{ container := "aaaaaaaaaaaaa" }],
      (pageName name).length ≤ FileTree.maxName ∧ 0 ∉ pageName name ∧
        FileTree.empty.isDir ((Path.dotted 2040).join ⟨pageName name⟩) = false) ∧
    namingWriter.write .empty [{ container := "aaaaaaaaaaaaa" }] (.dotted 2040) =
      (.empty, .error (.io .nameTooLong)) := by
  have hnames : namingWriter.collision.names Origins.standard.text
      [{ container := "aaaaaaaaaaaaa" }] = ["aaaaaaaaaaaaa"] := by cbv
  have hempty : FileTree.empty.MakesEmpty (.dotted 2040) .empty FileTree.empty.workingDir :=
    FileTree.makesEmpty_dotted (by decide)
  have hname : Path.IsName (pageName "aaaaaaaaaaaaa") := by constructor <;> decide
  have hlong : ¬ ((Path.dotted 2040).join ⟨pageName "aaaaaaaaaaaaa"⟩).bytes.length <
      FileTree.maxPath := by
    have hfront := (Path.dotted 2040).length_le_frontOf
    have hpage : (pageName "aaaaaaaaaaaaa").length = 16 := by decide
    rw [Path.length_dotted] at hfront
    rw [Path.bytes_join hname, List.length_append, hpage, FileTree.maxPath]
    omega
  have hnul : ∀ file ∈ namingWriter.filesBy .standard [{ container := "aaaaaaaaaaaaa" }],
      0 ∉ file.1 := by
    rw [forall_filesBy_iff (0 ∉ ·), hnames]
    decide
  refine ⟨link_notMem_empty, ⟨[], rfl⟩, hempty, ?_, ?_⟩
  · rw [hnames, List.forall_mem_singleton]
    refine ⟨by decide, by decide, ?_⟩
    have hcheck := FileTree.checkPath_join hname hempty.nul_notMem (by decide)
    rw [if_neg hlong] at hcheck
    rw [← Bool.not_eq_true, FileTree.isDir_iff, hcheck]
    exact fun hdir => by cases hdir.1
  · exact writeBy_stops hempty hnul (getElem?_filesBy_zero _ _ _ _)
      (fun hfits => hlong hfits.shortPath) (by simp)

end ApiAtlas
