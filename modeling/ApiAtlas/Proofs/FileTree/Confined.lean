import ApiAtlas.Proofs.Components
import ApiAtlas.Proofs.PageRun

/-!
Changes that keep to certain places. A path without links on it leads where its parts say, and what
stands above it is on the way there; so making a directory with those above it, and writing files
into it, changes what the tree shows at locations that are known beforehand, and nowhere else.
-/
namespace ApiAtlas

namespace Path

theorem way_eq_append (p : Path) :
    p.way = way ⟨p.lead⟩ ++ way ⟨p.bytes.drop p.lead.length⟩ := by
  rcases p.lead_cases with ⟨hlead, habsolute⟩ | ⟨-, hlead | ⟨hlead, hdot | ⟨rest, hrest⟩⟩⟩
  · obtain ⟨rest, hrest⟩ := isAbsolute_iff.mp habsolute
    have hway := way_append_slash [] rest
    rw [List.nil_append, ← hrest] at hway
    rw [hlead, hrest, hway]
    rfl
  · rw [hlead]
    rfl
  · have hway : p.way = way ⟨[dot]⟩ := congrArg way (Path.ext hdot)
    rw [hlead, hdot, hway]
    rfl
  · have hway := way_append_slash [dot] rest
    rw [← hrest] at hway
    have hslash := way_append_slash [] rest
    rw [hlead, hrest, hway, List.singleton_append, List.length_singleton, List.drop_one,
      List.tail_cons]
    exact congrArg (way ⟨[dot]⟩ ++ ·) hslash.symm

theorem way_lead_isPrefix (p : Path) : way ⟨p.lead⟩ <+: p.way := ⟨_, p.way_eq_append.symm⟩

theorem isAbsolute_of_isPrefix {p q : Path} (hlead : p.lead <+: q.bytes)
    (hq : q.bytes <+: p.bytes) : q.isAbsolute = p.isAbsolute := by
  rcases p.lead_cases with ⟨hslash, habsolute⟩ | ⟨hrelative, -⟩
  · rw [hslash] at hlead
    obtain ⟨rest, hrest⟩ := hlead
    rw [habsolute, isAbsolute_iff]
    exact ⟨rest, hrest.symm⟩
  · rw [hrelative, Bool.eq_false_iff, Ne, isAbsolute_iff]
    rintro ⟨rest, hrest⟩
    obtain ⟨more, hmore⟩ := hq
    rw [hrest] at hmore
    have habsolute := isAbsolute_iff.mpr ⟨rest ++ more, hmore.symm⟩
    rw [hrelative] at habsolute
    cases habsolute

theorem way_of_parent? {p q : Path} (h : p.parent? = some q) :
    q.isAbsolute = p.isAbsolute ∧ q.way <+: p.way := by
  unfold parent? at h
  split at h
  · split at h
    · rename_i hlead
      cases h
      have hrelative : p.isAbsolute = false := by
        rcases p.lead_cases with ⟨hslash, -⟩ | ⟨hrelative, -⟩
        · rw [hlead] at hslash
          exact absurd hslash (by decide)
        · exact hrelative
      exact ⟨hrelative.symm, List.nil_prefix⟩
    · cases h
  · rename_i part parts hparts
    cases h
    generalize hfront : dropVoidEnd (part :: parts).dropLast = front
    obtain ⟨rest, hrest⟩ := p.lead_isPrefix
    -- The last part is left off, so something is behind what is kept.
    obtain ⟨more, hmore, hsplit⟩ : ∃ more, more ≠ [] ∧ front ++ more = splitSlash rest := by
      have hdrop : p.bytes.drop p.lead.length = rest := by rw [← hrest, List.drop_left]
      unfold Path.parts at hparts
      rw [hdrop] at hparts
      obtain ⟨void, hvoid⟩ := dropVoidEnd_isPrefix (splitSlash rest)
      obtain ⟨between, hbetween⟩ := dropVoidEnd_isPrefix (part :: parts).dropLast
      rw [hfront] at hbetween
      have hlast := List.dropLast_concat_getLast (List.cons_ne_nil part parts)
      refine ⟨between ++ [(part :: parts).getLast (List.cons_ne_nil _ _)] ++ void, by simp, ?_⟩
      rw [← List.append_assoc, ← List.append_assoc, hbetween, hlast, ← hparts, hvoid]
    have hbytes : p.bytes = p.lead ++ joinSlash (front ++ more) := by
      rw [hsplit, joinSlash_splitSlash, hrest]
    by_cases hnil : front = []
    · have hjoin : p.lead ++ joinSlash front = p.lead := by
        rw [hnil]
        exact List.append_nil _
      rw [hjoin]
      exact ⟨isAbsolute_of_isPrefix List.prefix_rfl p.lead_isPrefix, p.way_lead_isPrefix⟩
    · rw [joinSlash_append hnil hmore, ← List.append_assoc] at hbytes
      refine ⟨isAbsolute_of_isPrefix (List.prefix_append _ _) ⟨_, hbytes.symm⟩, ?_⟩
      have hway := way_append_slash (p.lead ++ joinSlash front) (joinSlash more)
      rw [← hbytes] at hway
      exact ⟨_, hway.symm⟩

theorem way_of_mem_ancestors {p q : Path} (h : q ∈ p.ancestors) :
    q.isAbsolute = p.isAbsolute ∧ q.way <+: p.way := by
  unfold ancestors at h
  generalize p.bytes.length + 2 = limit at h
  induction limit generalizing p with
  | zero => cases h
  | succ limit ih =>
    rw [ancestorsUpTo] at h
    rcases List.mem_cons.mp h with rfl | h
    · exact ⟨rfl, List.prefix_rfl⟩
    · split at h
      · rename_i above habove
        obtain ⟨habsolute, hway⟩ := way_of_parent? habove
        obtain ⟨habsolute', hway'⟩ := ih h
        exact ⟨habsolute'.trans habsolute, hway'.trans hway⟩
      · cases h

end Path

def Location.enter (here : Location) (part : Bytes) : Location :=
  if part = [] ∨ part = [Path.dot] then here
  else if part = [Path.dot, Path.dot] then here.dropLast
  else here ++ [part]

theorem Location.enter_down {part : Bytes} (hpart : ¬(part = [] ∨ part = [Path.dot]))
    (hdots : part ≠ [Path.dot, Path.dot]) (here : Location) :
    Location.enter here part = here ++ [part] := by
  unfold enter
  rw [if_neg hpart, if_neg hdots]

theorem Location.enter_name {name : Bytes} (h : Path.IsName name) (here : Location) :
    Location.enter here name = here ++ [name] :=
  enter_down h.not_void h.ne_dots here

namespace FileTree

/-- Where a path leads if there are no links on it. -/
def locationOf (t : FileTree) (p : Path) : Location :=
  p.way.foldl Location.enter (startOf t.workingDir p)

def NoLinkAlong (t : FileTree) (here : Location) (parts : List Bytes) : Prop :=
  ∀ front, front <+: parts → ∀ target,
    t.top.get? (front.foldl Location.enter here) ≠ some (.link target)

/-- No link lies on a path, nor at its end. -/
def LinkFree (t : FileTree) (p : Path) : Prop := t.NoLinkAlong (startOf t.workingDir p) p.way

variable {t mid later : FileTree}

theorem NoLinkAlong.tail {here : Location} {part : Bytes} {rest : List Bytes}
    (h : t.NoLinkAlong here (part :: rest)) : t.NoLinkAlong (Location.enter here part) rest :=
  fun front hfront => h (part :: front) ((List.prefix_cons_inj part).mpr hfront)

/-- Without links, a way ends where its parts say. -/
theorem Leads.there_eq_foldl {links left : Nat} {here there : Location} {parts : List Bytes}
    (h : t.Leads links here parts left there) (hlinks : t.NoLinkAlong here parts) :
    there = parts.foldl Location.enter here := by
  induction h with
  | arrived hdir => rfl
  | @stay links left here there part rest hdir hpart _ ih =>
    have henter : Location.enter here part = here := if_pos hpart
    have htail := hlinks.tail
    rw [henter] at htail
    rw [List.foldl_cons, henter, ih htail]
  | up hdir _ ih => exact ih hlinks.tail
  | @down links left here there part rest hpart hdots hlength hdir _ ih =>
    have htail := hlinks.tail
    rw [Location.enter_down hpart hdots] at htail
    rw [List.foldl_cons, Location.enter_down hpart hdots, ih htail]
  | @follow links left here there part rest target hpart hdots hlength hlink htarget _ ih =>
    have hnone := hlinks [part] (List.prefix_append [part] rest) target
    rw [List.foldl_cons, Location.enter_down hpart hdots] at hnone
    exact absurd hlink hnone

theorem LinkFree.keep {p : Path} (h : t.LinkFree p) (hkeep : t.Keeps later) : later.LinkFree p := by
  intro front hfront target hlink
  rw [hkeep.workingDir] at hlink
  exact h front hfront target ((hkeep.links _ _).mp hlink)

theorem locationOf_keep (hkeep : t.Keeps later) (p : Path) :
    later.locationOf p = t.locationOf p := by
  unfold locationOf
  rw [hkeep.workingDir]

theorem LinkFree.of_mem_ancestors {p q : Path} (h : t.LinkFree p) (hq : q ∈ p.ancestors) :
    t.LinkFree q := by
  obtain ⟨habsolute, hway⟩ := Path.way_of_mem_ancestors hq
  have hstart : startOf t.workingDir q = startOf t.workingDir p := by
    unfold startOf
    rw [habsolute]
  intro front hfront target
  rw [hstart]
  exact h front (hfront.trans hway) target

/-- A later tree in which directories were made and files were written, but nowhere else than at
certain locations. -/
structure ConfinedTo (dirs files : Location → Prop) (t later : FileTree) : Prop where
  workingDir : later.workingDir = t.workingDir
  faces : ∀ location, later.faceAt location = t.faceAt location ∨
    dirs location ∧ t.faceAt location = none ∧ later.faceAt location = some .dir ∨
    files location ∧ t.TakesFile location ∧
      ∃ content, later.faceAt location = some (.file content)

namespace ConfinedTo

variable {dirs files : Location → Prop}

theorem refl (t : FileTree) : ConfinedTo dirs files t t := ⟨rfl, fun _ => .inl rfl⟩

theorem trans (h : ConfinedTo dirs files t mid) (h' : ConfinedTo dirs files mid later) :
    ConfinedTo dirs files t later where
  workingDir := h'.workingDir.trans h.workingDir
  faces location := by
    have hbefore := h.faces location
    have hafter := h'.faces location
    simp only [takesFile_iff] at hbefore hafter ⊢
    rcases hafter with hsame | ⟨hdirs, hnone, hdir⟩ | ⟨hfiles, htakes, hfile⟩
    · rwa [hsame]
    · -- What was not there in between was not there before.
      rcases hbefore with hsame | ⟨-, -, hface⟩ | ⟨-, -, content, hface⟩
      · exact .inr (.inl ⟨hdirs, hsame ▸ hnone, hdir⟩)
      · simp [hface] at hnone
      · simp [hface] at hnone
    · rcases hbefore with hsame | ⟨-, -, hface⟩ | ⟨-, htakes, -⟩
      · exact .inr (.inr ⟨hfiles, hsame ▸ htakes, hfile⟩)
      · simp [hface] at htakes
      · exact .inr (.inr ⟨hfiles, htakes, hfile⟩)

theorem keeps (h : ConfinedTo dirs files t later) : t.Keeps later where
  workingDir := h.workingDir
  dirs location hdir := by
    rw [← faceAt_eq_dir_iff] at hdir ⊢
    have hface := h.faces location
    simp only [takesFile_iff, hdir] at hface
    simpa using hface
  links location target := by
    rw [← faceAt_eq_link_iff, ← faceAt_eq_link_iff]
    rcases h.faces location with hsame | ⟨-, hnone, hdir⟩ | ⟨-, htakes, content, hfile⟩
    · rw [hsame]
    · simp [hnone, hdir]
    · rcases (takesFile_iff _ _).mp htakes with hnone | ⟨old, hold⟩
      · simp [hnone, hfile]
      · simp [hold, hfile]

end ConfinedTo

theorem confinedTo_putAt {dirs files : Location → Prop} {there : Location} {name : Bytes}
    {new : Node} (hdir : t.IsDirAt there) (htakes : t.TakesFile (there ++ [name]))
    (hnew : ∀ n, new.child? n = none)
    (h : dirs (there ++ [name]) ∧ t.faceAt (there ++ [name]) = none ∧ new.face = .dir ∨
      files (there ++ [name]) ∧ ∃ content, new.face = .file content) :
    ConfinedTo dirs files t (t.putAt (there ++ [name]) new) := by
  refine ⟨rfl, fun location => ?_⟩
  rw [faceAt_putAt hdir htakes hnew]
  split
  · rename_i heq
    rw [heq]
    rcases h with ⟨hdirs, hnone, hface⟩ | ⟨hfiles, content, hface⟩
    · exact .inr (.inl ⟨hdirs, hnone, congrArg some hface⟩)
    · exact .inr (.inr ⟨hfiles, htakes, content, congrArg some hface⟩)
  · exact .inl rfl

theorem confinedTo_makeDir {dirs files : Location → Prop} {q : Path} (hfree : t.LinkFree q)
    (hdirs : dirs (t.locationOf q)) (h : t.makeDir q = .ok later) :
    ConfinedTo dirs files t later := by
  obtain ⟨there, name, htakes, rfl⟩ := makeDir_eq_ok_iff.mp h
  obtain ⟨front, left, hway, hleads⟩ := htakes.way
  have hthere : there = front.foldl Location.enter (startOf t.workingDir q) := by
    apply hleads.there_eq_foldl
    intro less hless
    exact hfree less (hless.trans (hway ▸ List.prefix_append front [name]))
  have hlocation : t.locationOf q = there ++ [name] := by
    unfold locationOf
    rw [hway, List.foldl_append, ← hthere]
    exact Location.enter_name htakes.isName there
  rw [hlocation] at hdirs
  exact confinedTo_putAt hleads.isDirAt (.inl htakes.free) (fun _ => rfl)
    (.inl ⟨hdirs, (faceAt_eq_none_iff _ _).mpr htakes.free, rfl⟩)

theorem confinedTo_makeDirs {dirs files : Location → Prop} {dir : Path} (hfree : t.LinkFree dir)
    (hdirs : ∀ q ∈ dir.ancestors, dirs (t.locationOf q)) :
    ConfinedTo dirs files t (t.makeDirs dir).1 := by
  have hstep (q : Path) (hq : q ∈ dir.ancestors) (mid later : FileTree)
      (h : ConfinedTo dirs files t mid) (hmake : mid.makeDir q = .ok later) :
      ConfinedTo dirs files t later := by
    have hlocation := locationOf_keep h.keeps q
    exact h.trans (confinedTo_makeDir ((hfree.of_mem_ancestors hq).keep h.keeps)
      (hlocation ▸ hdirs q hq) hmake)
  exact makeDirs_induction hstep (.refl t)

theorem confinedTo_writeFile {dirs files : Location → Prop} {dir : Path} {name content : Bytes}
    (hname : Path.IsName name) (hfree : t.LinkFree (dir.join ⟨name⟩))
    (hfiles : files (t.locationOf dir ++ [name]))
    (h : t.writeFile (dir.join ⟨name⟩) content = .ok later) : ConfinedTo dirs files t later := by
  have hlinks : t.NoLinkAlong (startOf t.workingDir dir) (dir.way ++ [name]) := by
    unfold LinkFree at hfree
    rwa [startOf_join hname, Path.way_join hname] at hfree
  obtain ⟨left, there, hleads⟩ := leads_of_writeFile hname h
  have hthere : there = t.locationOf dir := by
    apply hleads.there_eq_foldl
    intro front hfront
    exact hlinks front (hfront.trans (List.prefix_append dir.way [name]))
  have hlink (target : Path) : t.top.get? (there ++ [name]) ≠ some (.link target) := by
    have hend := hlinks _ List.prefix_rfl target
    rw [List.foldl_append, List.foldl_cons, List.foldl_nil, Location.enter_name hname] at hend
    rw [hthere]
    exact hend
  obtain ⟨-, -, htakes, rfl⟩ := writeFile_eq hname hleads hlink h
  rw [← hthere] at hfiles
  exact confinedTo_putAt hleads.isDirAt htakes (child?_file content)
    (.inr ⟨hfiles, content, rfl⟩)

theorem confinedTo_writePages {dirs files : Location → Prop} {dir : Path}
    {pages : List (Bytes × Bytes)} (hnames : ∀ page ∈ pages, Path.IsName page.1)
    (hfree : ∀ page ∈ pages, t.LinkFree (dir.join ⟨page.1⟩))
    (hfiles : ∀ page ∈ pages, files (t.locationOf dir ++ [page.1])) :
    ConfinedTo dirs files t (t.writePages (pages.map (Page.within dir))).1 := by
  induction pages generalizing t with
  | nil => exact .refl t
  | cons page pages ih =>
    rw [List.forall_mem_cons] at hnames hfree hfiles
    rw [List.map_cons, writePages]
    split
    · rename_i next hwrite
      have hfirst : ConfinedTo dirs files t next :=
        confinedTo_writeFile hnames.1 hfree.1 hfiles.1 hwrite
      have hlocation := locationOf_keep hfirst.keeps dir
      exact hfirst.trans (ih hnames.2 (fun other hother => (hfree.2 other hother).keep hfirst.keeps)
        (fun other hother => hlocation ▸ hfiles.2 other hother))
    · exact .refl t

end FileTree

end ApiAtlas
