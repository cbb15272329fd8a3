import ApiAtlas.Proofs.FileTree.Faces

/-!
Ways to directories, and making them. A way can be cut in two wherever a part ends, a path is one of
a directory exactly if there is a way to it, and making a directory adds it at the end of the way to
its parent. Once a directory is made with those above it, making it again does nothing.
-/
namespace ApiAtlas.FileTree

theorem Leads.trans {t : FileTree} {links left between : Nat} {here there mid : Location}
    {parts more : List Bytes} (h : t.Leads links here parts between mid)
    (hmore : t.Leads between mid more left there) :
    t.Leads links here (parts ++ more) left there := by
  induction h with
  | arrived hdir => exact hmore
  | stay hdir hpart _ ih => exact .stay hdir hpart (ih hmore)
  | up hdir _ ih => exact .up hdir (ih hmore)
  | down hpart hdots hlength hdir _ ih => exact .down hpart hdots hlength hdir (ih hmore)
  | follow hpart hdots hlength hlink htarget _ ih =>
    exact .follow hpart hdots hlength hlink htarget (List.append_assoc _ _ more ▸ ih hmore)

theorem Leads.split {t : FileTree} {links left : Nat} {here there : Location}
    {parts more : List Bytes} (h : t.Leads links here (parts ++ more) left there) :
    ∃ between mid, t.Leads links here parts between mid ∧ t.Leads between mid more left there := by
  generalize hall : parts ++ more = all at h
  induction h generalizing parts with
  | arrived hdir =>
    obtain ⟨rfl, rfl⟩ := List.append_eq_nil_iff.mp hall
    exact ⟨_, _, .arrived hdir, .arrived hdir⟩
  | stay hdir hpart hrest ih =>
    rcases List.append_eq_cons_iff.mp hall with ⟨rfl, rfl⟩ | ⟨front, rfl, rfl⟩
    · exact ⟨_, _, .arrived hdir, .stay hdir hpart hrest⟩
    · obtain ⟨between, mid, hfront, hmore⟩ := ih rfl
      exact ⟨between, mid, .stay hdir hpart hfront, hmore⟩
  | up hdir hrest ih =>
    rcases List.append_eq_cons_iff.mp hall with ⟨rfl, rfl⟩ | ⟨front, rfl, rfl⟩
    · exact ⟨_, _, .arrived hdir, .up hdir hrest⟩
    · obtain ⟨between, mid, hfront, hmore⟩ := ih rfl
      exact ⟨between, mid, .up hdir hfront, hmore⟩
  | down hpart hdots hlength hdir hrest ih =>
    rcases List.append_eq_cons_iff.mp hall with ⟨rfl, rfl⟩ | ⟨front, rfl, rfl⟩
    · have hall := Leads.down hpart hdots hlength hdir hrest
      exact ⟨_, _, .arrived hall.isDirAt_start, hall⟩
    · obtain ⟨between, mid, hfront, hmore⟩ := ih rfl
      exact ⟨between, mid, .down hpart hdots hlength hdir hfront, hmore⟩
  | @follow links left here there part rest target hpart hdots hlength hlink htarget hrest ih =>
    rcases List.append_eq_cons_iff.mp hall with ⟨rfl, rfl⟩ | ⟨front, rfl, rfl⟩
    · have hall := Leads.follow hpart hdots hlength hlink htarget hrest
      exact ⟨_, _, .arrived hall.isDirAt_start, hall⟩
    · obtain ⟨between, mid, hfront, hmore⟩ := ih (List.append_assoc (steps target) front more)
      exact ⟨between, mid, .follow hpart hdots hlength hlink htarget hfront, hmore⟩

theorem leads_of_resolveFrom_dir {t : FileTree} {aim : Aim} {links : Nat} {here there : Location}
    {parts : List Bytes} {children : List (Bytes × Node)}
    (h : t.resolveFrom aim links here parts = .ok (.node there (.dir children))) :
    ∃ left, t.Leads links here parts left there := by
  rw [resolveFrom_eq_ok_iff] at h
  generalize hspot : Spot.node there (.dir children) = spot at h
  induction h with
  | @arrived links _ _ hnode =>
    cases hspot
    exact ⟨links, .arrived ⟨children, hnode⟩⟩
  | vacant => cases hspot
  | link => cases hspot
  | moved hmove _ ih =>
    obtain ⟨front, rfl, hleads⟩ := hmove.leads
    obtain ⟨left, hrest⟩ := ih hspot
    exact ⟨left, hleads _ left there hrest⟩

theorem Leads.there_eq {t : FileTree} {links left left' : Nat} {here there there' : Location}
    {parts : List Bytes} (h : t.Leads links here parts left there)
    (h' : t.Leads links here parts left' there') : there = there' := by
  obtain ⟨children, -, hlook, -⟩ := h.exists_resolveFrom
  obtain ⟨children', -, hlook', -⟩ := h'.exists_resolveFrom
  rw [hlook] at hlook'
  cases hlook'
  rfl

theorem steps_cases (p : Path) : steps p = p.way ∨ steps p = p.way ++ [[]] := by
  unfold steps
  split
  · exact .inr rfl
  · exact .inl rfl

section

variable {t later : FileTree} {p : Path}

theorem leads_steps_iff {links left : Nat} {here there : Location} :
    t.Leads links here (steps p) left there ↔ t.Leads links here p.way left there := by
  rcases steps_cases p with hsteps | hsteps
  · rw [hsteps]
  · rw [hsteps]
    constructor
    · intro h
      obtain ⟨between, mid, hway, hend⟩ := h.split
      cases hend with
      | stay hdir hpart hrest =>
        cases hrest
        exact hway
      | down hpart => exact absurd (.inl rfl) hpart
      | follow hpart => exact absurd (.inl rfl) hpart
    · exact fun h => h.trans (.stay h.isDirAt (.inl rfl) (.arrived h.isDirAt))

theorem isDir_iff :
    t.isDir p = true ↔ checkPath p = .ok () ∧ ∃ left there, t.LeadsTo p left there := by
  have hstat : t.isDir p = true ↔ ∃ children, t.stat p = .ok (.dir children) := by
    unfold isDir
    split
    · rename_i children hstat
      exact iff_of_true rfl ⟨children, hstat⟩
    · rename_i hno
      exact iff_of_false Bool.false_ne_true fun ⟨children, hstat⟩ => hno children hstat
  simp only [hstat, stat_eq_ok_iff, resolve_eq_ok_iff]
  constructor
  · rintro ⟨children, there, hcheck, hspot⟩
    obtain ⟨left, hleads⟩ := leads_of_resolveFrom_dir hspot
    exact ⟨hcheck, left, there, leads_steps_iff.mp hleads⟩
  · rintro ⟨hcheck, left, there, hleads⟩
    obtain ⟨children, -, hlook, -⟩ := (leads_steps_iff.mpr hleads).exists_resolveFrom
    exact ⟨children, there, hcheck, hlook⟩

theorem isDir_keep (hkeep : t.Keeps later) (h : t.isDir p = true) : later.isDir p = true := by
  obtain ⟨hcheck, left, there, hleads⟩ := isDir_iff.mp h
  exact isDir_iff.mpr ⟨hcheck, left, there, LeadsTo.keep hkeep hleads⟩

theorem filter_splitSlash (p : Path) : (Path.splitSlash p.bytes).filter (· ≠ []) = p.way := rfl

theorem parentOf_eq_ok_iff {there : Location} :
    t.parentOf p = .ok there ↔ checkPath p = .ok () ∧
      ∃ left, t.Leads maxLinks (startOf t.workingDir p) p.way.dropLast left there := by
  have hend {left : Nat} {mid : Location}
      (hleads : t.Leads maxLinks (startOf t.workingDir p) p.way.dropLast left mid) :
      ∃ node, t.resolveFrom .look maxLinks (startOf t.workingDir p)
        (p.way.dropLast ++ [[Path.dot]]) = .ok (.node mid node) := by
    obtain ⟨children, -, -, hdot⟩ := hleads.exists_resolveFrom
    exact ⟨.dir children, hdot .look⟩
  unfold parentOf
  rw [filter_splitSlash]
  cases hcheck : checkPath p with
  | error e => simp [bind, Except.bind]
  | ok u =>
    simp only [bind, Except.bind, true_and]
    constructor
    · intro h
      split at h
      · cases h
      · rename_i spot hspot
        obtain ⟨left, mid, hleads⟩ := leads_of_resolveFrom _ hspot
        obtain ⟨children, hnode⟩ := hend hleads
        rw [hnode] at hspot
        cases hspot
        cases h
        exact ⟨left, hleads⟩
    · rintro ⟨left, hleads⟩
      obtain ⟨children, hnode⟩ := hend hleads
      rw [hnode]
      rfl

/-- Where a directory can be made: under a free name, in the directory that the rest of the way
leads to. -/
structure TakesDir (t : FileTree) (p : Path) (there : Location) (name : Bytes) : Prop where
  check : checkPath p = .ok ()
  way : ∃ front left, p.way = front ++ [name] ∧
    t.Leads maxLinks (startOf t.workingDir p) front left there
  isName : Path.IsName name
  short : name.length ≤ maxName
  free : t.top.get? (there ++ [name]) = none

theorem makeDir_eq_ok_iff :
    t.makeDir p = .ok later ↔ ∃ there name, t.TakesDir p there name ∧
      later = t.putAt (there ++ [name]) (.dir []) := by
  constructor
  · intro h
    unfold makeDir create at h
    rw [filter_splitSlash] at h
    cases hparent : t.parentOf p with
    | error e => simp [hparent, bind, Except.bind] at h
    | ok there =>
      obtain ⟨hcheck, left, hleads⟩ := parentOf_eq_ok_iff.mp hparent
      simp only [hparent, bind, Except.bind] at h
      split at h
      · cases h
      · rename_i name hlast
        split_ifs at h with hdots hlength
        split at h
        · cases h
        · rename_i hfree
          rw [not_or] at hdots
          have hway : p.way = p.way.dropLast ++ [name] :=
            (List.dropLast_append_getLast? name hlast).symm
          have hmem : name ∈ p.way := List.mem_of_getLast? hlast
          refine ⟨there, name, ⟨hcheck, ⟨_, left, hway, hleads⟩, ?_, Nat.not_lt.mp hlength, hfree⟩,
            (Except.ok.inj h).symm⟩
          exact ⟨Path.ne_nil_of_mem_way hmem, Path.noSlash_of_mem_way hmem, hdots.1, hdots.2⟩
  · rintro ⟨there, name, h, rfl⟩
    obtain ⟨front, left, hway, hleads⟩ := h.way
    have hparent : t.parentOf p = .ok there := by
      rw [parentOf_eq_ok_iff, hway, List.dropLast_concat]
      exact ⟨h.check, left, hleads⟩
    unfold makeDir create
    rw [filter_splitSlash, hway, List.getLast?_concat, hparent]
    simp only [bind, Except.bind]
    rw [if_neg (not_or.mpr ⟨h.isName.ne_dot, h.isName.ne_dots⟩), if_neg (Nat.not_lt.mpr h.short),
      h.free]
    rfl

theorem makeDir_of_isDir (h : t.isDir p = true) : t.makeDir p = .error .alreadyExists := by
  obtain ⟨hcheck, left, there, hleads⟩ := isDir_iff.mp h
  unfold makeDir create
  rw [filter_splitSlash]
  rcases List.eq_nil_or_concat p.way with hway | ⟨front, name, hway⟩
  · have hparent : t.parentOf p = .ok there := by
      unfold LeadsTo at hleads
      rw [hway] at hleads
      rw [parentOf_eq_ok_iff, hway]
      exact ⟨hcheck, left, hleads⟩
    rw [hparent, hway]
    rfl
  · rw [List.concat_eq_append] at hway
    unfold LeadsTo at hleads
    rw [hway] at hleads
    obtain ⟨between, mid, hfront, hname⟩ := hleads.split
    have hparent : t.parentOf p = .ok mid := by
      rw [parentOf_eq_ok_iff, hway, List.dropLast_concat]
      exact ⟨hcheck, between, hfront⟩
    rw [hparent, hway, List.getLast?_concat]
    simp only [bind, Except.bind]
    -- The last part was followed to a directory, so it is not too long and stands for something.
    cases hname with
    | stay hdir hpart =>
      have hdot : name = [Path.dot] := by
        have hmem : name ∈ p.way := by simp [hway]
        exact hpart.resolve_left (Path.ne_nil_of_mem_way hmem)
      rw [if_pos (.inl hdot)]
      rfl
    | up => rfl
    | down hpart hdots hlength hdir =>
      obtain ⟨children, hchildren⟩ := hdir
      rw [if_neg (not_or.mpr ⟨(not_or.mp hpart).2, hdots⟩), if_neg (Nat.not_lt.mpr hlength),
        hchildren]
      rfl
    | follow hpart hdots hlength hlink =>
      rw [if_neg (not_or.mpr ⟨(not_or.mp hpart).2, hdots⟩), if_neg (Nat.not_lt.mpr hlength), hlink]
      rfl

theorem TakesDir.isDir {there : Location} {name : Bytes} (h : t.TakesDir p there name) :
    (t.putAt (there ++ [name]) (.dir [])).isDir p = true := by
  obtain ⟨front, left, hway, hleads⟩ := h.way
  obtain ⟨children, hchildren⟩ := hleads.isDirAt
  have hkeep : t.Keeps (t.putAt (there ++ [name]) (.dir [])) := by
    apply keeps_putAt (.inl h.free)
    intro back target
    cases back <;> simp [Node.get?, Node.child?]
  have hself : (t.putAt (there ++ [name]) (.dir [])).IsDirAt (there ++ [name]) :=
    ⟨[], Node.get?_put_self _ hchildren name⟩
  refine isDir_iff.mpr ⟨h.check, left, there ++ [name], ?_⟩
  unfold LeadsTo
  rw [hway]
  exact (hleads.keep hkeep).trans
    (.down h.isName.not_void h.isName.ne_dots h.short hself (.arrived hself))

theorem isDir_of_makeDir (h : t.makeDir p = .ok later) : later.isDir p = true := by
  obtain ⟨there, name, htakes, rfl⟩ := makeDir_eq_ok_iff.mp h
  exact htakes.isDir

end

theorem resolveFrom_lookAtLink {t : FileTree}
    (hlinks : ∀ location target, t.top.get? location ≠ some (.link target)) (links : Nat)
    (here : Location) (parts : List Bytes) :
    t.resolveFrom .lookAtLink links here parts = t.resolveFrom .look links here parts := by
  induction links, here, parts using resolveFrom_induction t .look with
  | nil links here => rw [resolveFrom_nil, resolveFrom_nil]
  | cons links here part rest ih =>
    have hnext : next .lookAtLink links here part rest t = next .look links here part rest t := by
      unfold next nextOf
      cases hbelow : t.faceAt (here ++ [part]) with
      | none => simp [nextInto]
      | some face =>
        cases face with
        | file content => simp [nextInto]
        | dir => simp [nextInto]
        | link target => exact absurd ((t.faceAt_eq_link_iff _ _).mp hbelow) (hlinks _ target)
    rw [resolveFrom_cons, resolveFrom_cons, hnext]
    cases hgo : next .look links here part rest t with
    | ends found => rfl
    | goesOn links' here' parts => exact ih links' here' parts (moves_of_next hgo)

theorem linkStat_of_leadsTo {t : FileTree}
    (hlinks : ∀ location target, t.top.get? location ≠ some (.link target)) {root : Path}
    {left : Nat} {there : Location} {children : List (Bytes × Node)}
    (hcheck : checkPath root = .ok ()) (hleads : t.LeadsTo root left there)
    (hchildren : t.top.get? there = some (.dir children)) :
    t.linkStat root = .ok (.dir children) := by
  obtain ⟨others, hothers, hlook, -⟩ := (leads_steps_iff.mpr hleads).exists_resolveFrom
  rw [hchildren] at hothers
  cases hothers
  rw [linkStat_eq_ok_iff]
  refine ⟨there, resolve_eq_ok_iff.mpr ⟨hcheck, ?_⟩⟩
  rw [resolveFrom_lookAtLink hlinks, hlook]

theorem leads_of_dots {t : FileTree} {here : Location} (hdir : t.IsDirAt here) (links : Nat)
    {parts : List Bytes} (h : ∀ part ∈ parts, part = [Path.dot]) :
    t.Leads links here parts links here := by
  induction parts with
  | nil => exact .arrived hdir
  | cons part parts ih =>
    rw [List.forall_mem_cons] at h
    exact .stay hdir (.inr h.1) (ih h.2)

theorem leadsTo_dotted {t : FileTree} (hdir : t.IsDirAt t.workingDir) (n : Nat) :
    t.LeadsTo (.dotted n) maxLinks t.workingDir := by
  have hstart : startOf t.workingDir (.dotted n) = t.workingDir := by
    unfold startOf
    cases n <;> rfl
  unfold LeadsTo
  rw [hstart, Path.way_dotted]
  exact leads_of_dots hdir maxLinks fun part => List.eq_of_mem_replicate

theorem checkPath_dotted {n : Nat} (hlength : 2 * (n + 1) < maxPath) :
    checkPath (.dotted (n + 1)) = .ok () := by
  have hnul : 0 ∉ (Path.dotted (n + 1)).bytes := by
    simp [Path.dotted, Path.dot, Path.slash]
  rw [checkPath_eq_ok_iff, Path.length_dotted]
  exact ⟨hnul, by simp [Path.bytes_dotted_succ], hlength⟩

theorem mem_of_makeNearest {t made : FileTree} {paths missing : List Path}
    (h : t.makeNearest paths = .ok (missing, made)) : ∀ q ∈ missing, q ∈ paths := by
  fun_induction makeNearest t paths generalizing missing made with
  | case1 | case2 | case3 | case6 =>
    cases h
    exact List.forall_mem_nil _
  | case4 p above _ _ nearest made hrest ih =>
    cases h
    exact List.forall_mem_cons.mpr
      ⟨List.mem_cons_self, fun q hq => List.mem_cons_of_mem p (ih hrest q hq)⟩
  | case5 | case7 | case8 => cases h

theorem makeDirs_induction {holds : FileTree → Prop} {p : Path}
    (hstep : ∀ q ∈ p.ancestors, ∀ t later, holds t → t.makeDir q = .ok later → holds later)
    {t : FileTree} (h : holds t) : holds (t.makeDirs p).1 := by
  have hnearest (paths : List Path) (hpaths : ∀ q ∈ paths, q ∈ p.ancestors)
      (missing : List Path) (made : FileTree)
      (hmade : t.makeNearest paths = .ok (missing, made)) : holds made := by
    fun_induction makeNearest t paths generalizing missing made with
    | case1 | case2 | case6 =>
      cases hmade
      exact h
    | case3 q above _ made hmake =>
      cases hmade
      exact hstep q (hpaths q List.mem_cons_self) t _ h hmake
    | case4 q above _ _ nearest made hrest ih =>
      cases hmade
      exact ih (List.forall_mem_cons.mp hpaths).2 _ _ hrest
    | case5 | case7 | case8 => cases hmade
  have heach (t : FileTree) (h : holds t) (paths : List Path)
      (hpaths : ∀ q ∈ paths, q ∈ p.ancestors) : holds (t.makeEach paths).1 := by
    fun_induction makeEach t paths with
    | case1 => exact h
    | case2 t q more made hmake ih =>
      rw [List.forall_mem_cons] at hpaths
      exact ih (hstep q hpaths.1 t made h hmake) hpaths.2
    | case3 t q more _ _ ih => exact ih h (List.forall_mem_cons.mp hpaths).2
    | case4 => exact h
    | case5 => exact h
  unfold makeDirs
  split
  · exact h
  · rename_i missing made hmade
    apply heach made (hnearest _ (fun _ hq => hq) _ _ hmade)
    intro q hq
    exact mem_of_makeNearest hmade q (List.mem_reverse.mp hq)

theorem isDir_of_makeEach {t made : FileTree} {paths : List Path} {p : Path}
    (h : t.makeEach (paths ++ [p]) = (made, .ok ())) : made.isDir p = true := by
  induction paths generalizing t with
  | nil =>
    rw [List.nil_append, makeEach] at h
    split at h
    · rename_i later hmake
      cases h
      exact isDir_of_makeDir hmake
    · split at h
      · rename_i hdir
        cases h
        exact hdir
      · cases h
    · cases h
  | cons q paths ih =>
    rw [List.cons_append, makeEach] at h
    split at h
    · exact ih h
    · split at h
      · exact ih h
      · cases h
    · cases h

theorem exists_ancestors (p : Path) : ∃ above, p.ancestors = p :: above := by
  unfold Path.ancestors Path.ancestorsUpTo
  exact ⟨_, rfl⟩

/-- Paths for which nothing is ever made: the empty one, and those with nothing above them. -/
def IsGiven (p : Path) : Prop := p.bytes = [] ∨ p.parent? = none

theorem isDir_of_makeDirs {t made : FileTree} {p : Path} (h : t.makeDirs p = (made, .ok ())) :
    IsGiven p ∨ made.isDir p = true := by
  obtain ⟨above, habove⟩ := exists_ancestors p
  by_cases hgiven : p.bytes = [] ∨ p.parent? = none
  · exact .inl hgiven
  right
  unfold makeDirs at h
  rw [habove, makeNearest, if_neg hgiven] at h
  cases hmake : t.makeDir p with
  | ok later =>
    simp only [hmake, List.reverse_nil, makeEach] at h
    cases h
    exact isDir_of_makeDir hmake
  | error e =>
    simp only [hmake] at h
    split at h
    · cases h
    · rename_i missing later hnearest
      split at hnearest
      · rename_i heq
        cases heq
      · split at hnearest
        · cases hnearest
          rw [List.reverse_cons] at h
          exact isDir_of_makeEach h
        · cases hnearest
      · split at hnearest
        · rename_i hdir
          cases hnearest
          cases h
          exact hdir
        · cases hnearest
      · cases hnearest

theorem makeDirs_of_isDir {t : FileTree} {p : Path} (h : IsGiven p ∨ t.isDir p = true) :
    t.makeDirs p = (t, .ok ()) := by
  obtain ⟨above, habove⟩ := exists_ancestors p
  have hnearest : t.makeNearest (p :: above) = .ok ([], t) := by
    rw [makeNearest]
    split
    · rfl
    · rename_i hgiven
      have hdir := h.resolve_left hgiven
      rw [makeDir_of_isDir hdir]
      simp only [hdir, if_true]
  unfold makeDirs
  rw [habove, hnearest]
  rfl

/-- Directories that were made stay, so there is nothing to make for them any more. -/
theorem makeDirs_again {t made later : FileTree} {p : Path} (h : t.makeDirs p = (made, .ok ()))
    (hkeep : made.Keeps later) : later.makeDirs p = (later, .ok ()) := by
  apply makeDirs_of_isDir
  exact (isDir_of_makeDirs h).imp_right (isDir_keep hkeep)

end ApiAtlas.FileTree
