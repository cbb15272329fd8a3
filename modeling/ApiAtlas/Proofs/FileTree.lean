import ApiAtlas.Proofs.FileTree.Steps
import ApiAtlas.Proofs.Path

/-!
Following paths in a tree that changes. The way to a directory goes through directories and links
alone, so it is the same in every later tree that keeps them; writing a file and making a directory
do keep them.
-/
namespace ApiAtlas.FileTree

theorem checkPath_eq_ok_iff {p : Path} :
    checkPath p = .ok () ↔ 0 ∉ p.bytes ∧ p.bytes ≠ [] ∧ p.bytes.length < maxPath := by
  unfold checkPath
  split_ifs with hnul hempty hlong
  · simp [hnul]
  · simp [hempty]
  · simp [Nat.not_lt.mpr hlong]
  · simp [hnul, hempty, Nat.not_le.mp hlong]

theorem resolve_eq_ok_iff {t : FileTree} {aim : Aim} {p : Path} {spot : Spot} :
    t.resolve aim p = .ok spot ↔ checkPath p = .ok () ∧
      t.resolveFrom aim maxLinks (startOf t.workingDir p) (steps p) = .ok spot := by
  unfold resolve
  cases checkPath p with
  | error e => simp [bind, Except.bind]
  | ok u => simp [bind, Except.bind]

/-- Following `parts` from `here`, with so many links allowed, ends in the directory `there`, with
so many links left. -/
inductive Leads (t : FileTree) : (links : Nat) → (here : Location) → (parts : List Bytes) →
    (left : Nat) → (there : Location) → Prop where
  | arrived {links : Nat} {here : Location} (hdir : t.IsDirAt here) :
      Leads t links here [] links here
  | stay {links left : Nat} {here there : Location} {part : Bytes} {rest : List Bytes}
      (hdir : t.IsDirAt here) (hpart : part = [] ∨ part = [Path.dot])
      (hrest : Leads t links here rest left there) : Leads t links here (part :: rest) left there
  | up {links left : Nat} {here there : Location} {rest : List Bytes} (hdir : t.IsDirAt here)
      (hrest : Leads t links here.dropLast rest left there) :
      Leads t links here ([Path.dot, Path.dot] :: rest) left there
  | down {links left : Nat} {here there : Location} {part : Bytes} {rest : List Bytes}
      (hpart : ¬(part = [] ∨ part = [Path.dot])) (hdots : part ≠ [Path.dot, Path.dot])
      (hlength : part.length ≤ maxName) (hdir : t.IsDirAt (here ++ [part]))
      (hrest : Leads t links (here ++ [part]) rest left there) :
      Leads t links here (part :: rest) left there
  | follow {links left : Nat} {here there : Location} {part : Bytes} {rest : List Bytes}
      {target : Path} (hpart : ¬(part = [] ∨ part = [Path.dot]))
      (hdots : part ≠ [Path.dot, Path.dot]) (hlength : part.length ≤ maxName)
      (hlink : t.top.get? (here ++ [part]) = some (.link target)) (htarget : target.bytes ≠ [])
      (hrest : Leads t links (startOf here target) (steps target ++ rest) left there) :
      Leads t (links + 1) here (part :: rest) left there

/-- A tree that has every directory of `t` where `t` has it, and the links of `t` and no others. -/
structure Keeps (t later : FileTree) : Prop where
  workingDir : later.workingDir = t.workingDir
  dirs : ∀ location, t.IsDirAt location → later.IsDirAt location
  links : ∀ location target, later.top.get? location = some (.link target) ↔
    t.top.get? location = some (.link target)

theorem Keeps.refl (t : FileTree) : t.Keeps t := ⟨rfl, fun _ h => h, fun _ _ => Iff.rfl⟩

theorem Keeps.trans {t later latest : FileTree} (h : t.Keeps later) (hlater : later.Keeps latest) :
    t.Keeps latest where
  workingDir := hlater.workingDir.trans h.workingDir
  dirs location hdir := hlater.dirs location (h.dirs location hdir)
  links location target := (hlater.links location target).trans (h.links location target)

theorem Keeps.noLinks {t later : FileTree} (h : t.Keeps later)
    (hlinks : ∀ location target, t.top.get? location ≠ some (.link target)) (location : Location)
    (target : Path) : later.top.get? location ≠ some (.link target) :=
  fun hlink => hlinks location target ((h.links location target).mp hlink)

theorem Leads.keep {t later : FileTree} (hkeep : t.Keeps later) {links left : Nat}
    {here there : Location} {parts : List Bytes} (h : t.Leads links here parts left there) :
    later.Leads links here parts left there := by
  induction h with
  | arrived hdir => exact .arrived (hkeep.dirs _ hdir)
  | stay hdir hpart _ ih => exact .stay (hkeep.dirs _ hdir) hpart ih
  | up hdir _ ih => exact .up (hkeep.dirs _ hdir) ih
  | down hpart hdots hlength hdir _ ih =>
    exact .down hpart hdots hlength (hkeep.dirs _ hdir) ih
  | follow hpart hdots hlength hlink htarget _ ih =>
    exact .follow hpart hdots hlength ((hkeep.links _ _).2 hlink) htarget ih

theorem Moves.keep {t later : FileTree} (hkeep : t.Keeps later) {aim : Aim} {links links' : Nat}
    {here here' : Location} {part : Bytes} {rest parts : List Bytes}
    (h : t.Moves aim links here part rest links' here' parts) (hsome : later.faceAt here' ≠ none) :
    later.Moves aim links here part rest links' here' parts := by
  cases h with
  | stay hdir hpart => exact .stay (hkeep.dirs _ hdir) hpart
  | up hdir => exact .up (hkeep.dirs _ hdir)
  | @down _ _ _ _ node hname hnode hlink =>
    obtain ⟨other, hother⟩ :=
      Option.ne_none_iff_exists'.mp (mt (later.faceAt_eq_none_iff _).mpr hsome)
    refine .down hname hother ?_
    rintro target rfl
    rw [(hkeep.links _ target).mp hother] at hnode
    exact hlink target (Option.some.inj hnode).symm
  | follow hname hlink hend htarget =>
    exact .follow hname ((hkeep.links _ _).mpr hlink) hend htarget

theorem Leads.isDirAt {t : FileTree} {links left : Nat} {here there : Location}
    {parts : List Bytes} (h : t.Leads links here parts left there) : t.IsDirAt there := by
  induction h with
  | arrived hdir => exact hdir
  | stay _ _ _ ih => exact ih
  | up _ _ ih => exact ih
  | down _ _ _ _ _ ih => exact ih
  | follow _ _ _ _ _ _ ih => exact ih

/-- What comes behind the way to a directory is looked for there. The end of a path may be read in
another way than the rest, so it must not stand on the way. -/
theorem Leads.resolveFrom_behind {t : FileTree} {links left : Nat} {here there : Location}
    {parts : List Bytes} (h : t.Leads links here parts left there) {aim : Aim} {more : List Bytes}
    (hmore : aim = .look ∨ more ≠ [] ∧ more ≠ [[]]) :
    t.resolveFrom aim links here (parts ++ more) = t.resolveFrom aim left there more := by
  have hwrite (rest : List Bytes) : ¬(aim = .write ∧ rest ++ more = [[]]) := by
    rintro ⟨rfl, hend⟩
    cases rest <;> simp_all
  have hlook (rest : List Bytes) : ¬(rest ++ more = [] ∧ aim = .lookAtLink) := by
    rintro ⟨hend, rfl⟩
    simp_all
  induction h with
  | arrived => rfl
  | stay hdir hpart _ ih => exact (Moves.resolveFrom_eq (.stay hdir hpart)).trans ih
  | up hdir _ ih => exact (Moves.resolveFrom_eq (.up hdir)).trans ih
  | @down _ _ _ _ _ rest hpart hdots hlength hdir _ ih =>
    obtain ⟨children, hchildren⟩ := hdir
    have hname : IsLookup aim _ (rest ++ more) := ⟨hpart, hdots, hwrite rest, hlength⟩
    exact (Moves.resolveFrom_eq (.down hname hchildren (by simp))).trans ih
  | @follow _ _ _ _ _ rest target hpart hdots hlength hlink htarget _ ih =>
    have hname : IsLookup aim _ (rest ++ more) := ⟨hpart, hdots, hwrite rest, hlength⟩
    rw [List.append_assoc] at ih
    exact (Moves.resolveFrom_eq (.follow hname hlink (hlook rest) htarget)).trans ih

theorem Leads.resolveFrom_append {t : FileTree} {links left : Nat} {here there : Location}
    {parts : List Bytes} (h : t.Leads links here parts left there) (aim : Aim) {last : Bytes}
    (hlast : last ≠ []) :
    t.resolveFrom aim links here (parts ++ [last]) = t.resolveFrom aim left there [last] :=
  h.resolveFrom_behind (.inr ⟨List.cons_ne_nil _ _, by simp [hlast]⟩)

theorem Leads.exists_resolveFrom {t : FileTree} {links left : Nat} {here there : Location}
    {parts : List Bytes} (h : t.Leads links here parts left there) :
    ∃ children, t.top.get? there = some (.dir children) ∧
      t.resolveFrom .look links here parts = .ok (.node there (.dir children)) ∧
      ∀ aim, t.resolveFrom aim links here (parts ++ [[Path.dot]]) =
        .ok (.node there (.dir children)) := by
  obtain ⟨children, hchildren⟩ := h.isDirAt
  refine ⟨children, hchildren, ?_, ?_⟩
  · have hend : t.resolveFrom .look links here (parts ++ []) = _ := h.resolveFrom_behind (.inl rfl)
    rw [← List.append_nil parts, hend, resolveFrom_nil, hchildren]
  · intro aim
    have hmove : t.Moves aim left there [Path.dot] [] left there [] :=
      .stay ⟨children, hchildren⟩ (.inr rfl)
    rw [h.resolveFrom_append aim (List.cons_ne_nil _ _), hmove.resolveFrom_eq, resolveFrom_nil,
      hchildren]

theorem Leads.isDirAt_start {t : FileTree} {links left : Nat} {here there : Location}
    {parts : List Bytes} (h : t.Leads links here parts left there) : t.IsDirAt here := by
  cases h with
  | arrived hdir => exact hdir
  | stay hdir => exact hdir
  | up hdir => exact hdir
  | down _ _ _ hdir =>
    obtain ⟨children, hchildren⟩ := hdir
    exact isDirAt_of_append hchildren (List.cons_ne_nil _ [])
  | follow _ _ _ hlink => exact isDirAt_of_append hlink (List.cons_ne_nil _ [])

theorem Moves.leads {t : FileTree} {aim : Aim} {links links' : Nat} {here here' : Location}
    {part : Bytes} {rest parts : List Bytes}
    (h : t.Moves aim links here part rest links' here' parts) :
    ∃ front, parts = front ++ rest ∧ ∀ (more : List Bytes) (left : Nat) (there : Location),
      t.Leads links' here' (front ++ more) left there →
        t.Leads links here (part :: more) left there := by
  cases h with
  | stay hdir hpart => exact ⟨[], rfl, fun _ _ _ hmore => .stay hdir hpart hmore⟩
  | up hdir => exact ⟨[], rfl, fun _ _ _ hmore => .up hdir hmore⟩
  | down hname =>
    exact ⟨[], rfl, fun _ _ _ hmore =>
      .down hname.notVoid hname.notDots hname.short hmore.isDirAt_start hmore⟩
  | @follow _ _ _ _ target hname hlink _ htarget =>
    exact ⟨steps target, rfl, fun _ _ _ hmore =>
      .follow hname.notVoid hname.notDots hname.short hlink htarget hmore⟩

theorem leads_of_resolveFrom {t : FileTree} {aim : Aim} {links : Nat} {here : Location}
    {last : Bytes} {spot : Spot} (parts : List Bytes)
    (h : t.resolveFrom aim links here (parts ++ [last]) = .ok spot) :
    ∃ left there, t.Leads links here parts left there := by
  rw [resolveFrom_eq_ok_iff] at h
  generalize hall : parts ++ [last] = all at h
  induction h generalizing parts with
  | arrived => simp at hall
  | vacant hdir =>
    obtain ⟨rfl, -⟩ := List.append_eq_singleton_iff.mp hall |>.resolve_right (by simp)
    exact ⟨_, _, .arrived hdir⟩
  | link _ _ hlink =>
    obtain ⟨rfl, -⟩ := List.append_eq_singleton_iff.mp hall |>.resolve_right (by simp)
    exact ⟨_, _, .arrived (isDirAt_of_append hlink (List.cons_ne_nil _ []))⟩
  | moved hmove _ ih =>
    rcases List.append_eq_cons_iff.mp hall with ⟨rfl, -⟩ | ⟨more, rfl, hmore⟩
    · exact ⟨_, _, .arrived hmove.isDirAt⟩
    · obtain ⟨front, rfl, hleads⟩ := hmove.leads
      obtain ⟨left, there, hrest⟩ := ih (front ++ more) (by rw [List.append_assoc, hmore])
      exact ⟨left, there, hleads more left there hrest⟩

/-- Where the names below a path stand. The empty path leads to the working directory. -/
def place (t : FileTree) (dir : Path) : Except IoError Spot :=
  t.resolveFrom .look maxLinks (startOf t.workingDir dir) (dir.way ++ [[Path.dot]])

abbrev LeadsTo (t : FileTree) (dir : Path) (left : Nat) (there : Location) : Prop :=
  t.Leads maxLinks (startOf t.workingDir dir) dir.way left there

theorem Leads.place_eq {t : FileTree} {dir : Path} {left : Nat} {there : Location}
    (h : t.LeadsTo dir left there) : ∃ node, t.place dir = .ok (.node there node) := by
  obtain ⟨children, -, -, hdot⟩ := h.exists_resolveFrom
  exact ⟨.dir children, hdot .look⟩

theorem LeadsTo.keep {t later : FileTree} (hkeep : t.Keeps later) {dir : Path} {left : Nat}
    {there : Location} (h : t.LeadsTo dir left there) : later.LeadsTo dir left there := by
  unfold LeadsTo
  rw [hkeep.workingDir]
  exact Leads.keep hkeep h

section

variable {t : FileTree} {dir : Path} {left : Nat} {there : Location} {name : Bytes}

theorem resolve_join (hname : Path.IsName name) (hleads : t.LeadsTo dir left there) (aim : Aim)
    (hcheck : checkPath (dir.join ⟨name⟩) = .ok ()) :
    t.resolve aim (dir.join ⟨name⟩) = t.resolveFrom aim left there [name] := by
  unfold resolve
  rw [hcheck, startOf_join hname, steps_join hname]
  exact hleads.resolveFrom_append aim hname.ne_nil

theorem resolveFrom_name {children : List (Bytes × Node)} (hname : Path.IsName name)
    (hchildren : t.top.get? there = some (.dir children)) (aim : Aim)
    (hlink : ∀ target, t.top.get? (there ++ [name]) ≠ some (.link target)) :
    t.resolveFrom aim left there [name] =
      if maxName < name.length then .error .nameTooLong
      else
        match t.top.get? (there ++ [name]) with
        | some node => .ok (.node (there ++ [name]) node)
        | none => .ok (.vacant there name) := by
  rw [resolveFrom_cons, next_of_name ⟨children, hchildren⟩ hname.not_void hname.ne_dots (by simp)]
  by_cases hlong : maxName < name.length
  · rw [if_pos hlong, if_pos hlong]
  rw [if_neg hlong, if_neg hlong, faceAt]
  cases hnode : t.top.get? (there ++ [name]) with
  | none => rfl
  | some node =>
    cases node with
    | link target => exact absurd hnode (hlink target)
    | file content => simp only [Option.map_some, Node.face, nextInto, resolveFrom_nil, hnode]
    | dir children => simp only [Option.map_some, Node.face, nextInto, resolveFrom_nil, hnode]

def TakesFile (t : FileTree) (location : Location) : Prop :=
  t.top.get? location = none ∨ ∃ content, t.top.get? location = some (.file content)

/-- What takes no file's place, and brings no links, leaves every way as it was. -/
theorem keeps_putAt (h : t.TakesFile (there ++ [name])) {new : Node}
    (hnew : ∀ back target, new.get? back ≠ some (.link target)) :
    t.Keeps (t.putAt (there ++ [name]) new) := by
  -- A location with a directory or a link is above the new node, or beside it.
  have hbelow (back : Location) (node : Node)
      (hnode : t.top.get? (there ++ [name] ++ back) = some node) :
      ∃ content, node = .file content := by
    cases back with
    | nil =>
      rw [List.append_nil] at hnode
      rcases h with hfree | ⟨content, hfile⟩
      · rw [hfree] at hnode
        contradiction
      · rw [hfile] at hnode
        exact ⟨content, (Option.some.inj hnode).symm⟩
    | cons next back =>
      obtain ⟨children, hdir⟩ := Node.exists_dir_of_get? hnode
      rcases h with hfree | ⟨content, hfile⟩
      · rw [hfree] at hdir
        contradiction
      · rw [hfile] at hdir
        cases hdir
  refine ⟨rfl, ?_, ?_⟩
  · rintro location ⟨children, hdir⟩
    rcases Node.location_cases (there ++ [name]) location with
      ⟨back, rfl⟩ | ⟨next, rest, heq⟩ | ⟨front, x, y, as, bs, hne, heq, rfl⟩
    · obtain ⟨content, hfile⟩ := hbelow back _ hdir
      cases hfile
    · obtain ⟨others, hothers⟩ := Node.exists_put_dir new next rest children
      refine ⟨others, ?_⟩
      unfold putAt
      rw [heq, Node.get?_put_above, hdir, Option.map_some, hothers]
    · refine ⟨children, ?_⟩
      unfold putAt
      rw [heq, Node.get?_put_beside new front hne.symm, hdir]
  · intro location target
    unfold putAt
    rcases Node.location_cases (there ++ [name]) location with
      ⟨back, rfl⟩ | ⟨next, rest, heq⟩ | ⟨front, x, y, as, bs, hne, heq, rfl⟩
    · constructor
      · intro hlink
        exact absurd (Node.get?_put_below new hlink) (hnew back target)
      · intro hlink
        obtain ⟨content, hfile⟩ := hbelow back _ hlink
        cases hfile
    · rw [heq, Node.get?_put_above]
      cases t.top.get? location with
      | none => rfl
      | some node =>
        cases node with
        | file content => simp
        | link other => simp
        | dir children =>
          obtain ⟨others, hothers⟩ := Node.exists_put_dir new next rest children
          simp [hothers]
    · rw [heq, Node.get?_put_beside new front hne.symm]

theorem keeps_putAt_file (h : t.TakesFile (there ++ [name])) (content : Bytes) :
    t.Keeps (t.putAt (there ++ [name]) (.file content)) := by
  apply keeps_putAt h
  intro back target
  cases back <;> simp [Node.get?, Node.child?]

theorem leads_of_writeFile {later : FileTree} {content : Bytes} (hname : Path.IsName name)
    (h : t.writeFile (dir.join ⟨name⟩) content = .ok later) :
    ∃ left there, t.LeadsTo dir left there := by
  unfold writeFile resolve at h
  cases hcheck : checkPath (dir.join ⟨name⟩) with
  | error e => simp [hcheck, bind, Except.bind] at h
  | ok u =>
    rw [startOf_join hname, steps_join hname] at h
    cases hspot : t.resolveFrom .write maxLinks (startOf t.workingDir dir) (dir.way ++ [name]) with
    | error e => simp [hcheck, hspot, bind, Except.bind] at h
    | ok spot => exact leads_of_resolveFrom dir.way hspot

theorem writeFile_eq {later : FileTree} {content : Bytes} (hname : Path.IsName name)
    (hleads : t.LeadsTo dir left there)
    (hlink : ∀ target, t.top.get? (there ++ [name]) ≠ some (.link target))
    (h : t.writeFile (dir.join ⟨name⟩) content = .ok later) :
    checkPath (dir.join ⟨name⟩) = .ok () ∧ name.length ≤ maxName ∧ t.TakesFile (there ++ [name]) ∧
      later = t.putAt (there ++ [name]) (.file content) := by
  obtain ⟨children, hchildren⟩ := hleads.isDirAt
  unfold writeFile at h
  cases hcheck : checkPath (dir.join ⟨name⟩) with
  | error e => simp [resolve, hcheck, bind, Except.bind] at h
  | ok u =>
    rw [resolve_join hname hleads .write hcheck, resolveFrom_name hname hchildren .write hlink] at h
    by_cases hlength : maxName < name.length
    · simp [hlength, bind, Except.bind] at h
    rw [if_neg hlength] at h
    refine ⟨rfl, Nat.not_lt.1 hlength, ?_⟩
    cases hnode : t.top.get? (there ++ [name]) with
    | none =>
      rw [hnode] at h
      exact ⟨.inl hnode, (Except.ok.inj h).symm⟩
    | some node =>
      rw [hnode] at h
      cases node with
      | link target => exact absurd hnode (hlink target)
      | dir others => simp [bind, Except.bind, throw, throwThe, MonadExceptOf.throw] at h
      | file old => exact ⟨.inr ⟨old, hnode⟩, (Except.ok.inj h).symm⟩

theorem readBytes_eq {content : Bytes} (hname : Path.IsName name)
    (hleads : t.LeadsTo dir left there) (hcheck : checkPath (dir.join ⟨name⟩) = .ok ())
    (hlength : name.length ≤ maxName)
    (hfile : t.top.get? (there ++ [name]) = some (.file content)) :
    t.readBytes (dir.join ⟨name⟩) = .ok content := by
  obtain ⟨children, hchildren⟩ := hleads.isDirAt
  have hlink (target : Path) : t.top.get? (there ++ [name]) ≠ some (.link target) := by
    rw [hfile]
    exact fun he => by cases he
  have hresolve : t.resolve .look (dir.join ⟨name⟩) =
      .ok (.node (there ++ [name]) (.file content)) := by
    rw [resolve_join hname hleads .look hcheck, resolveFrom_name hname hchildren .look hlink,
      if_neg (Nat.not_lt.2 hlength), hfile]
  unfold readBytes stat
  rw [hresolve]
  rfl

theorem keeps_makeDir {later : FileTree} {p : Path} (h : t.makeDir p = .ok later) :
    t.Keeps later := by
  unfold makeDir create at h
  cases hparent : t.parentOf p with
  | error e => simp [hparent, bind, Except.bind] at h
  | ok parent =>
    simp only [hparent, bind, Except.bind] at h
    split at h
    · cases h
    · rename_i last _
      split_ifs at h
      split at h
      · cases h
      · rename_i hfree
        rw [← Except.ok.inj h]
        apply keeps_putAt (.inl hfree)
        intro back target
        cases back <;> simp [Node.get?, Node.child?]

theorem keeps_makeNearest {paths missing : List Path} {later : FileTree}
    (h : t.makeNearest paths = .ok (missing, later)) : t.Keeps later := by
  fun_induction makeNearest t paths generalizing missing later with
  | case1 | case2 =>
    cases h
    exact .refl t
  | case3 p above _ made hmade =>
    cases h
    exact keeps_makeDir hmade
  | case4 p above _ _ nearest made hmade ih =>
    cases h
    exact ih hmade
  | case6 =>
    cases h
    exact .refl t
  | case5 | case7 | case8 => cases h

theorem keeps_makeEach (paths : List Path) : t.Keeps (t.makeEach paths).1 := by
  fun_induction makeEach t paths with
  | case1 => exact .refl _
  | case2 t p more made hmade ih => exact (keeps_makeDir hmade).trans ih
  | case3 t p more _ _ ih => exact ih
  | case4 => exact .refl _
  | case5 => exact .refl _

theorem keeps_makeDirs (p : Path) : t.Keeps (t.makeDirs p).1 := by
  unfold makeDirs
  cases hnearest : t.makeNearest p.ancestors with
  | error e => exact .refl t
  | ok nearest =>
    obtain ⟨missing, made⟩ := nearest
    exact (keeps_makeNearest hnearest).trans (keeps_makeEach missing.reverse)

end

end ApiAtlas.FileTree
