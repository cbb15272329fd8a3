import ApiAtlas.Proofs.FileTree.Order

/-!
What one part of a path does. It depends on what the tree shows at the place and right below it, and
either ends the way or goes on from another place. Everything about ways is told in terms of that:
one induction over what a path comes to, and one over the moves to what it finds.
-/
namespace ApiAtlas.FileTree

def faceAt (t : FileTree) (location : Location) : Option Face :=
  (t.top.get? location).map Node.face

def IsDirAt (t : FileTree) (location : Location) : Prop :=
  ∃ children, t.top.get? location = some (.dir children)

theorem faceAt_eq_none_iff (t : FileTree) (location : Location) :
    t.faceAt location = none ↔ t.top.get? location = none := by
  simp [faceAt]

theorem faceAt_eq_file_iff (t : FileTree) (location : Location) (content : Bytes) :
    t.faceAt location = some (.file content) ↔ t.top.get? location = some (.file content) := by
  unfold faceAt
  cases t.top.get? location with
  | none => simp
  | some node => cases node <;> simp [Node.face]

theorem faceAt_eq_link_iff (t : FileTree) (location : Location) (target : Path) :
    t.faceAt location = some (.link target) ↔ t.top.get? location = some (.link target) := by
  unfold faceAt
  cases t.top.get? location with
  | none => simp
  | some node => cases node <;> simp [Node.face]

theorem faceAt_eq_dir_iff (t : FileTree) (location : Location) :
    t.faceAt location = some .dir ↔ t.IsDirAt location := by
  unfold faceAt IsDirAt
  cases t.top.get? location with
  | none => simp
  | some node => cases node <;> simp [Node.face]

theorem get?_of_faceAt {t : FileTree} {location : Location} {face : Face}
    (h : t.faceAt location = some face) :
    ∃ node, t.top.get? location = some node ∧ node.face = face :=
  Option.map_eq_some_iff.mp h

theorem isDirAt_of_append {t : FileTree} {front back : Location} {node : Node}
    (h : t.top.get? (front ++ back) = some node) (hback : back ≠ []) : t.IsDirAt front := by
  cases back with
  | nil => exact absurd rfl hback
  | cons name back => exact Node.exists_dir_of_get? h

theorem isDirAt_dropLast {t : FileTree} {location : Location} (h : t.IsDirAt location) :
    t.IsDirAt location.dropLast := by
  rcases List.eq_nil_or_concat location with rfl | ⟨front, name, rfl⟩
  · exact h
  · obtain ⟨children, hchildren⟩ := h
    rw [List.concat_eq_append] at hchildren ⊢
    rw [List.dropLast_concat]
    exact isDirAt_of_append hchildren (List.cons_ne_nil name [])

/-- What a part comes to: the end of the way, or another place and the parts to go on with. -/
inductive Next where
  | ends (found : Except IoError Spot)
  | goesOn (links : Nat) (here : Location) (parts : List Bytes)

section

variable (aim : Aim) (links : Nat) (here : Location) (part : Bytes) (rest : List Bytes)

def nextInto : Option Face → Next
  | none => .ends (if rest = [] then .ok (.vacant here part) else .error .notFound)
  | some (.link target) =>
    if rest = [] ∧ aim = .lookAtLink then .ends (.ok (.node (here ++ [part]) (.link target)))
    else
      match links with
      | 0 => .ends (.error .tooManyLinks)
      | links + 1 =>
        if target.bytes = [] then .ends (.error .notFound)
        else .goesOn links (startOf here target) (steps target ++ rest)
  | some _ => .goesOn links (here ++ [part]) rest

def nextOf (shown below : Option Face) : Next :=
  match shown with
  | none => .ends (.error .notFound)
  | some .dir =>
    if part = [] ∨ part = [Path.dot] then .goesOn links here rest
    else if part = [Path.dot, Path.dot] then .goesOn links here.dropLast rest
    else if aim = .write ∧ rest = [[]] then .ends (.error .isDirectory)
    else if maxName < part.length then .ends (.error .nameTooLong)
    else nextInto aim links here part rest below
  | some _ => .ends (.error .notDirectory)

def next (t : FileTree) : Next :=
  nextOf aim links here part rest (t.faceAt here) (t.faceAt (here ++ [part]))

structure IsLookup : Prop where
  notVoid : ¬(part = [] ∨ part = [Path.dot])
  notDots : part ≠ [Path.dot, Path.dot]
  writable : ¬(aim = .write ∧ rest = [[]])
  short : part.length ≤ maxName

/-- A part fails, stays, goes up, or is looked up as a name; what stands below counts for names
only. -/
theorem nextOf_cases (shown : Option Face) :
    (∃ e, ∀ below, nextOf aim links here part rest shown below = .ends (.error e)) ∨
      shown = some .dir ∧
        ((part = [] ∨ part = [Path.dot]) ∧
            (∀ below, nextOf aim links here part rest shown below = .goesOn links here rest) ∨
          part = [Path.dot, Path.dot] ∧
            (∀ below,
              nextOf aim links here part rest shown below = .goesOn links here.dropLast rest) ∨
          IsLookup aim part rest ∧
            ∀ below, nextOf aim links here part rest shown below =
              nextInto aim links here part rest below) := by
  unfold nextOf
  cases shown with
  | none => exact .inl ⟨_, fun _ => rfl⟩
  | some face =>
    cases face with
    | file content => exact .inl ⟨_, fun _ => rfl⟩
    | link target => exact .inl ⟨_, fun _ => rfl⟩
    | dir =>
      simp only
      split_ifs with hvoid hdots hwrite hlong
      · exact .inr ⟨trivial, .inl ⟨hvoid, fun _ => rfl⟩⟩
      · exact .inr ⟨trivial, .inr (.inl ⟨hdots, fun _ => rfl⟩)⟩
      · exact .inl ⟨_, fun _ => rfl⟩
      · exact .inl ⟨_, fun _ => rfl⟩
      · exact .inr ⟨trivial,
          .inr (.inr ⟨⟨hvoid, hdots, hwrite, Nat.not_lt.mp hlong⟩, fun _ => rfl⟩)⟩

end

theorem resolveFrom_nil (t : FileTree) (aim : Aim) (links : Nat) (here : Location) :
    t.resolveFrom aim links here [] =
      match t.top.get? here with
      | some node => .ok (.node here node)
      | none => .error .notFound := by
  unfold resolveFrom
  rfl

theorem resolveFrom_cons (t : FileTree) (aim : Aim) (links : Nat) (here : Location) (part : Bytes)
    (rest : List Bytes) :
    t.resolveFrom aim links here (part :: rest) =
      match next aim links here part rest t with
      | .ends found => found
      | .goesOn links here parts => t.resolveFrom aim links here parts := by
  rw [resolveFrom]
  unfold next nextOf faceAt
  cases hhere : t.top.get? here with
  | none => rfl
  | some node =>
    cases node with
    | file content => rfl
    | link target => rfl
    | dir children =>
      simp only [Option.map_some, Node.face, Node.get?_append_singleton hhere part]
      by_cases hvoid : part = [] ∨ part = [Path.dot]
      · simp only [if_pos hvoid]
      by_cases hdots : part = [Path.dot, Path.dot]
      · simp only [if_neg hvoid, if_pos hdots]
      by_cases hwrite : aim = .write ∧ rest = [[]]
      · simp only [if_neg hvoid, if_neg hdots, if_pos hwrite]
      by_cases hlong : maxName < part.length
      · simp only [if_neg hvoid, if_neg hdots, if_neg hwrite, if_pos hlong]
      simp only [if_neg hvoid, if_neg hdots, if_neg hwrite, if_neg hlong]
      unfold nextInto
      cases children.lookup part with
      | none => rfl
      | some child =>
        cases child with
        | file content => rfl
        | dir inner => rfl
        | link target =>
          simp only [Option.map_some, Node.face]
          by_cases hend : rest = [] ∧ aim = .lookAtLink
          · simp only [if_pos hend]
          simp only [if_neg hend]
          cases links with
          | zero => rfl
          | succ links =>
            by_cases htarget : target.bytes = []
            · simp only [if_pos htarget]
            · simp only [if_neg htarget]

/-- One part followed to where the way goes on. -/
inductive Moves (t : FileTree) (aim : Aim) : (links : Nat) → (here : Location) → (part : Bytes) →
    (rest : List Bytes) → (links' : Nat) → (here' : Location) → (parts : List Bytes) → Prop where
  | stay {links : Nat} {here : Location} {part : Bytes} {rest : List Bytes} (hdir : t.IsDirAt here)
      (hpart : part = [] ∨ part = [Path.dot]) : Moves t aim links here part rest links here rest
  | up {links : Nat} {here : Location} {rest : List Bytes} (hdir : t.IsDirAt here) :
      Moves t aim links here [Path.dot, Path.dot] rest links here.dropLast rest
  | down {links : Nat} {here : Location} {part : Bytes} {rest : List Bytes} {node : Node}
      (hname : IsLookup aim part rest) (hnode : t.top.get? (here ++ [part]) = some node)
      (hlink : ∀ target, node ≠ .link target) :
      Moves t aim links here part rest links (here ++ [part]) rest
  | follow {links : Nat} {here : Location} {part : Bytes} {rest : List Bytes} {target : Path}
      (hname : IsLookup aim part rest) (hlink : t.top.get? (here ++ [part]) = some (.link target))
      (hend : ¬(rest = [] ∧ aim = .lookAtLink)) (htarget : target.bytes ≠ []) :
      Moves t aim (links + 1) here part rest links (startOf here target) (steps target ++ rest)

section

variable {t : FileTree} {aim : Aim} {links links' : Nat} {here here' : Location} {part : Bytes}
  {rest parts : List Bytes}

theorem next_of_name (hdir : t.IsDirAt here) (hvoid : ¬(part = [] ∨ part = [Path.dot]))
    (hdots : part ≠ [Path.dot, Path.dot]) (hwrite : ¬(aim = .write ∧ rest = [[]])) :
    next aim links here part rest t =
      if maxName < part.length then .ends (.error .nameTooLong)
      else nextInto aim links here part rest (t.faceAt (here ++ [part])) := by
  unfold next nextOf
  rw [(t.faceAt_eq_dir_iff here).mpr hdir]
  simp only [if_neg hvoid, if_neg hdots, if_neg hwrite]

theorem next_of_lookup (hname : IsLookup aim part rest) (hdir : t.IsDirAt here) :
    next aim links here part rest t =
      nextInto aim links here part rest (t.faceAt (here ++ [part])) := by
  rw [next_of_name hdir hname.notVoid hname.notDots hname.writable,
    if_neg (Nat.not_lt.mpr hname.short)]

theorem moves_of_next (h : next aim links here part rest t = .goesOn links' here' parts) :
    t.Moves aim links here part rest links' here' parts := by
  unfold next at h
  rcases nextOf_cases aim links here part rest (t.faceAt here) with
    ⟨e, he⟩ | ⟨hdir, ⟨hvoid, hnext⟩ | ⟨rfl, hnext⟩ | ⟨hname, hnext⟩⟩
  · rw [he] at h
    cases h
  · rw [hnext] at h
    cases h
    exact .stay ((t.faceAt_eq_dir_iff here).mp hdir) hvoid
  · rw [hnext] at h
    cases h
    exact .up ((t.faceAt_eq_dir_iff here).mp hdir)
  · rw [hnext] at h
    cases hbelow : t.faceAt (here ++ [part]) with
    | none =>
      rw [hbelow] at h
      cases h
    | some face =>
      obtain ⟨node, hnode, rfl⟩ := get?_of_faceAt hbelow
      rw [hbelow] at h
      cases node with
      | file content =>
        cases h
        exact .down hname hnode (by simp)
      | dir children =>
        cases h
        exact .down hname hnode (by simp)
      | link target =>
        simp only [Node.face, nextInto] at h
        by_cases hend : rest = [] ∧ aim = .lookAtLink
        · rw [if_pos hend] at h
          cases h
        rw [if_neg hend] at h
        cases links with
        | zero => cases h
        | succ links =>
          by_cases htarget : target.bytes = []
          · simp only [if_pos htarget] at h
            cases h
          simp only [if_neg htarget] at h
          cases h
          exact .follow hname hnode hend htarget

theorem found_of_next {spot : Spot} (h : next aim links here part rest t = .ends (.ok spot)) :
    rest = [] ∧ t.IsDirAt here ∧ IsLookup aim part [] ∧
      (t.top.get? (here ++ [part]) = none ∧ spot = .vacant here part ∨
        ∃ target, aim = .lookAtLink ∧ t.top.get? (here ++ [part]) = some (.link target) ∧
          spot = .node (here ++ [part]) (.link target)) := by
  unfold next at h
  rcases nextOf_cases aim links here part rest (t.faceAt here) with
    ⟨e, he⟩ | ⟨hdir, ⟨_, hnext⟩ | ⟨_, hnext⟩ | ⟨hname, hnext⟩⟩
  · rw [he] at h
    cases h
  · rw [hnext] at h
    cases h
  · rw [hnext] at h
    cases h
  · have hdir := (t.faceAt_eq_dir_iff here).mp hdir
    rw [hnext] at h
    cases hbelow : t.faceAt (here ++ [part]) with
    | none =>
      simp only [hbelow, nextInto, Next.ends.injEq] at h
      by_cases hrest : rest = []
      · subst hrest
        rw [if_pos rfl] at h
        cases h
        exact ⟨rfl, hdir, hname, .inl ⟨(t.faceAt_eq_none_iff _).mp hbelow, rfl⟩⟩
      · rw [if_neg hrest] at h
        cases h
    | some face =>
      obtain ⟨node, hnode, rfl⟩ := get?_of_faceAt hbelow
      rw [hbelow] at h
      cases node with
      | file content => cases h
      | dir children => cases h
      | link target =>
        simp only [Node.face, nextInto] at h
        by_cases hend : rest = [] ∧ aim = .lookAtLink
        · obtain ⟨rfl, haim⟩ := hend
          rw [if_pos ⟨rfl, haim⟩] at h
          cases h
          exact ⟨rfl, hdir, hname, .inr ⟨target, haim, hnode, rfl⟩⟩
        rw [if_neg hend] at h
        cases links with
        | zero => cases h
        | succ links =>
          by_cases htarget : target.bytes = []
          · simp only [if_pos htarget] at h
            cases h
          · simp only [if_neg htarget] at h
            cases h

theorem Moves.next_eq (h : t.Moves aim links here part rest links' here' parts) :
    next aim links here part rest t = .goesOn links' here' parts := by
  cases h with
  | stay hdir hpart =>
    unfold next nextOf
    rw [(t.faceAt_eq_dir_iff here).mpr hdir]
    simp only [if_pos hpart]
  | up hdir =>
    unfold next nextOf
    rw [(t.faceAt_eq_dir_iff here).mpr hdir]
    rfl
  | @down _ _ _ _ node hname hnode hlink =>
    have hdir := isDirAt_of_append hnode (List.cons_ne_nil part [])
    rw [next_of_lookup hname hdir, faceAt, hnode]
    cases node with
    | file content => rfl
    | dir children => rfl
    | link target => exact absurd rfl (hlink target)
  | follow hname hlink hend htarget =>
    have hdir := isDirAt_of_append hlink (List.cons_ne_nil part [])
    rw [next_of_lookup hname hdir, (t.faceAt_eq_link_iff _ _).mpr hlink]
    simp only [nextInto, if_neg hend, if_neg htarget]

/-- Where two trees differ in one place, a part comes to something else only if it names that place
in a directory. -/
theorem next_eq_or {later : FileTree} {spot : Location}
    (hothers : ∀ location, location ≠ spot → later.faceAt location = t.faceAt location)
    (hhere : here ≠ spot) (aim : Aim) (links : Nat) (part : Bytes) (rest : List Bytes) :
    next aim links here part rest later = next aim links here part rest t ∨
      here ++ [part] = spot ∧ t.IsDirAt here ∧ IsLookup aim part rest := by
  unfold next
  by_cases hspot : here ++ [part] = spot
  · rcases nextOf_cases aim links here part rest (t.faceAt here) with
      ⟨e, he⟩ | ⟨hdir, ⟨_, hnext⟩ | ⟨_, hnext⟩ | ⟨hname, _⟩⟩
    · exact .inl (by rw [hothers here hhere, he, he])
    · exact .inl (by rw [hothers here hhere, hnext, hnext])
    · exact .inl (by rw [hothers here hhere, hnext, hnext])
    · exact .inr ⟨hspot, (t.faceAt_eq_dir_iff here).mp hdir, hname⟩
  · exact .inl (by rw [hothers here hhere, hothers _ hspot])

theorem Moves.resolveFrom_eq (h : t.Moves aim links here part rest links' here' parts) :
    t.resolveFrom aim links here (part :: rest) = t.resolveFrom aim links' here' parts := by
  rw [resolveFrom_cons, h.next_eq]

theorem Moves.isDirAt (h : t.Moves aim links here part rest links' here' parts) :
    t.IsDirAt here := by
  cases h with
  | stay hdir => exact hdir
  | up hdir => exact hdir
  | down _ hnode => exact isDirAt_of_append hnode (List.cons_ne_nil part [])
  | follow _ hlink => exact isDirAt_of_append hlink (List.cons_ne_nil part [])

theorem IsLookup.look (h : IsLookup aim part rest) : IsLookup .look part rest :=
  ⟨h.notVoid, h.notDots, by simp, h.short⟩

theorem Moves.look (h : t.Moves aim links here part rest links' here' parts) :
    t.Moves .look links here part rest links' here' parts := by
  cases h with
  | stay hdir hpart => exact .stay hdir hpart
  | up hdir => exact .up hdir
  | down hname hnode hlink => exact .down hname.look hnode hlink
  | follow hname hlink _ htarget => exact .follow hname.look hlink (by simp) htarget

theorem Moves.faceAt_ne_none (h : t.Moves aim links here part rest links' here' parts) :
    t.faceAt here' ≠ none := by
  have hsome {location : Location} {node : Node} (hnode : t.top.get? location = some node) :
      t.faceAt location ≠ none := by
    simp [faceAt, hnode]
  cases h with
  | stay hdir => exact hsome hdir.choose_spec
  | up hdir => exact hsome (isDirAt_dropLast hdir).choose_spec
  | down _ hnode => exact hsome hnode
  | @follow _ _ _ _ target _ hlink =>
    unfold startOf
    split
    · exact hsome rfl
    · exact hsome (isDirAt_of_append hlink (List.cons_ne_nil part [])).choose_spec

theorem Moves.decreases (h : t.Moves aim links here part rest links' here' parts) :
    links' < links ∨ links' = links ∧ parts = rest := by
  cases h with
  | stay => exact .inr ⟨rfl, rfl⟩
  | up => exact .inr ⟨rfl, rfl⟩
  | down => exact .inr ⟨rfl, rfl⟩
  | follow => exact .inl (Nat.lt_succ_self _)

/-- What holds where no parts are left, and of a part if it holds of where the way goes on from it,
holds of every path. -/
theorem resolveFrom_induction (t : FileTree) (aim : Aim) {holds : Nat → Location → List Bytes → Prop}
    (nil : ∀ links here, holds links here [])
    (cons : ∀ links here part rest,
      (∀ links' here' parts, t.Moves aim links here part rest links' here' parts →
        holds links' here' parts) → holds links here (part :: rest))
    (links : Nat) (here : Location) (parts : List Bytes) : holds links here parts := by
  induction links using Nat.strong_induction_on generalizing here parts with
  | _ links ihLinks =>
    induction parts generalizing here with
    | nil => exact nil links here
    | cons part rest ihRest =>
      apply cons
      intro links' here' parts hmove
      rcases hmove.decreases with hless | ⟨rfl, rfl⟩
      · exact ihLinks links' hless here' parts
      · exact ihRest here'

end

/-- What a path finds, move by move. -/
inductive Reaches (t : FileTree) (aim : Aim) : (links : Nat) → (here : Location) →
    (parts : List Bytes) → (spot : Spot) → Prop where
  | arrived {links : Nat} {here : Location} {node : Node} (hnode : t.top.get? here = some node) :
      Reaches t aim links here [] (.node here node)
  | vacant {links : Nat} {here : Location} {part : Bytes} (hdir : t.IsDirAt here)
      (hname : IsLookup aim part []) (hfree : t.top.get? (here ++ [part]) = none) :
      Reaches t aim links here [part] (.vacant here part)
  | link {links : Nat} {here : Location} {part : Bytes} {target : Path} (haim : aim = .lookAtLink)
      (hname : IsLookup aim part []) (hlink : t.top.get? (here ++ [part]) = some (.link target)) :
      Reaches t aim links here [part] (.node (here ++ [part]) (.link target))
  | moved {links links' : Nat} {here here' : Location} {part : Bytes} {rest parts : List Bytes}
      {spot : Spot} (hmove : t.Moves aim links here part rest links' here' parts)
      (hrest : Reaches t aim links' here' parts spot) :
      Reaches t aim links here (part :: rest) spot

theorem resolveFrom_eq_ok_iff {t : FileTree} {aim : Aim} {links : Nat} {here : Location}
    {parts : List Bytes} {spot : Spot} :
    t.resolveFrom aim links here parts = .ok spot ↔ t.Reaches aim links here parts spot := by
  constructor
  · induction links, here, parts using resolveFrom_induction t aim with
    | nil links here =>
      intro h
      rw [resolveFrom_nil] at h
      split at h
      · rename_i node hnode
        cases h
        exact .arrived hnode
      · cases h
    | cons links here part rest ih =>
      intro h
      rw [resolveFrom_cons] at h
      cases hnext : next aim links here part rest t with
      | goesOn links' here' parts =>
        have hmove := moves_of_next hnext
        rw [hnext] at h
        exact .moved hmove (ih _ _ _ hmove h)
      | ends found =>
        rw [hnext] at h
        obtain rfl : found = .ok spot := h
        obtain ⟨rfl, hdir, hname, ⟨hfree, rfl⟩ | ⟨target, haim, hlink, rfl⟩⟩ := found_of_next hnext
        · exact .vacant hdir hname hfree
        · exact .link haim hname hlink
  · intro h
    induction h with
    | arrived hnode => rw [resolveFrom_nil, hnode]
    | vacant hdir hname hfree =>
      rw [resolveFrom_cons, next_of_lookup hname hdir, (t.faceAt_eq_none_iff _).mpr hfree]
      rfl
    | @link links here part target haim hname hlink =>
      have hdir := isDirAt_of_append hlink (List.cons_ne_nil part [])
      rw [resolveFrom_cons, next_of_lookup hname hdir, (t.faceAt_eq_link_iff _ _).mpr hlink]
      simp [nextInto, haim]
    | moved hmove _ ih => rw [hmove.resolveFrom_eq, ih]

section

variable {t : FileTree} {aim : Aim} {links : Nat} {here : Location} {parts : List Bytes}
  {spot : Spot}

theorem Reaches.faceAt_ne_none (h : t.Reaches aim links here parts spot) :
    t.faceAt here ≠ none := by
  have hdir (h : t.IsDirAt here) : t.faceAt here ≠ none := by
    simp [(t.faceAt_eq_dir_iff here).mpr h]
  cases h with
  | arrived hnode => simp [faceAt, hnode]
  | vacant hdirAt => exact hdir hdirAt
  | link _ _ hlink => exact hdir (isDirAt_of_append hlink (List.cons_ne_nil _ []))
  | moved hmove => exact hdir hmove.isDirAt

theorem Reaches.look (h : t.Reaches aim links here parts spot)
    (hlink : aim = .lookAtLink → ∀ location target, spot ≠ .node location (.link target)) :
    t.Reaches .look links here parts spot := by
  induction h with
  | arrived hnode => exact .arrived hnode
  | vacant hdir hname hfree => exact .vacant hdir hname.look hfree
  | link haim => exact absurd rfl (hlink haim _ _)
  | moved hmove _ ih => exact .moved hmove.look (ih hlink)

theorem get?_of_resolveFrom {location : Location} {node : Node}
    (h : t.resolveFrom aim links here parts = .ok (.node location node)) :
    t.top.get? location = some node := by
  rw [resolveFrom_eq_ok_iff] at h
  generalize hspot : Spot.node location node = spot at h
  induction h with
  | arrived hnode =>
    cases hspot
    exact hnode
  | vacant => cases hspot
  | link _ _ hlink =>
    cases hspot
    exact hlink
  | moved _ _ ih => exact ih hspot

end

end ApiAtlas.FileTree
