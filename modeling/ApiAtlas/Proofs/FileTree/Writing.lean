import ApiAtlas.Proofs.FileTree.Ways

/-!
Where a file is written: over a file, or under a free name in a directory. Either way every directory
and every link stays, so what was written is found where it was put.
-/
namespace ApiAtlas.FileTree

variable {t : FileTree}

theorem steps_ne_nil {p : Path} (hp : p.bytes ≠ []) (hrelative : p.isAbsolute = false) :
    steps p ≠ [] := by
  obtain ⟨b, bs, hbytes⟩ := List.exists_cons_of_ne_nil hp
  have hb : b ≠ Path.slash := by
    rintro rfl
    simp [Path.isAbsolute, hbytes] at hrelative
  obtain ⟨part, parts, hparts⟩ := List.exists_cons_of_ne_nil (Path.splitSlash_ne_nil bs)
  have hmem : b :: part ∈ steps p := by
    unfold steps
    rw [hbytes, Path.splitSlash, if_neg hb, hparts]
    simp only
    split
    · simp
    · simp
  exact List.ne_nil_of_mem hmem

theorem pathExists_iff {p : Path} : t.pathExists p = true ↔ ∃ node, t.stat p = .ok node := by
  unfold pathExists
  cases t.stat p with
  | error e => simp [Except.isOk, Except.toBool]
  | ok node => simp [Except.isOk, Except.toBool]

theorem get?_of_resolve {aim : Aim} {p : Path} {location : Location} {node : Node}
    (h : t.resolve aim p = .ok (.node location node)) : t.top.get? location = some node := by
  exact get?_of_resolveFrom (resolve_eq_ok_iff.mp h).2

theorem noSlash_of_mem_steps {p : Path} {part : Bytes} (h : part ∈ steps p) :
    Path.slash ∉ part := by
  rcases steps_cases p with hsteps | hsteps
  · rw [hsteps] at h
    exact Path.noSlash_of_mem_way h
  · rw [hsteps] at h
    rcases List.mem_append.mp h with h | h
    · exact Path.noSlash_of_mem_way h
    · rw [List.mem_singleton.mp h]
      exact List.not_mem_nil

theorem vacant_of_resolveFrom {aim : Aim} {links : Nat} {here dir : Location} {parts : List Bytes}
    {name : Bytes} (h : t.resolveFrom aim links here parts = .ok (.vacant dir name))
    (hslash : ∀ part ∈ parts, Path.slash ∉ part) :
    t.IsDirAt dir ∧ t.top.get? (dir ++ [name]) = none ∧ Path.IsName name := by
  rw [resolveFrom_eq_ok_iff] at h
  generalize hspot : Spot.vacant dir name = spot at h
  induction h with
  | arrived => cases hspot
  | vacant hdir hlookup hfree =>
    cases hspot
    obtain ⟨hnil, hdot⟩ := not_or.mp hlookup.notVoid
    exact ⟨hdir, hfree, hnil, hslash _ List.mem_cons_self, hdot, hlookup.notDots⟩
  | link => cases hspot
  | moved hmove _ ih =>
    rw [List.forall_mem_cons] at hslash
    apply ih _ hspot
    cases hmove with
    | stay => exact hslash.2
    | up => exact hslash.2
    | down => exact hslash.2
    | follow =>
      rw [List.forall_mem_append]
      exact ⟨fun part => noSlash_of_mem_steps, hslash.2⟩

theorem resolve_look_of_write {p : Path} {spot : Spot} (h : t.resolve .write p = .ok spot) :
    t.resolve .look p = .ok spot := by
  obtain ⟨hcheck, hspot⟩ := resolve_eq_ok_iff.mp h
  refine resolve_eq_ok_iff.mpr ⟨hcheck, ?_⟩
  rw [resolveFrom_eq_ok_iff] at hspot ⊢
  exact hspot.look fun haim => by cases haim

theorem vacant_of_resolve {aim : Aim} {p : Path} {dir : Location} {name : Bytes}
    (h : t.resolve aim p = .ok (.vacant dir name)) :
    t.IsDirAt dir ∧ t.top.get? (dir ++ [name]) = none ∧ Path.IsName name := by
  exact vacant_of_resolveFrom (resolve_eq_ok_iff.mp h).2 fun part => noSlash_of_mem_steps

theorem writeFile_cases {p : Path} {content : Bytes} {later : FileTree}
    (h : t.writeFile p content = .ok later) :
    (∃ location old, t.resolve .write p = .ok (.node location (.file old)) ∧
      later = t.putAt location (.file content)) ∨
    ∃ dir name, t.resolve .write p = .ok (.vacant dir name) ∧
      later = t.putAt (dir ++ [name]) (.file content) := by
  unfold writeFile at h
  cases hspot : t.resolve .write p with
  | error e => simp [hspot, bind, Except.bind] at h
  | ok spot =>
    simp only [hspot, bind, Except.bind] at h
    cases spot with
    | vacant dir name => exact .inr ⟨dir, name, rfl, (Except.ok.inj h).symm⟩
    | node location node =>
      cases node with
      | file old => exact .inl ⟨location, old, rfl, (Except.ok.inj h).symm⟩
      | dir children => cases h
      | link target => cases h

theorem keeps_writeFile {p : Path} {content : Bytes} {later : FileTree}
    (h : t.writeFile p content = .ok later) :
    t.Keeps later := by
  rcases writeFile_cases h with ⟨location, old, hspot, rfl⟩ | ⟨dir, name, hspot, rfl⟩
  · have hfile := get?_of_resolve hspot
    rcases List.eq_nil_or_concat location with rfl | ⟨dir, name, rfl⟩
    · -- The whole tree is a file, before and afterwards.
      have hother {c : Bytes} {location : Location} {node : Node} (hnode : ∀ c, node ≠ .file c) :
          (Node.file c).get? location ≠ some node := by
        cases location with
        | nil => exact fun heq => hnode c (Option.some.inj heq).symm
        | cons name rest => simp [Node.get?, Node.child?]
      have htop : t.top = .file old := Option.some.inj hfile
      refine ⟨rfl, ?_, ?_⟩
      · rintro location ⟨children, hdir⟩
        rw [htop] at hdir
        exact absurd hdir (hother fun _ heq => by cases heq)
      · intro location target
        unfold FileTree.putAt
        rw [Node.put_nil, htop]
        exact iff_of_false (hother fun _ heq => by cases heq) (hother fun _ heq => by cases heq)
    · rw [List.concat_eq_append] at hfile ⊢
      exact keeps_putAt_file (.inr ⟨old, hfile⟩) content
  · exact keeps_putAt_file (.inl (vacant_of_resolve hspot).2.1) content

/-- The way to what is written, a file or a free name, leads to the file that is written there. -/
theorem resolveFrom_written {later : FileTree} {there : Location} {content : Bytes}
    (hkeep : t.Keeps later) (hfile : later.top.get? there = some (.file content)) {links : Nat}
    {here : Location} {parts : List Bytes} {spot : Spot}
    (h : t.resolveFrom .look links here parts = .ok spot)
    (hspot : (∃ old, spot = .node there (.file old)) ∨
      ∃ dir name, there = dir ++ [name] ∧ spot = .vacant dir name) :
    later.resolveFrom .look links here parts = .ok (.node there (.file content)) := by
  rw [resolveFrom_eq_ok_iff] at h ⊢
  induction h with
  | arrived =>
    rcases hspot with ⟨old, heq⟩ | ⟨dir, name, -, heq⟩
    · cases heq
      exact .arrived hfile
    · cases heq
  | vacant hdir hname =>
    rcases hspot with ⟨old, heq⟩ | ⟨dir, name, rfl, heq⟩
    · cases heq
    · cases heq
      exact .moved (.down hname hfile (by simp)) (.arrived hfile)
  | link haim => cases haim
  | moved hmove _ ih =>
    have hrest := ih hspot
    exact .moved (hmove.keep hkeep hrest.faceAt_ne_none) hrest

theorem readBytes_of_writeFile {p : Path} {content : Bytes} {later : FileTree}
    (h : t.writeFile p content = .ok later) : later.readBytes p = .ok content := by
  have hkeep := keeps_writeFile h
  have hread (there : Location) (spot : Spot) (hspot : t.resolve .write p = .ok spot)
      (hfile : later.top.get? there = some (.file content))
      (hthere : (∃ old, spot = .node there (.file old)) ∨
        ∃ dir name, there = dir ++ [name] ∧ spot = .vacant dir name) :
      later.readBytes p = .ok content := by
    obtain ⟨hcheck, hlook⟩ := resolve_eq_ok_iff.mp (resolve_look_of_write hspot)
    have hlater : later.resolve .look p = .ok (.node there (.file content)) := by
      rw [resolve_eq_ok_iff, hkeep.workingDir]
      exact ⟨hcheck, resolveFrom_written hkeep hfile hlook hthere⟩
    unfold readBytes stat
    rw [hlater]
    rfl
  rcases writeFile_cases h with ⟨location, old, hspot, rfl⟩ | ⟨dir, name, hspot, rfl⟩
  · refine hread location _ hspot ?_ (.inl ⟨old, rfl⟩)
    rcases List.eq_nil_or_concat location with rfl | ⟨dir, name, rfl⟩
    · rfl
    · have hold := get?_of_resolve hspot
      rw [List.concat_eq_append] at hold ⊢
      obtain ⟨children, hchildren⟩ := isDirAt_of_append hold (List.cons_ne_nil name [])
      exact Node.get?_put_self _ hchildren name
  · obtain ⟨⟨children, hchildren⟩, -⟩ := vacant_of_resolve hspot
    exact hread _ _ hspot (Node.get?_put_self _ hchildren name) (.inr ⟨dir, name, rfl, rfl⟩)

theorem place_eq_ok_iff {dir : Path} {there : Location} {node : Node} :
    t.place dir = .ok (.node there node) ↔
      (∃ left, t.LeadsTo dir left there) ∧ t.top.get? there = some node := by
  constructor
  · intro h
    refine ⟨?_, get?_of_resolveFrom h⟩
    obtain ⟨left, there', hleads⟩ := leads_of_resolveFrom dir.way h
    obtain ⟨node', hplace⟩ := hleads.place_eq
    rw [h] at hplace
    cases hplace
    exact ⟨left, hleads⟩
  · rintro ⟨⟨left, hleads⟩, hnode⟩
    obtain ⟨node', hplace⟩ := hleads.place_eq
    have hnode' := get?_of_resolveFrom hplace
    rw [hnode] at hnode'
    cases hnode'
    exact hplace

end ApiAtlas.FileTree
