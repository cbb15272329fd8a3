import ApiAtlas.FileTree.Node
import Mathlib.Data.List.Basic

/-!
Putting a node into a tree. At its location stands the new node; what lies neither above nor below
is untouched, and the directories above stay directories.
-/
namespace ApiAtlas.Node

theorem lookup_cons_ite (name other : Bytes) (node : Node) (children : List (Bytes × Node)) :
    ((name, node) :: children).lookup other =
      if other = name then some node else children.lookup other := by
  rw [List.lookup_cons]
  by_cases h : other = name
  · rw [beq_iff_eq.2 h, if_pos h]
  · rw [beq_eq_false_iff_ne.2 h, if_neg h]

theorem lookup_insertChild (name other : Bytes) (node : Node) (children : List (Bytes × Node)) :
    (insertChild name node children).lookup other =
      if other = name then some node else children.lookup other := by
  induction children with
  | nil =>
    unfold insertChild
    rw [lookup_cons_ite]
  | cons child children ih =>
    obtain ⟨n, c⟩ := child
    unfold insertChild
    rw [lookup_cons_ite n]
    split
    · rename_i hname
      subst hname
      rw [lookup_cons_ite]
      split_ifs <;> rfl
    · rename_i hname
      split
      · rw [lookup_cons_ite, lookup_cons_ite]
      · rw [lookup_cons_ite, ih]
        by_cases hn : other = n
        · subst hn
          rw [if_pos rfl, if_neg (Ne.symm hname), if_pos rfl]
        · rw [if_neg hn, if_neg hn]

theorem get?_append (node : Node) (front back : Location) :
    node.get? (front ++ back) = (node.get? front).bind (·.get? back) := by
  induction front generalizing node with
  | nil => rfl
  | cons name front ih =>
    rw [List.cons_append, get?, get?]
    cases node.child? name with
    | none => rfl
    | some child => exact ih child

theorem get?_singleton (children : List (Bytes × Node)) (name : Bytes) :
    (Node.dir children).get? [name] = children.lookup name := by
  rw [get?]
  cases hchild : (Node.dir children).child? name with
  | none => exact hchild.symm
  | some child => exact hchild.symm

theorem get?_append_singleton {node : Node} {front : Location} {children : List (Bytes × Node)}
    (h : node.get? front = some (.dir children)) (name : Bytes) :
    node.get? (front ++ [name]) = children.lookup name := by
  rw [get?_append, h, Option.bind_some, get?_singleton]

theorem exists_dir_of_get? {node found : Node} {front : Location} {name : Bytes} {back : Location}
    (h : node.get? (front ++ name :: back) = some found) :
    ∃ children, node.get? front = some (.dir children) := by
  rw [get?_append] at h
  obtain ⟨child, hchild, hfound⟩ := Option.bind_eq_some_iff.1 h
  cases child with
  | dir children => exact ⟨children, hchild⟩
  | file content => simp [get?, child?] at hfound
  | link target => simp [get?, child?] at hfound

section

variable (new : Node)

@[simp] theorem put_nil (node : Node) : new.put [] node = new := by
  unfold put
  rfl

theorem put_singleton (name : Bytes) (children : List (Bytes × Node)) :
    new.put [name] (.dir children) = .dir (insertChild name new children) := by
  unfold put
  rfl

theorem put_cons_cons (name next : Bytes) (rest : Location) (children : List (Bytes × Node)) :
    new.put (name :: next :: rest) (.dir children) =
      match children.lookup name with
      | some child => .dir (insertChild name (new.put (next :: rest) child) children)
      | none => .dir children := by
  cases hlookup : children.lookup name with
  | none => simp [put, hlookup]
  | some child =>
    rw [put, hlookup]
    exact List.cons_ne_nil next rest

@[simp] theorem put_cons_file (name : Bytes) (rest : Location) (content : Bytes) :
    new.put (name :: rest) (.file content) = .file content := by
  cases rest <;> simp [put]

@[simp] theorem put_cons_link (name : Bytes) (rest : Location) (target : Path) :
    new.put (name :: rest) (.link target) = .link target := by
  cases rest <;> simp [put]

theorem exists_put_dir (name : Bytes) (rest : Location) (children : List (Bytes × Node)) :
    ∃ others, new.put (name :: rest) (.dir children) = .dir others := by
  cases rest with
  | nil => exact ⟨_, put_singleton new name children⟩
  | cons next rest =>
    rw [put_cons_cons]
    split
    · exact ⟨_, rfl⟩
    · exact ⟨_, rfl⟩

theorem child?_put_cons_cons (name next other : Bytes) (rest : Location) (node : Node) :
    (new.put (name :: next :: rest) node).child? other =
      if other = name then (node.child? other).map (new.put (next :: rest))
      else node.child? other := by
  cases node with
  | file content => simp [child?]
  | link target => simp [child?]
  | dir children =>
    rw [put_cons_cons]
    cases hchild : children.lookup name with
    | none =>
      by_cases h : other = name
      · simp [h, child?, hchild]
      · simp [h, child?]
    | some child =>
      by_cases h : other = name
      · simp [h, child?, hchild, lookup_insertChild]
      · simp [h, child?, lookup_insertChild]

theorem get?_put_above (front : Location) (name : Bytes) (rest : Location) (node : Node) :
    (new.put (front ++ name :: rest) node).get? front =
      (node.get? front).map (new.put (name :: rest)) := by
  induction front generalizing node with
  | nil => rfl
  | cons first front ih =>
    obtain ⟨next, more, hnext⟩ : ∃ next more, front ++ name :: rest = next :: more := by
      cases front with
      | nil => exact ⟨_, _, rfl⟩
      | cons next front => exact ⟨_, _, rfl⟩
    rw [List.cons_append, get?, get?, hnext, child?_put_cons_cons, if_pos rfl, ← hnext]
    cases node.child? first with
    | none => rfl
    | some child => exact ih child

theorem get?_put_self {front : Location} {node : Node} {children : List (Bytes × Node)}
    (h : node.get? front = some (.dir children)) (name : Bytes) :
    (new.put (front ++ [name]) node).get? (front ++ [name]) = some new := by
  rw [get?_append, get?_put_above, h, Option.map_some, Option.bind_some, put_singleton,
    get?_singleton, lookup_insertChild, if_pos rfl]

theorem get?_put_below {front : Location} {name : Bytes} {back : Location} {node found : Node}
    (h : (new.put (front ++ [name]) node).get? (front ++ [name] ++ back) = some found) :
    new.get? back = some found := by
  rw [get?_append] at h
  obtain ⟨child, hchild, hfound⟩ := Option.bind_eq_some_iff.1 h
  obtain ⟨others, hothers⟩ := exists_dir_of_get? hchild
  have hfront : ∃ children, node.get? front = some (.dir children) := by
    rw [get?_put_above] at hothers
    obtain ⟨old, hold, hput⟩ := Option.map_eq_some_iff.1 hothers
    cases old with
    | dir children => exact ⟨children, hold⟩
    | file content => simp at hput
    | link target => simp at hput
  obtain ⟨children, hchildren⟩ := hfront
  rw [get?_put_self new hchildren] at hchild
  rw [Option.some.inj hchild]
  exact hfound

theorem get?_put_beside (front : Location) {name other : Bytes} (hne : other ≠ name)
    (rest back : Location) (node : Node) :
    (new.put (front ++ name :: rest) node).get? (front ++ other :: back) =
      node.get? (front ++ other :: back) := by
  rw [get?_append, get?_append, get?_put_above]
  cases node.get? front with
  | none => rfl
  | some found =>
    simp only [Option.map_some, Option.bind_some, get?]
    have hchild : (new.put (name :: rest) found).child? other = found.child? other := by
      cases rest with
      | nil =>
        cases found with
        | dir children => simp [put_singleton, child?, lookup_insertChild, hne]
        | file content => simp
        | link target => simp
      | cons next rest => rw [child?_put_cons_cons, if_neg hne]
    rw [hchild]

end

/-- Two locations part somewhere, or one of them goes on from the other. -/
theorem location_cases (a b : Location) :
    (∃ rest, b = a ++ rest) ∨ (∃ name rest, a = b ++ name :: rest) ∨
      ∃ front x y as bs, x ≠ y ∧ a = front ++ x :: as ∧ b = front ++ y :: bs := by
  induction a generalizing b with
  | nil => exact .inl ⟨b, rfl⟩
  | cons x as ih =>
    cases b with
    | nil => exact .inr (.inl ⟨x, as, rfl⟩)
    | cons y bs =>
      by_cases h : x = y
      · subst h
        rcases ih bs with ⟨rest, rfl⟩ | ⟨name, rest, rfl⟩ | ⟨front, x', y', as', bs', hne, rfl, rfl⟩
        · exact .inl ⟨rest, rfl⟩
        · exact .inr (.inl ⟨name, rest, rfl⟩)
        · exact .inr (.inr ⟨x :: front, x', y', as', bs', hne, rfl, rfl⟩)
      · exact .inr (.inr ⟨[], x, y, as, bs, h, rfl, rfl⟩)

end ApiAtlas.Node
