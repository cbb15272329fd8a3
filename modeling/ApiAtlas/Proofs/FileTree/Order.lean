import ApiAtlas.Proofs.FileTree.Node
import ApiAtlas.Proofs.Walk
import Mathlib.Data.List.Basic

/-!
Trees as a file system has them: every name is one that a directory can give, and every directory
lists its children in the order of their names, no name twice. Putting a node in place keeps it so,
and such a tree is told by what stands at each location.
-/
namespace ApiAtlas

theorem Bytes.before_iff (a b : Bytes) : Bytes.before a b = true ↔ a < b := by
  induction a generalizing b with
  | nil =>
    cases b with
    | nil => simp [Bytes.before]
    | cons y b => simp [Bytes.before]
  | cons x a ih =>
    cases b with
    | nil => simp [Bytes.before]
    | cons y b => simp [Bytes.before, ih, List.cons_lt_cons_iff]

/-- A node without what is below it. -/
inductive Face where
  | file (content : Bytes)
  | dir
  | link (target : Path)
  deriving DecidableEq

namespace Node

def face : Node → Face
  | .file content => .file content
  | .dir _ => .dir
  | .link target => .link target

mutual

def Ordered : Node → Prop
  | .dir children => AllOrdered children
  | .file _ => True
  | .link _ => True

def AllOrdered : List (Bytes × Node) → Prop
  | [] => True
  | (name, node) :: rest => (∀ child ∈ rest, name < child.1) ∧ node.Ordered ∧ AllOrdered rest

end

/-- A tree as a file system has it. -/
structure WellFormed (node : Node) : Prop where
  named : node.WellNamed
  ordered : node.Ordered

theorem wellFormed_file (content : Bytes) : (Node.file content).WellFormed := by
  constructor <;> trivial

theorem wellFormed_emptyDir : (Node.dir []).WellFormed := by
  constructor <;> trivial

theorem mem_of_lookup {name : Bytes} {node : Node} {children : List (Bytes × Node)}
    (h : children.lookup name = some node) : (name, node) ∈ children := by
  induction children with
  | nil => simp at h
  | cons child rest ih =>
    obtain ⟨n, c⟩ := child
    rw [lookup_cons_ite] at h
    split at h
    · rename_i heq
      rw [heq, Option.some.inj h]
      exact List.mem_cons_self
    · exact List.mem_cons_of_mem _ (ih h)

theorem AllOrdered.lookup {children : List (Bytes × Node)} (h : AllOrdered children) {name : Bytes}
    {node : Node} (hmem : (name, node) ∈ children) : children.lookup name = some node := by
  induction children with
  | nil => cases hmem
  | cons child rest ih =>
    obtain ⟨n, c⟩ := child
    obtain ⟨hfirst, -, hrest⟩ := h
    rw [lookup_cons_ite]
    rcases List.mem_cons.mp hmem with heq | hlater
    · obtain ⟨rfl, rfl⟩ := Prod.mk.inj heq
      rw [if_pos rfl]
    · have hne : name ≠ n := by
        rintro rfl
        exact List.lt_irrefl name (hfirst (name, node) hlater)
      rw [if_neg hne, ih hrest hlater]

theorem AllOrdered.ordered {children : List (Bytes × Node)} (h : AllOrdered children)
    {child : Bytes × Node} (hmem : child ∈ children) : child.2.Ordered := by
  induction children with
  | nil => cases hmem
  | cons first rest ih =>
    obtain ⟨n, c⟩ := first
    rcases List.mem_cons.mp hmem with rfl | hmem
    · exact h.2.1
    · exact ih h.2.2 hmem

theorem AllWellNamed.of_mem {children : List (Bytes × Node)} (h : AllWellNamed children)
    {child : Bytes × Node} (hmem : child ∈ children) :
    Path.IsName child.1 ∧ child.2.WellNamed := by
  induction children with
  | nil => cases hmem
  | cons first rest ih =>
    obtain ⟨n, c⟩ := first
    rcases List.mem_cons.mp hmem with rfl | hmem
    · exact ⟨h.1, h.2.1⟩
    · exact ih h.2.2 hmem

theorem mem_insertChild {name : Bytes} {node : Node} {children : List (Bytes × Node)}
    {child : Bytes × Node} (h : child ∈ insertChild name node children) :
    child = (name, node) ∨ child ∈ children := by
  induction children with
  | nil => exact .inl (List.mem_singleton.mp h)
  | cons first rest ih =>
    obtain ⟨n, c⟩ := first
    unfold insertChild at h
    split at h
    · exact (List.mem_cons.mp h).imp_right (List.mem_cons_of_mem _)
    · split at h
      · exact List.mem_cons.mp h
      · rcases List.mem_cons.mp h with rfl | h
        · exact .inr List.mem_cons_self
        · exact (ih h).imp_right (List.mem_cons_of_mem _)

theorem AllOrdered.insertChild {children : List (Bytes × Node)} (h : AllOrdered children)
    (name : Bytes) {node : Node} (hnode : node.Ordered) :
    AllOrdered (insertChild name node children) := by
  induction children with
  | nil => exact ⟨by simp, hnode, trivial⟩
  | cons first rest ih =>
    obtain ⟨n, c⟩ := first
    obtain ⟨hfirst, hc, hrest⟩ := h
    unfold Node.insertChild
    split
    · rename_i heq
      exact ⟨heq ▸ hfirst, hnode, hrest⟩
    · rename_i hne
      split
      · rename_i hbefore
        have hlt : name < n := (Bytes.before_iff name n).mp hbefore
        refine ⟨?_, hnode, hfirst, hc, hrest⟩
        intro child hchild
        rcases List.mem_cons.mp hchild with rfl | hchild
        · exact hlt
        · exact List.lt_trans hlt (hfirst child hchild)
      · rename_i hbefore
        have hlt : n < name := by
          rw [Bytes.before_iff] at hbefore
          rcases Std.lt_trichotomy n name with hlt | heq | hgt
          · exact hlt
          · exact absurd heq.symm hne
          · exact absurd hgt hbefore
        refine ⟨?_, hc, ih hrest⟩
        intro child hchild
        rcases mem_insertChild hchild with rfl | hchild
        · exact hlt
        · exact hfirst child hchild

theorem AllWellNamed.insertChild {children : List (Bytes × Node)} (h : AllWellNamed children)
    {name : Bytes} (hname : Path.IsName name) {node : Node} (hnode : node.WellNamed) :
    AllWellNamed (insertChild name node children) := by
  induction children with
  | nil => exact ⟨hname, hnode, trivial⟩
  | cons first rest ih =>
    obtain ⟨n, c⟩ := first
    obtain ⟨hn, hc, hrest⟩ := h
    unfold Node.insertChild
    split
    · exact ⟨hname, hnode, hrest⟩
    · split
      · exact ⟨hname, hnode, hn, hc, hrest⟩
      · exact ⟨hn, hc, ih hrest⟩

theorem WellFormed.child {children : List (Bytes × Node)} (h : (Node.dir children).WellFormed)
    {name : Bytes} {node : Node} (hlookup : children.lookup name = some node) :
    Path.IsName name ∧ node.WellFormed := by
  have hmem := mem_of_lookup hlookup
  obtain ⟨hname, hnamed⟩ := AllWellNamed.of_mem h.named hmem
  exact ⟨hname, hnamed, AllOrdered.ordered h.ordered hmem⟩

theorem WellFormed.insertChild {children : List (Bytes × Node)} (h : (Node.dir children).WellFormed)
    {name : Bytes} (hname : Path.IsName name) {node : Node} (hnode : node.WellFormed) :
    (Node.dir (insertChild name node children)).WellFormed :=
  ⟨AllWellNamed.insertChild h.named hname hnode.named,
    AllOrdered.insertChild h.ordered name hnode.ordered⟩

theorem WellFormed.get? {node : Node} (h : node.WellFormed) {location : Location} {found : Node}
    (hfound : node.get? location = some found) : found.WellFormed := by
  induction location generalizing node with
  | nil => exact Option.some.inj hfound ▸ h
  | cons name rest ih =>
    obtain ⟨child, hchild, hrest⟩ := Option.bind_eq_some_iff.mp hfound
    cases node with
    | dir children => exact ih (h.child hchild).2 hrest
    | file content => simp [child?] at hchild
    | link target => simp [child?] at hchild

theorem WellFormed.put {node new : Node} (h : node.WellFormed) (hnew : new.WellFormed)
    (front : Location) {name : Bytes} (hname : Path.IsName name) :
    (new.put (front ++ [name]) node).WellFormed := by
  induction front generalizing node with
  | nil =>
    cases node with
    | dir children =>
      rw [List.nil_append, put_singleton]
      exact h.insertChild hname hnew
    | file content => simpa using h
    | link target => simpa using h
  | cons first front ih =>
    obtain ⟨next, more, hnext⟩ : ∃ next more, front ++ [name] = next :: more := by
      cases front with
      | nil => exact ⟨_, _, rfl⟩
      | cons next front => exact ⟨_, _, rfl⟩
    cases node with
    | dir children =>
      rw [List.cons_append, hnext, put_cons_cons]
      cases hlookup : children.lookup first with
      | none => exact h
      | some child =>
        obtain ⟨hfirst, hchild⟩ := h.child hlookup
        rw [← hnext]
        exact h.insertChild hfirst (ih hchild)
    | file content => simpa using h
    | link target => simpa using h

mutual

/-- Two trees in order are the same if the same stands at each location. -/
theorem eq_of_face (a b : Node) (ha : a.Ordered) (hb : b.Ordered)
    (h : ∀ location, (a.get? location).map face = (b.get? location).map face) : a = b := by
  have htop := h []
  simp only [get?, Option.map_some, Option.some.injEq] at htop
  cases a with
  | file content => cases b <;> simp_all [face]
  | link target => cases b <;> simp_all [face]
  | dir children =>
    cases b with
    | file content => cases htop
    | link target => cases htop
    | dir children' =>
      congr 1
      exact eqAll_of_face children children' ha hb fun name rest => h (name :: rest)

theorem eqAll_of_face (children children' : List (Bytes × Node)) (hc : AllOrdered children)
    (hc' : AllOrdered children')
    (h : ∀ name rest, (((Node.dir children).get? (name :: rest)).map face) =
      ((Node.dir children').get? (name :: rest)).map face) : children = children' := by
  have hsome (name : Bytes) : (children.lookup name).isSome = (children'.lookup name).isSome := by
    have hname := congrArg Option.isSome (h name [])
    simpa [get?_singleton] using hname
  match children, children' with
  | [], [] => rfl
  | [], (n', c') :: rest' => simpa [lookup_cons_ite] using hsome n'
  | (n, c) :: rest, [] => simpa [lookup_cons_ite] using hsome n
  | (n, c) :: rest, (n', c') :: rest' =>
    -- Neither first name can come before the other, or it would be missing there.
    have hname : n = n' := by
      have hn := hsome n
      have hn' := hsome n'
      rw [lookup_cons_ite, lookup_cons_ite] at hn hn'
      by_contra hne
      rw [if_pos rfl, if_neg hne] at hn
      rw [if_pos rfl, if_neg (Ne.symm hne)] at hn'
      obtain ⟨d', hd'⟩ := Option.isSome_iff_exists.mp hn.symm
      obtain ⟨d, hd⟩ := Option.isSome_iff_exists.mp hn'
      exact List.lt_asymm (hc'.1 _ (mem_of_lookup hd')) (hc.1 _ (mem_of_lookup hd))
    subst hname
    have hfirst : c = c' := by
      apply eq_of_face c c' hc.2.1 hc'.2.1
      intro location
      have hloc := h n location
      simpa [get?, child?, lookup_cons_ite] using hloc
    have hrest : rest = rest' := by
      apply eqAll_of_face rest rest' hc.2.2 hc'.2.2
      intro name location
      have hnone (others : List (Bytes × Node)) (ho : ∀ child ∈ others, n < child.1) :
          others.lookup n = none := by
        rw [Option.eq_none_iff_forall_ne_some]
        intro d hd
        exact List.lt_irrefl n (ho _ (mem_of_lookup hd))
      by_cases heq : name = n
      · simp [get?, child?, heq, hnone rest hc.1, hnone rest' hc'.1]
      · have hloc := h name location
        simpa [get?, child?, lookup_cons_ite, heq] using hloc
    rw [hfirst, hrest]

end

end Node

end ApiAtlas
