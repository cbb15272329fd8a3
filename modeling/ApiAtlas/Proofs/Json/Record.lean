import ApiAtlas.Json.Record
import ApiAtlas.Proofs.Json.Reader
import ApiAtlas.Proofs.Utf8

/-!
Codecs that lose nothing: what they write fits a depth, and is read as what was written even with
the fields of every object in key order.
-/
namespace ApiAtlas.Json

theorem bind_eq_ok_iff {ε α β : Type} {x : Except ε α} {f : α → Except ε β} {b : β} :
    (x >>= f) = .ok b ↔ ∃ a, x = .ok a ∧ f a = .ok b := by
  cases x with
  | error e => simp [bind, Except.bind]
  | ok a => simp [bind, Except.bind]

variable {α : Type}

structure Codec.Faithful (c : Codec α) (depth : Nat) : Prop where
  fits : ∀ {a v}, c.toJson a = .ok v → v.Fits depth
  ofJson_sorted : ∀ {a v}, c.toJson a = .ok v → c.ofJson v.sorted = .ok a

namespace Codec

theorem faithful_string (depth : Nat) : string.Faithful depth where
  fits h := by
    cases h
    cases depth <;> trivial
  ofJson_sorted h := by
    cases h
    rfl

theorem path_toJson_eq_ok {p : Path} {v : Json} (h : path.toJson p = .ok v) :
    ∃ s : String, v = .str s ∧ Path.ofString s = p := by
  unfold path at h
  simp only at h
  split at h
  · rename_i s hs
    obtain ⟨cs, hcs, rfl⟩ := Option.map_eq_some_iff.mp hs
    cases h
    refine ⟨_, rfl, ?_⟩
    unfold Path.ofString Bytes.ofString
    rw [String.toList_ofList, Utf8.encode_of_decode hcs]
  · cases h

theorem faithful_path (depth : Nat) : path.Faithful depth where
  fits h := by
    obtain ⟨s, rfl, -⟩ := path_toJson_eq_ok h
    cases depth <;> trivial
  ofJson_sorted h := by
    obtain ⟨s, rfl, rfl⟩ := path_toJson_eq_ok h
    rfl

theorem faithful_variant {vs : Variants α} (h : ∀ a, vs.find (vs.name a) = .ok a) (depth : Nat) :
    (variant vs).Faithful depth where
  fits hv := by
    cases hv
    cases depth <;> trivial
  ofJson_sorted hv := by
    cases hv
    exact h _

theorem list_toJson_eq_ok {c : Codec α} {as : List α} {v : Json} (h : (list c).toJson as = .ok v) :
    ∃ vs, v = .arr vs ∧ List.Forall₂ (fun a v => c.toJson a = .ok v) as vs := by
  obtain ⟨vs, hvs, hv⟩ := bind_eq_ok_iff.mp h
  cases hv
  refine ⟨vs, rfl, ?_⟩
  clear h
  induction as generalizing vs with
  | nil =>
    cases hvs
    exact .nil
  | cons a as ih =>
    rw [List.mapM_cons] at hvs
    obtain ⟨v, hv, hvs⟩ := bind_eq_ok_iff.mp hvs
    obtain ⟨rest, hrest, hvs⟩ := bind_eq_ok_iff.mp hvs
    cases hvs
    exact .cons hv (ih rest hrest)

theorem faithful_list {c : Codec α} {depth : Nat} (h : c.Faithful depth) (hdepth : 0 < depth) :
    (list c).Faithful (depth + 1) where
  fits hv := by
    obtain ⟨vs, rfl, hvs⟩ := list_toJson_eq_ok hv
    refine ⟨hdepth, ?_⟩
    clear hv
    induction hvs with
    | nil => exact List.forall_mem_nil _
    | cons hv hvs ih => exact List.forall_mem_cons.mpr ⟨h.fits hv, ih⟩
  ofJson_sorted hv := by
    obtain ⟨vs, rfl, hvs⟩ := list_toJson_eq_ok hv
    rw [sorted, sortedItems_eq_map]
    show (vs.map sorted).mapM c.ofJson = _
    clear hv
    induction hvs with
    | nil => rfl
    | cons hv hvs ih =>
      rw [List.map_cons, List.mapM_cons, h.ofJson_sorted hv, ih]
      rfl

theorem sorted_of_paths {paths : List Path} {v : Json} (h : (list path).toJson paths = .ok v) :
    v.sorted = v := by
  obtain ⟨vs, rfl, hvs⟩ := list_toJson_eq_ok h
  rw [sorted, sortedItems_eq_map]
  congr 1
  clear h
  induction hvs with
  | nil => rfl
  | cons hv hvs ih =>
    obtain ⟨s, rfl, -⟩ := path_toJson_eq_ok hv
    rw [List.map_cons, ih, sorted]

end Codec

theorem insertField_perm {key : String} {fields : List (String × Json)}
    (h : key ∉ fields.map Prod.fst) (v : Json) :
    (insertField key v fields).Perm ((key, v) :: fields) := by
  induction fields with
  | nil => exact .refl _
  | cons field fields ih =>
    rw [List.map_cons, List.mem_cons, not_or] at h
    rw [insertField]
    split
    · exact .refl _
    · rw [if_neg h.1]
      exact ((ih h.2).cons field).trans (.swap _ _ _)

theorem sortFields_perm {fields : List (String × Json)} (h : (fields.map Prod.fst).Nodup) :
    (sortFields fields).Perm fields := by
  have hrun (before : List (String × Json)) (hkeys : ((before ++ fields).map Prod.fst).Nodup) :
      (fields.foldl (fun acc field => insertField field.1 field.2 acc) before).Perm
        (before ++ fields) := by
    clear h
    induction fields generalizing before with
    | nil => simp
    | cons field fields ih =>
      have hmove :
          (insertField field.1 field.2 before ++ fields).Perm (before ++ field :: fields) := by
        have hkey : field.1 ∉ before.map Prod.fst := by
          rw [List.map_append, List.map_cons] at hkeys
          intro hmem
          exact (List.nodup_append.mp hkeys).2.2 _ hmem _ List.mem_cons_self rfl
        exact ((insertField_perm hkey field.2).append_right fields).trans List.perm_middle.symm
      rw [List.foldl_cons]
      exact (ih _ ((hmove.map Prod.fst).nodup_iff.mpr hkeys)).trans hmove
  exact hrun [] h

namespace Fields

def All (holds : {α : Type} → Codec α → Prop) : {αs : List Type} → Fields αs → Prop
  | _, .nil => True
  | _, .cons _ _ codec rest => holds codec ∧ rest.All holds

def At (key : String) (holds : {α : Type} → Codec α → α → Prop) :
    {αs : List Type} → Fields αs → Values αs → Prop
  | _, .nil, _ => False
  | _, .cons name _ codec rest, (a, values) =>
    if name = key then holds codec a else rest.At key holds values

/-- The values met before the fields of the given keys. -/
def met (keys : List String) : {αs : List Type} → Fields αs → Values αs → Slots αs
  | _, .nil, _ => ()
  | _, .cons name _ _ rest, (a, values) =>
    (if name ∈ keys then none else some a, rest.met keys values)

theorem All.imp {holds holds' : {α : Type} → Codec α → Prop}
    (himp : ∀ {α : Type} {codec : Codec α}, holds codec → holds' codec) {αs : List Type}
    {fields : Fields αs} (h : fields.All holds) : fields.All holds' := by
  induction fields with
  | nil => trivial
  | cons name presence codec rest ih => exact ⟨himp h.1, ih h.2⟩

section

variable {key : String} {holds holds' : {α : Type} → Codec α → α → Prop} {αs : List Type}
  {fields : Fields αs} {values : Values αs}

theorem At.imp (himp : ∀ {α : Type} {codec : Codec α} {a : α}, holds codec a → holds' codec a)
    (h : fields.At key holds values) : fields.At key holds' values := by
  induction fields with
  | nil => exact h
  | cons name presence codec rest ih =>
    obtain ⟨a, values⟩ := values
    rw [At] at h ⊢
    split at h
    · rename_i hname
      rw [if_pos hname]
      exact himp h
    · rename_i hname
      rw [if_neg hname]
      exact ih h

theorem At.and_all (h : fields.At key holds values) {every : {α : Type} → Codec α → Prop}
    (hall : fields.All every) :
    fields.At key (fun codec a => every codec ∧ holds codec a) values := by
  induction fields with
  | nil => exact h
  | cons name presence codec rest ih =>
    obtain ⟨a, values⟩ := values
    rw [At] at h ⊢
    split at h
    · rename_i hname
      rw [if_pos hname]
      exact ⟨hall.1, h⟩
    · rename_i hname
      rw [if_neg hname]
      exact ih h hall.2

theorem At.exists (h : fields.At key holds values) :
    ∃ (α : Type) (codec : Codec α) (a : α), holds codec a := by
  induction fields with
  | nil => exact h.elim
  | cons name presence codec rest ih =>
    obtain ⟨a, values⟩ := values
    rw [At] at h
    split at h
    · exact ⟨_, codec, a, h⟩
    · exact ih h

end

theorem toFields_eq_ok {αs : List Type} {fields : Fields αs} (hnames : fields.names.Nodup)
    {values : Values αs} {pairs : List (String × Json)}
    (h : fields.toFields values = .ok pairs) :
    pairs.map Prod.fst = fields.names ∧
      ∀ pair ∈ pairs, fields.At pair.1 (fun codec a => codec.toJson a = .ok pair.2) values := by
  induction fields generalizing pairs with
  | nil =>
    cases h
    exact ⟨rfl, List.forall_mem_nil _⟩
  | cons name presence codec rest ih =>
    obtain ⟨a, values⟩ := values
    obtain ⟨v, hv, h⟩ := bind_eq_ok_iff.mp h
    obtain ⟨others, hothers, h⟩ := bind_eq_ok_iff.mp h
    cases h
    rw [names, List.nodup_cons] at hnames
    obtain ⟨hkeys, hpairs⟩ := ih hnames.2 hothers
    refine ⟨by rw [List.map_cons, hkeys, names], List.forall_mem_cons.mpr ⟨?_, ?_⟩⟩
    · rw [At, if_pos rfl]
      exact hv
    · intro pair hpair
      have hne : name ≠ pair.1 := by
        rintro rfl
        exact hnames.1 (hkeys ▸ List.mem_map_of_mem hpair)
      rw [At, if_neg hne]
      exact hpairs pair hpair

theorem met_eq_empty {αs : List Type} {fields : Fields αs} {keys : List String}
    (h : ∀ name ∈ fields.names, name ∈ keys) (values : Values αs) :
    fields.met keys values = Slots.empty αs := by
  induction fields with
  | nil => rfl
  | cons name presence codec rest ih =>
    obtain ⟨a, values⟩ := values
    rw [names, List.forall_mem_cons] at h
    rw [met, if_pos h.1, ih h.2, Slots.empty]

theorem finish_met_nil {αs : List Type} (fields : Fields αs) (values : Values αs) :
    fields.finish (fields.met [] values) = .ok values := by
  induction fields with
  | nil => rfl
  | cons name presence codec rest ih =>
    obtain ⟨a, values⟩ := values
    rw [met, if_neg List.not_mem_nil, finish, ih]
    rfl

theorem met_congr {αs : List Type} {fields : Fields αs} {keys keys' : List String}
    (h : ∀ name ∈ fields.names, name ∈ keys ↔ name ∈ keys') (values : Values αs) :
    fields.met keys values = fields.met keys' values := by
  induction fields with
  | nil => rfl
  | cons name presence codec rest ih =>
    obtain ⟨a, values⟩ := values
    rw [names, List.forall_mem_cons] at h
    rw [met, met, ih h.2, if_congr h.1 rfl rfl]

theorem assign_cons {ε α : Type} {αs : List Type} (key name : String) (duplicate : ε)
    (presence : Presence α) (codec : Codec α) (rest : Fields αs) (slot : Option α)
    (slots : Slots αs) (put : {α : Type} → Codec α → Except ε (α × List Char)) :
    (Fields.cons name presence codec rest).assign key duplicate (slot, slots) put =
      if name = key then
        match slot with
        | some _ => some (.error duplicate)
        | none =>
          some <| match put codec with
            | .ok (a, after) => .ok ((some a, slots), after)
            | .error e => .error e
      else
        (rest.assign key duplicate slots put).map fun
          | .ok (slots, after) => .ok ((slot, slots), after)
          | .error e => .error e := rfl

theorem assign_met {ε : Type} {αs : List Type} {fields : Fields αs} (hnames : fields.names.Nodup)
    {key : String} {put : {α : Type} → Codec α → Except ε (α × List Char)} {after : List Char}
    {values : Values αs} (h : fields.At key (fun codec a => put codec = .ok (a, after)) values)
    {keys : List String} (hkey : key ∉ keys) (duplicate : ε) :
    fields.assign key duplicate (fields.met (key :: keys) values) put =
      some (.ok (fields.met keys values, after)) := by
  induction fields with
  | nil => exact h.elim
  | cons name presence codec rest ih =>
    obtain ⟨a, values⟩ := values
    rw [names, List.nodup_cons] at hnames
    rw [At] at h
    rw [met, assign_cons]
    split at h
    · rename_i hname
      subst hname
      rw [if_pos rfl, if_pos List.mem_cons_self, h, met, if_neg hkey]
      have hrest : rest.met (name :: keys) values = rest.met keys values := by
        apply met_congr
        intro other hother
        have hne : other ≠ name := by
          rintro rfl
          exact hnames.1 hother
        simp [hne]
      rw [hrest]
    · rename_i hname
      rw [if_neg hname, ih hnames.2 h, met]
      simp [hname]

theorem ofFields_met {αs : List Type} {fields : Fields αs} (hnames : fields.names.Nodup)
    {values : Values αs} {pairs : List (String × Json)} (hkeys : (pairs.map Prod.fst).Nodup)
    (h : ∀ pair ∈ pairs, fields.At pair.1 (fun codec a => codec.ofJson pair.2 = .ok a) values) :
    fields.ofFields (fields.met (pairs.map Prod.fst) values) pairs =
      .ok (fields.met [] values) := by
  induction pairs with
  | nil => rfl
  | cons pair pairs ih =>
    rw [List.map_cons, List.nodup_cons] at hkeys
    rw [List.forall_mem_cons] at h
    rw [List.map_cons, ofFields]
    simp only
    have hput : fields.At pair.1 (fun codec a =>
        (do return (← codec.ofJson pair.2, ([] : List Char))) = .ok (a, [])) values :=
      h.1.imp fun hread => by rw [hread]; rfl
    rw [assign_met hnames hput hkeys.1]
    exact ih hkeys.2 h.2

end Fields

/-- A record loses nothing if none of its fields does. -/
theorem Record.faithful_codec {r : Record α} {depth : Nat} (hdepth : 0 < depth)
    (hfields : r.fields.All (·.Faithful depth)) (hnames : r.fields.names.Nodup)
    (hmake : ∀ a, r.make (r.values a) = a) : r.codec.Faithful (depth + 1) := by
  have hwritten {a : α} {v : Json} (h : r.codec.toJson a = .ok v) :
      ∃ pairs, r.fields.toFields (r.values a) = .ok pairs ∧ v = .obj pairs := by
    obtain ⟨pairs, hpairs, h⟩ := bind_eq_ok_iff.mp h
    cases h
    exact ⟨pairs, hpairs, rfl⟩
  constructor
  · intro a v h
    obtain ⟨pairs, hpairs, rfl⟩ := hwritten h
    refine ⟨hdepth, ?_⟩
    intro pair hpair
    obtain ⟨β, codec, b, hcodec, hwrite⟩ :=
      (((Fields.toFields_eq_ok hnames hpairs).2 pair hpair).and_all hfields).exists
    exact hcodec.fits hwrite
  · intro a v h
    obtain ⟨pairs, hpairs, rfl⟩ := hwritten h
    obtain ⟨hkeys, hall⟩ := Fields.toFields_eq_ok hnames hpairs
    have hsortedKeys : (sortedFields pairs).map Prod.fst = r.fields.names := by
      rw [sortedFields_eq_map, List.map_map, ← hkeys]
      rfl
    have hperm : (sortFields (sortedFields pairs)).Perm (sortedFields pairs) :=
      sortFields_perm (hsortedKeys ▸ hnames)
    have hread (pair : String × Json) (hpair : pair ∈ sortFields (sortedFields pairs)) :
        r.fields.At pair.1 (fun codec a => codec.ofJson pair.2 = .ok a) (r.values a) := by
      have hmem := hperm.mem_iff.mp hpair
      rw [sortedFields_eq_map] at hmem
      obtain ⟨before, hbefore, rfl⟩ := List.mem_map.mp hmem
      exact ((hall before hbefore).and_all hfields).imp fun h => h.1.ofJson_sorted h.2
    have hnodup : ((sortFields (sortedFields pairs)).map Prod.fst).Nodup := by
      rw [(hperm.map Prod.fst).nodup_iff, hsortedKeys]
      exact hnames
    have hslots := Fields.ofFields_met hnames hnodup hread
    rw [Fields.met_eq_empty] at hslots
    · rw [sorted]
      show (do
        let slots ← r.fields.ofFields (Slots.empty r.types) (sortFields (sortedFields pairs))
        return r.make (← r.fields.finish slots)) = Except.ok a
      rw [hslots]
      show (do return r.make (← r.fields.finish (r.fields.met [] (r.values a)))) = Except.ok a
      rw [Fields.finish_met_nil]
      exact congrArg Except.ok (hmake a)
    · intro name hname
      rw [(hperm.map Prod.fst).mem_iff, hsortedKeys]
      exact hname

end ApiAtlas.Json
