import ApiAtlas.Proofs.Json.Text

/-!
What can be written. A value is written exactly if its paths are text, and what was read from a
value has no others; with what is read back, that makes a codec lose nothing.
-/
namespace ApiAtlas.Json

variable {α : Type}

theorem exists_bind_iff {ε β γ δ : Type} {x : Except ε β} {y : Except ε γ} {join : β → γ → δ} :
    (∃ d, (do
      let b ← x
      return join b (← y)) = Except.ok d) ↔ (∃ b, x = .ok b) ∧ ∃ c, y = .ok c := by
  cases x with
  | error e => simp [bind, Except.bind]
  | ok b => cases y <;> simp [bind, Except.bind, pure, Except.pure]

theorem exists_return_iff {ε β γ : Type} {x : Except ε β} {f : β → γ} :
    (∃ c, (do return f (← x)) = Except.ok c) ↔ ∃ b, x = .ok b := by
  cases x <;> simp [bind, Except.bind, pure, Except.pure]

/-- A value is written exactly if the paths in it are text. -/
def Codec.WritesText (c : Codec α) (paths : α → List Path) : Prop :=
  ∀ a, (∃ v, c.toJson a = .ok v) ↔ ∀ p ∈ paths a, p.toText?.isSome

def Fields.WritesText {αs : List Type} (fields : Fields αs) (paths : Values αs → List Path) :
    Prop :=
  ∀ values, (∃ pairs, fields.toFields values = .ok pairs) ↔ ∀ p ∈ paths values, p.toText?.isSome

namespace Codec

theorem writesText_of_ok {c : Codec α} {write : α → Json} (h : ∀ a, c.toJson a = .ok (write a)) :
    c.WritesText fun _ => [] := by
  intro a
  simp [h a]

theorem writesText_path : path.WritesText fun p => [p] := by
  intro p
  simp only [path, List.forall_mem_singleton]
  cases p.toText? <;> simp

theorem WritesText.option {c : Codec α} {paths : α → List Path} (h : c.WritesText paths) :
    (Codec.option c).WritesText fun a? => a?.toList.flatMap paths := by
  intro a?
  cases a? with
  | none => simp [Codec.option]
  | some a => simpa [Codec.option] using h a

theorem WritesText.list {c : Codec α} {paths : α → List Path} (h : c.WritesText paths) :
    (Codec.list c).WritesText fun as => as.flatMap paths := by
  intro as
  have hitems : (∃ vs, as.mapM c.toJson = .ok vs) ↔ ∀ p ∈ as.flatMap paths, p.toText?.isSome := by
    induction as with
    | nil => simp [pure, Except.pure]
    | cons a as ih =>
      rw [List.mapM_cons, exists_bind_iff, h a, ih, List.flatMap_cons, List.forall_mem_append]
  exact exists_return_iff.trans hitems

theorem WritesText.list_map {c : Codec α} {path : α → Path} (h : c.WritesText fun a => [path a]) :
    (Codec.list c).WritesText fun as => as.map path := by
  have hlist := h.list
  simp only [← List.map_eq_flatMap] at hlist
  exact hlist

end Codec

namespace Fields

theorem writesText_nil : Fields.nil.WritesText fun _ => [] := by
  intro values
  simp [toFields]

theorem WritesText.cons {αs : List Type} {c : Codec α} {rest : Fields αs} {paths : α → List Path}
    {others : Values αs → List Path} {name : String} {presence : Presence α}
    (hc : c.WritesText paths) (hrest : rest.WritesText others) :
    (Fields.cons name presence c rest).WritesText fun values =>
      paths values.1 ++ others values.2 := by
  intro ⟨a, values⟩
  rw [toFields, exists_bind_iff, hc a, hrest values, List.forall_mem_append]

end Fields

theorem Record.writesText_codec {r : Record α} {others : Values r.types → List Path}
    (h : r.fields.WritesText others) {paths : α → List Path}
    (hpaths : ∀ a, others (r.values a) = paths a) : r.codec.WritesText paths := by
  intro a
  rw [← hpaths]
  exact exists_return_iff.trans (h (r.values a))

/-- What a codec reads from a value it can write. -/
def Codec.Rewrites (c : Codec α) : Prop :=
  ∀ {v a}, c.ofJson v = .ok a → ∃ w, c.toJson a = .ok w

namespace Codec

theorem rewrites_of_ok {c : Codec α} {write : α → Json} (h : ∀ a, c.toJson a = .ok (write a)) :
    c.Rewrites :=
  fun {_ a} _ => ⟨write a, h a⟩

theorem rewrites_path : path.Rewrites := by
  intro v p hp
  obtain ⟨s, -, hp⟩ := bind_eq_ok_iff.mp hp
  cases hp
  refine ⟨.str s, ?_⟩
  simp [path, Path.toText?, Path.ofString, Bytes.ofString, Utf8.decode_encode]

theorem Rewrites.option {c : Codec α} (h : c.Rewrites) : (Codec.option c).Rewrites := by
  intro v a? ha
  cases a? with
  | none => exact ⟨.null, rfl⟩
  | some a =>
    cases v with
    | null => cases ha
    | bool | num | str | arr | obj =>
      obtain ⟨b, hb, ha⟩ := bind_eq_ok_iff.mp ha
      cases ha
      exact h hb

theorem Rewrites.list {c : Codec α} (h : c.Rewrites) : (Codec.list c).Rewrites := by
  intro v as has
  cases v with
  | null | bool | num | str | obj => cases has
  | arr items =>
    refine exists_return_iff.mpr ?_
    change items.mapM c.ofJson = .ok as at has
    induction items generalizing as with
    | nil =>
      cases has
      exact ⟨[], rfl⟩
    | cons item items ih =>
      rw [List.mapM_cons] at has
      obtain ⟨a, ha, has⟩ := bind_eq_ok_iff.mp has
      obtain ⟨rest, hrest, has⟩ := bind_eq_ok_iff.mp has
      cases has
      rw [List.mapM_cons, exists_bind_iff]
      exact ⟨h ha, ih hrest⟩

end Codec

namespace Fields

def Rewrite : {αs : List Type} → Fields αs → Prop
  | _, .nil => True
  | _, .cons _ presence codec rest =>
    codec.Rewrites ∧ (∀ a ∈ presence.absent, ∃ w, codec.toJson a = .ok w) ∧
      (∀ a ∈ presence.short, ∃ w, codec.toJson a = .ok w) ∧ rest.Rewrite

section

variable {αs : List Type} {c : Codec α} {rest : Fields αs} {name : String}

theorem rewrite_nil : Fields.nil.Rewrite := trivial

theorem Rewrite.required (hc : c.Rewrites) (hrest : rest.Rewrite) :
    (Fields.cons name .required c rest).Rewrite :=
  ⟨hc, fun a ha => (Option.not_mem_none a ha).elim, fun a ha => (Option.not_mem_none a ha).elim,
    hrest⟩

theorem Rewrite.default (hc : c.Rewrites) {a : α} (ha : ∃ w, c.toJson a = .ok w)
    (hrest : rest.Rewrite) : (Fields.cons name (.default a) c rest).Rewrite := by
  refine ⟨hc, ?_, ?_, hrest⟩
  · rintro b ⟨⟩
    exact ha
  · rintro b ⟨⟩
    exact ha

theorem Rewrite.optional (hc : c.Rewrites) (hrest : rest.Rewrite) :
    (Fields.cons name .optional (.option c) rest).Rewrite := by
  refine ⟨hc.option, ?_, fun a ha => (Option.not_mem_none a ha).elim, hrest⟩
  rintro b ⟨⟩
  exact ⟨.null, rfl⟩

end

def Writable : {αs : List Type} → Fields αs → Slots αs → Prop
  | _, .nil, _ => True
  | _, .cons _ _ codec rest, (slot, slots) =>
    (∀ a ∈ slot, ∃ w, codec.toJson a = .ok w) ∧ rest.Writable slots

section

variable {αs : List Type} {fields : Fields αs}

theorem writable_empty (fields : Fields αs) : fields.Writable (Slots.empty αs) := by
  induction fields with
  | nil => trivial
  | cons name presence codec rest ih => exact ⟨fun a ha => (Option.not_mem_none a ha).elim, ih⟩

theorem Writable.assign {ε : Type} {key : String} {duplicate : ε}
    {put : {α : Type} → Codec α → Except ε (α × List Char)}
    (hput : ∀ {α : Type} {codec : Codec α} {a : α} {after : List Char}, codec.Rewrites →
      put codec = .ok (a, after) → ∃ w, codec.toJson a = .ok w)
    (hfields : fields.Rewrite) {slots slots' : Slots αs} {after : List Char}
    (hslots : fields.Writable slots)
    (h : fields.assign key duplicate slots put = some (.ok (slots', after))) :
    fields.Writable slots' := by
  induction fields with
  | nil => cases h
  | cons name presence codec rest ih =>
    obtain ⟨slot, slots⟩ := slots
    rw [assign_cons] at h
    split at h
    · split at h
      · cases h
      · split at h
        · rename_i a read hread
          cases h
          refine ⟨?_, hslots.2⟩
          rintro b ⟨⟩
          exact hput hfields.1 hread
        · cases h
    · obtain ⟨result, hresult, heq⟩ := Option.map_eq_some_iff.mp h
      split at heq
      · cases heq
        exact ⟨hslots.1, ih hfields.2.2.2 hslots.2 hresult⟩
      · cases heq

theorem Writable.ofFields (hfields : fields.Rewrite) {pairs : List (String × Json)}
    {slots slots' : Slots αs} (hslots : fields.Writable slots)
    (h : fields.ofFields slots pairs = .ok slots') : fields.Writable slots' := by
  induction pairs generalizing slots with
  | nil =>
    cases h
    exact hslots
  | cons pair pairs ih =>
    rw [Fields.ofFields] at h
    simp only at h
    split at h
    · rename_i between after hassign
      refine ih (hslots.assign ?_ hfields hassign) h
      intro β codec b after hcodec hput
      obtain ⟨c, hc, hput⟩ := bind_eq_ok_iff.mp hput
      cases hput
      exact hcodec hc
    · cases h
    · exact ih hslots h

theorem Writable.finish (hfields : fields.Rewrite) {slots : Slots αs} {values : Values αs}
    (hslots : fields.Writable slots) (h : fields.finish slots = .ok values) :
    ∃ pairs, fields.toFields values = .ok pairs := by
  induction fields with
  | nil => exact ⟨[], rfl⟩
  | cons name presence codec rest ih =>
    obtain ⟨slot, slots⟩ := slots
    cases slot with
    | some a =>
      obtain ⟨others, hothers, h⟩ := bind_eq_ok_iff.mp h
      cases h
      rw [toFields, exists_bind_iff]
      exact ⟨hslots.1 a rfl, ih hfields.2.2.2 hslots.2 hothers⟩
    | none =>
      cases habsent : presence.absent with
      | none => simp [Fields.finish, habsent] at h
      | some a =>
        simp only [Fields.finish, habsent] at h
        obtain ⟨others, hothers, h⟩ := bind_eq_ok_iff.mp h
        cases h
        rw [toFields, exists_bind_iff]
        exact ⟨hfields.2.1 a habsent, ih hfields.2.2.2 hslots.2 hothers⟩

theorem Rewrite.ofItems (hfields : fields.Rewrite) {expected : String} {index : Nat}
    {items extra : List Json} {values : Values αs}
    (h : fields.ofItems expected index items = .ok (values, extra)) :
    ∃ pairs, fields.toFields values = .ok pairs := by
  induction fields generalizing index items with
  | nil => exact ⟨[], rfl⟩
  | cons name presence codec rest ih =>
    cases items with
    | nil =>
      rw [Fields.ofItems] at h
      split at h
      · cases h
      · rename_i a hshort
        obtain ⟨others, hothers, h⟩ := bind_eq_ok_iff.mp h
        cases h
        rw [toFields, exists_bind_iff]
        exact ⟨hfields.2.2.1 _ hshort, ih hfields.2.2.2 hothers⟩
    | cons item items =>
      rw [Fields.ofItems] at h
      obtain ⟨a, ha, h⟩ := bind_eq_ok_iff.mp h
      obtain ⟨others, hothers, h⟩ := bind_eq_ok_iff.mp h
      cases h
      rw [toFields, exists_bind_iff]
      exact ⟨hfields.1 ha, ih hfields.2.2.2 hothers⟩

end

end Fields

theorem Record.rewrites_codec {r : Record α} (hfields : r.fields.Rewrite)
    (hvalues : ∀ values, r.values (r.make values) = values) : r.codec.Rewrites := by
  intro v a ha
  refine exists_return_iff.mpr ?_
  cases v with
  | null | bool | num | str => cases ha
  | arr items =>
    obtain ⟨⟨values, extra⟩, hitems, ha⟩ := bind_eq_ok_iff.mp ha
    simp only at ha
    split at ha
    · cases ha
      rw [hvalues]
      exact hfields.ofItems hitems
    · cases ha
  | obj fields =>
    obtain ⟨slots, hslots, ha⟩ := bind_eq_ok_iff.mp ha
    obtain ⟨values, hfinish, ha⟩ := bind_eq_ok_iff.mp ha
    cases ha
    rw [hvalues]
    exact ((Fields.writable_empty r.fields).ofFields hfields hslots).finish hfields hfinish

/-- A codec that loses nothing: a value whose paths are all text is written, no other is, and both
written forms are read as the value. -/
structure Codec.RoundTrips (c : Codec α) (paths : α → List Path) : Prop where
  writes : ∀ a, (∃ v, c.toJson a = .ok v) ↔ ∀ p ∈ paths a, p.toText?.isSome
  reads : ∀ a v, c.toJson a = .ok v → ∀ text ∈ [v.compact, v.pretty], c.ofText text = .ok a

theorem Codec.RoundTrips.of {c : Codec α} {paths : α → List Path} (hwrites : c.WritesText paths)
    (hreads : c.ReadsBack maxDepth) : c.RoundTrips paths where
  writes := hwrites
  reads _ _ hv _ htext := hreads.ofText_written hv htext

end ApiAtlas.Json
