import ApiAtlas.Proofs.Scan.Hits
import ApiAtlas.Proofs.Scan.Reading
import ApiAtlas.Scan.Module

/-!
Reading the front of a text. Whatever stands behind a text, the ways to read that do not reach into
it are the ways to read the text alone, in the same order. So where no header reaches over the end of
a text, the same one is read in front of any other.
-/
namespace ApiAtlas.Scan

namespace Taken

def before (behind : List Char) (taken : Taken) : Taken :=
  { taken with rest := taken.rest ++ behind }

/-- Nothing is taken of the last `length` characters. -/
def spares (length : Nat) (taken : Taken) : Bool := length ≤ taken.rest.length

theorem spares_comp_plus (length n : Nat) : spares length ∘ plus n = spares length := rfl

theorem before_comp_plus (behind : List Char) (n : Nat) :
    before behind ∘ plus n = plus n ∘ before behind := rfl

theorem spares_of_le {length : Nat} {taken : Taken} (h : length ≤ taken.rest.length) :
    taken.spares length = true := decide_eq_true h

theorem not_spares {length : Nat} {taken : Taken} (h : taken.rest.length < length) :
    taken.spares length = false := decide_eq_false (Nat.not_le.mpr h)

end Taken

/-- A reading that looks at nothing behind what it takes, and keeps its order. -/
structure Local (r : Reading) : Prop where
  shrinks : ∀ cs, ∀ taken ∈ r cs, taken.rest.length ≤ cs.length
  filter_spares : ∀ cs behind,
    (r (cs ++ behind)).filter (Taken.spares behind.length) = (r cs).map (.before behind)

variable {r a b : Reading} {L : List Char → Prop}

theorem Reads.shrinks (h : Reads r L) (cs : List Char) :
    ∀ taken ∈ r cs, taken.rest.length ≤ cs.length := by
  intro taken htaken
  obtain ⟨front, rest, -, rfl, rfl⟩ := (h _ _).mp htaken
  simp

theorem Reads.filter_spares_nil (h : Reads r L) (hne : ¬L []) (behind : List Char) :
    (r behind).filter (Taken.spares behind.length) = [] := by
  rw [List.filter_eq_nil_iff]
  intro taken htaken
  rw [Taken.not_spares (h.shorter hne htaken)]
  exact Bool.false_ne_true

theorem not_isRun_nil (p : Char → Bool) : ¬IsRun p [] := fun h => h.ne_nil rfl

theorem local_many (p : Char → Bool) : Local (many p) where
  shrinks := (reads_many p).shrinks
  filter_spares cs behind := by
    induction cs with
    | nil =>
      cases behind with
      | nil => rfl
      | cons c behind =>
        have hmore := (reads_some1 p).filter_spares_nil (not_isRun_nil p) (c :: behind)
        rw [some1_cons] at hmore
        rw [List.nil_append, many_cons, List.filter_append, hmore]
        simp [Taken.spares, many_nil, Taken.before]
    | cons c cs ih =>
      rw [List.cons_append, many_cons, many_cons, List.filter_append, List.map_append]
      congr 1
      · split
        · rw [List.filter_map, Taken.spares_comp_plus, ih, List.map_map, List.map_map,
            Taken.before_comp_plus]
        · rfl
      · simp [Taken.spares, Taken.before]
        omega

theorem local_some1 (p : Char → Bool) : Local (some1 p) where
  shrinks := (reads_some1 p).shrinks
  filter_spares cs behind := by
    cases cs with
    | nil => exact (reads_some1 p).filter_spares_nil (not_isRun_nil p) behind
    | cons c cs =>
      rw [List.cons_append, some1_cons, some1_cons]
      split
      · rw [List.filter_map, Taken.spares_comp_plus, (local_many p).filter_spares, List.map_map,
          List.map_map, Taken.before_comp_plus]
      · rfl

theorem local_word (s : String) : Local (word s) where
  shrinks := (reads_word s).shrinks
  filter_spares cs behind := by
    unfold word
    induction s.toList generalizing cs with
    | nil => simp [literalFrom, Taken.spares, Taken.before]
    | cons w ws ih =>
      cases cs with
      | nil =>
        have hreads : Reads (literalFrom 0 (w :: ws)) (· = w :: ws) := by
          simpa [word] using reads_word (String.ofList (w :: ws))
        exact hreads.filter_spares_nil (by simp) behind
      | cons c cs =>
        rw [List.cons_append, literalFrom, literalFrom, literalFrom_eq,
          literalFrom_eq (0 + 1) ws cs]
        split
        · rw [List.filter_map, Taken.spares_comp_plus, ih, List.map_map, List.map_map,
            Taken.before_comp_plus]
        · rfl

theorem local_upTo (close : Char) : Local (upTo close) where
  shrinks := (reads_upTo close).shrinks
  filter_spares cs behind := by
    induction cs with
    | nil => exact (reads_upTo close).filter_spares_nil (by simp) behind
    | cons c cs ih =>
      rw [List.cons_append, upTo_cons, upTo_cons, List.filter_append, List.map_append]
      congr 1
      · split <;> simp [Taken.spares, Taken.before]
      · split
        · rfl
        · rw [List.filter_map, Taken.spares_comp_plus, ih, List.map_map, List.map_map,
            Taken.before_comp_plus]

structure LocalLead {α : Type} (lead : List Char → List (α × Taken)) : Prop where
  shrinks : ∀ cs, ∀ found ∈ lead cs, found.2.rest.length ≤ cs.length
  filter_spares : ∀ cs behind, (lead (cs ++ behind)).filter (·.2.spares behind.length) =
    (lead cs).map (Prod.map id (Taken.before behind))

def andThen {α β : Type} (lead : List Char → List (α × Taken))
    (next : α → List Char → List (β × Taken)) (cs : List Char) : List (β × Taken) :=
  (lead cs).flatMap fun found =>
    (next found.1 found.2.rest).map (Prod.map id (Taken.plus found.2.size))

section

variable {α β : Type}

theorem Local.lead (h : Local r) (note : α) : LocalLead fun cs => (r cs).map (note, ·) where
  shrinks cs found hfound := by
    obtain ⟨taken, htaken, rfl⟩ := List.mem_map.mp hfound
    exact h.shrinks cs taken htaken
  filter_spares cs behind := by
    have hsame : (fun found : α × Taken => found.2.spares behind.length) ∘ (note, ·) =
        Taken.spares behind.length := rfl
    rw [List.filter_map, hsame, h.filter_spares, List.map_map, List.map_map]
    rfl

theorem local_of_lead {note : α} (h : LocalLead fun cs => (r cs).map (note, ·)) : Local r where
  shrinks cs taken htaken := h.shrinks cs (note, taken) (List.mem_map_of_mem htaken)
  filter_spares cs behind := by
    have hnoted := congrArg (List.map Prod.snd) (h.filter_spares cs behind)
    rw [List.filter_map, List.map_map, List.map_map, List.map_map] at hnoted
    simpa [Function.comp_def] using hnoted

variable {lead : List Char → List (α × Taken)} {next : α → List Char → List (β × Taken)}

theorem LocalLead.append {other : List Char → List (α × Taken)} (h : LocalLead lead)
    (h' : LocalLead other) : LocalLead fun cs => lead cs ++ other cs where
  shrinks cs := List.forall_mem_append.mpr ⟨h.shrinks cs, h'.shrinks cs⟩
  filter_spares cs behind := by
    rw [List.filter_append, h.filter_spares, h'.filter_spares, List.map_append]

theorem LocalLead.andThen (h : LocalLead lead) (hnext : ∀ note, LocalLead (next note)) :
    LocalLead (andThen lead next) where
  shrinks cs found hfound := by
    obtain ⟨first, hfirst, hfound⟩ := List.mem_flatMap.mp hfound
    obtain ⟨second, hsecond, rfl⟩ := List.mem_map.mp hfound
    exact Nat.le_trans ((hnext first.1).shrinks _ second hsecond) (h.shrinks _ first hfirst)
  filter_spares cs behind := by
    have hover (found : α × Taken) (hspares : found.2.spares behind.length = false) :
        (next found.1 found.2.rest).filter (·.2.spares behind.length) = [] := by
      rw [List.filter_eq_nil_iff]
      intro second hsecond
      have hle := (hnext found.1).shrinks _ second hsecond
      have hlt : found.2.rest.length < behind.length := Nat.not_le.mp (of_decide_eq_false hspares)
      rw [Taken.not_spares (Nat.lt_of_le_of_lt hle hlt)]
      exact Bool.false_ne_true
    calc (Scan.andThen lead next (cs ++ behind)).filter (·.2.spares behind.length)
        = (lead (cs ++ behind)).flatMap fun found =>
            ((next found.1 found.2.rest).filter (·.2.spares behind.length)).map
              (Prod.map id (Taken.plus found.2.size)) := by
          simp only [Scan.andThen, List.filter_flatMap, List.filter_map]
          rfl
      _ = ((lead cs).map (Prod.map id (Taken.before behind))).flatMap fun found =>
            ((next found.1 found.2.rest).filter (·.2.spares behind.length)).map
              (Prod.map id (Taken.plus found.2.size)) := by
          rw [← h.filter_spares, flatMap_filter_of]
          intro found _ hspares
          rw [hover found hspares, List.map_nil]
      _ = (lead cs).flatMap fun found =>
            ((next found.1 found.2.rest).map (Prod.map id (Taken.before behind))).map
              (Prod.map id (Taken.plus found.2.size)) := by
          rw [List.flatMap_map]
          exact List.flatMap_congr fun found _ => by
            rw [← (hnext found.1).filter_spares]
            rfl
      _ = (Scan.andThen lead next cs).map (Prod.map id (Taken.before behind)) := by
          simp only [Scan.andThen, List.map_flatMap, List.map_map]
          rfl

end

theorem Local.seq (ha : Local a) (hb : Local b) : Local (seq a b) := by
  have hboth := (ha.lead ()).andThen fun _ => hb.lead ()
  have hseq : andThen (fun cs => (a cs).map ((), ·)) (fun _ cs => (b cs).map ((), ·)) =
      fun cs => (Scan.seq a b cs).map ((), ·) := by
    funext cs
    simp [andThen, Scan.seq, List.flatMap_map, List.map_flatMap, Function.comp_def]
  rw [hseq] at hboth
  exact local_of_lead hboth

theorem Local.optional (h : Local r) : Local (optional r) where
  shrinks cs taken htaken := by
    rcases List.mem_append.mp htaken with htaken | htaken
    · exact h.shrinks cs taken htaken
    · obtain rfl := List.mem_singleton.mp htaken
      exact Nat.le_refl _
  filter_spares cs behind := by
    unfold Scan.optional
    rw [List.filter_append, h.filter_spares, List.map_append]
    simp [Taken.spares, Taken.before]

theorem local_oneOf {rs : List Reading} (h : ∀ r ∈ rs, Local r) : Local (oneOf rs) where
  shrinks cs taken htaken := by
    obtain ⟨r, hr, htaken⟩ := List.mem_flatMap.mp htaken
    exact (h r hr).shrinks cs taken htaken
  filter_spares cs behind := by
    unfold oneOf
    rw [List.filter_flatMap, List.map_flatMap]
    exact List.flatMap_congr fun r hr => (h r hr).filter_spares cs behind

namespace Header

variable {κ : Type} {h : Header κ} {leads : κ → List Char → Prop} {tails : List Char → Prop}

def namesAt (h : Header κ) (cs : List Char) : List (List Char × Taken) :=
  (some1 h.inName cs).map fun taken => (cs.take taken.size, taken)

theorem localLead_namesAt (h : Header κ) : LocalLead h.namesAt where
  shrinks cs found hfound := by
    obtain ⟨taken, htaken, rfl⟩ := List.mem_map.mp hfound
    exact (local_some1 h.inName).shrinks cs taken htaken
  filter_spares cs behind := by
    unfold namesAt
    have hsame : (fun found : List Char × Taken => found.2.spares behind.length) ∘
        (fun taken : Taken => ((cs ++ behind).take taken.size, taken)) =
          Taken.spares behind.length := rfl
    rw [List.filter_map, hsame, (local_some1 h.inName).filter_spares, List.map_map, List.map_map]
    apply List.map_congr_left
    intro taken htaken
    obtain ⟨name, rest, -, rfl, rfl⟩ := (reads_some1 h.inName cs taken).mp htaken
    simp [Taken.before]

def readings (h : Header κ) : List Char → List ((κ × List Char) × Taken) :=
  andThen h.lead fun note => andThen h.namesAt fun name cs => (h.tail cs).map ((note, name), ·)

theorem localLead_readings (hlead : LocalLead h.lead) (htail : Local h.tail) :
    LocalLead h.readings :=
  hlead.andThen fun note => h.localLead_namesAt.andThen fun name => htail.lead (note, name)

theorem readAt_eq_head? (h : Header κ) (cs : List Char) :
    h.readAt cs = (h.readings cs).head?.map fun ((note, name), taken) =>
      (⟨note, name, cs⟩, taken.size) := by
  unfold readAt readings andThen namesAt
  simp [List.head?_flatMap, List.map_findSome?, List.findSome?_map, Function.comp_def,
    Nat.add_assoc]

theorem Spells.size_readings (hs : h.Spells leads tails) {cs : List Char}
    {found : (κ × List Char) × Taken} (hfound : found ∈ h.readings cs) :
    found.2.size + found.2.rest.length = cs.length := by
  obtain ⟨⟨note, _⟩, hlead, hfirst⟩ := List.mem_flatMap.mp hfound
  obtain ⟨_, hnamed, rfl⟩ := List.mem_map.mp hfirst
  obtain ⟨_, hname, hsecond⟩ := List.mem_flatMap.mp hnamed
  obtain ⟨_, hlast, rfl⟩ := List.mem_map.mp hsecond
  obtain ⟨_, htail, rfl⟩ := List.mem_map.mp hlast
  obtain ⟨_, hrun, rfl⟩ := List.mem_map.mp hname
  obtain ⟨lead, _, -, rfl, rfl⟩ := (hs.lead _ _ _).mp hlead
  obtain ⟨name, _, -, hrest, rfl⟩ := (reads_some1 h.inName _ _).mp hrun
  obtain ⟨tail, rest, -, hrest', rfl⟩ := (hs.tail _ _).mp htail
  simp only at hrest hrest'
  simp only [hrest, hrest', Prod.map_snd, Taken.plus_mk, List.length_append]
  omega

/-- Where the header that is preferred does not reach over the end of a text, it is the one that is
read in the text alone. -/
theorem Spells.readAt_before (hs : h.Spells leads tails) (hlead : LocalLead h.lead)
    (htail : Local h.tail) {cs behind : List Char}
    (hclear : ∀ hit size, h.readAt (cs ++ behind) = some (hit, size) → size ≤ cs.length) :
    h.readAt (cs ++ behind) = (h.readAt cs).map fun (hit, size) =>
      (⟨hit.note, hit.name, cs ++ behind⟩, size) := by
  have hhead : (h.readings (cs ++ behind)).head? =
      ((h.readings cs).map (Prod.map id (Taken.before behind))).head? := by
    rw [← (localLead_readings hlead htail).filter_spares]
    cases hall : h.readings (cs ++ behind) with
    | nil => rfl
    | cons found others =>
      have hread := readAt_eq_head? h (cs ++ behind)
      have hsize := hs.size_readings (hall ▸ List.mem_cons_self)
      rw [hall] at hread
      have hle := hclear _ _ hread
      rw [List.length_append] at hsize
      rw [List.filter_cons, if_pos (Taken.spares_of_le (by omega))]
      rfl
  rw [readAt_eq_head?, readAt_eq_head?, hhead, List.head?_map, Option.map_map, Option.map_map]
  rfl

end Header

end ApiAtlas.Scan
