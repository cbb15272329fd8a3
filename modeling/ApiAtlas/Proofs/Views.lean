import ApiAtlas.Proofs.Path
import ApiAtlas.Proofs.Shape

/-!
What exclude rules see of the paths below a root. Paths come to the rules from the root already, and
the rules take the root off them once more, as so many bytes. Two roots that leave different things
of a path can be told apart by a shape that only one of them sees on the way to it.
-/
namespace ApiAtlas

namespace Exclude

/-- What the rules of a root see of a path below it. -/
def seen (root p : Path) : Path := relative ⟨undotted root, []⟩ p

theorem relative_ofLines (root : Path) (lines : List String) (p : Path) :
    (ofLines root lines).relative p = seen root p := rfl

theorem dropBytes_cases (front bytes : Bytes) :
    (∃ rest, bytes = front ++ rest ∧ dropBytes front bytes = some rest) ∨
      (¬ front <+: bytes ∧ dropBytes front bytes = none) := by
  unfold dropBytes
  split
  · rename_i h
    obtain ⟨rest, hrest⟩ := List.isPrefixOf_iff_prefix.mp h
    refine .inl ⟨rest, hrest.symm, ?_⟩
    rw [← hrest, List.drop_left]
  · rename_i h
    exact .inr ⟨fun hfront => h (List.isPrefixOf_iff_prefix.mpr hfront), rfl⟩

theorem dropBytes_append (front rest : Bytes) : dropBytes front (front ++ rest) = some rest := by
  rcases dropBytes_cases front (front ++ rest) with ⟨rest', hbytes, hrest⟩ | ⟨hfront, -⟩
  · rw [hrest, List.append_cancel_left hbytes]
  · exact absurd (List.prefix_append front rest) hfront

theorem undotted_of_isPlain {p : Path} (h : p.IsPlain) : undotted p = p := by
  unfold undotted
  rcases dropBytes_cases [Path.dot, Path.slash] p.bytes with ⟨rest, hbytes, -⟩ | ⟨-, hnone⟩
  · have hdot := h [Path.dot] (by
      rw [hbytes]
      simp [Path.splitSlash, Path.dot, Path.slash])
    exact absurd rfl hdot.ne_dot
  · rw [hnone]
    rfl

def unslashed (rest : Bytes) : Bytes := (dropBytes [Path.slash] rest).getD rest

theorem unslashed_slash (rest : Bytes) : unslashed (Path.slash :: rest) = rest := by
  have hdrop : dropBytes [Path.slash] (Path.slash :: rest) = some rest :=
    dropBytes_append [Path.slash] rest
  unfold unslashed
  rw [hdrop, Option.getD_some]

theorem unslashed_of_ne {b : UInt8} (h : b ≠ Path.slash) (rest : Bytes) :
    unslashed (b :: rest) = b :: rest := by
  unfold unslashed
  rcases dropBytes_cases [Path.slash] (b :: rest) with ⟨rest', hbytes, -⟩ | ⟨-, hnone⟩
  · exact absurd (List.cons.inj hbytes).1 h
  · rw [hnone, Option.getD_none]

structure Takes (root p : Path) : Prop where
  isDot : (undotted root).isDot = false
  ne_nil : (undotted root).bytes ≠ []
  slash_mem : Path.slash ∈ p.bytes
  front : (undotted root).bytes <+: p.bytes

theorem Takes.below {root p q : Path} (h : Takes root p) (hpq : p.AtOrAbove q) : Takes root q where
  isDot := h.isDot
  ne_nil := h.ne_nil
  slash_mem := hpq.isPrefix.subset h.slash_mem
  front := h.front.trans hpq.isPrefix

theorem Takes.bytes_seen {root p : Path} (h : Takes root p) (hp : p.IsPlain) {rest : Bytes}
    (hrest : p.bytes = (undotted root).bytes ++ rest) : (seen root p).bytes = unslashed rest := by
  have hslash := h.slash_mem
  unfold seen relative
  simp only [undotted_of_isPlain hp, h.isDot, hslash, decide_true, Bool.not_true, Bool.or_self,
    Bool.false_eq_true, if_false]
  rw [hrest, dropBytes_append]
  rfl

theorem unslashed_of_isPlain {p : Path} (h : p.IsPlain) : unslashed p.bytes = p.bytes := by
  have hfront := h.not_isAbsolute
  cases hbytes : p.bytes with
  | nil => rfl
  | cons b rest =>
    apply unslashed_of_ne
    simpa [Path.isAbsolute, hbytes] using hfront

theorem seen_eq_self {root p : Path} (hp : p.IsPlain) (h : ¬ Takes root p) : seen root p = p := by
  unfold seen relative
  simp only [undotted_of_isPlain hp]
  split
  · rfl
  · rename_i hnot
    rcases dropBytes_cases (undotted root).bytes p.bytes with ⟨rest, hbytes, hrest⟩ | ⟨-, hnone⟩
    · -- It stands in front and is not taken off, so it is empty.
      have hempty : (undotted root).bytes = [] := by
        by_contra hne
        simp only [Bool.or_eq_true, Bool.not_eq_true', decide_eq_false_iff_not, not_or,
          Bool.not_eq_true, not_not] at hnot
        exact h ⟨hnot.1, hne, hnot.2, rest, hbytes.symm⟩
      rw [hempty, List.nil_append] at hbytes
      rw [hrest, ← hbytes]
      exact Path.ext (unslashed_of_isPlain hp)
    · rw [hnone]

theorem length_unslashed_le (rest : Bytes) : (unslashed rest).length ≤ rest.length := by
  unfold unslashed
  rcases dropBytes_cases [Path.slash] rest with ⟨more, hrest, hmore⟩ | ⟨-, hnone⟩
  · rw [hmore, hrest, Option.getD_some, List.length_append]
    exact Nat.le_add_left _ _
  · rw [hnone, Option.getD_none]

theorem Takes.length_seen_le {root p : Path} (h : Takes root p) (hp : p.IsPlain) :
    (undotted root).bytes.length + (seen root p).bytes.length ≤ p.bytes.length := by
  obtain ⟨rest, hrest⟩ := h.front
  rw [h.bytes_seen hp hrest.symm, ← hrest, List.length_append]
  exact Nat.add_le_add_left (length_unslashed_le rest) _

theorem Takes.length_seen_lt {root p : Path} (h : Takes root p) (hp : p.IsPlain) :
    (seen root p).bytes.length < p.bytes.length := by
  have hle := h.length_seen_le hp
  have hpos := List.length_pos_iff.mpr h.ne_nil
  omega

theorem length_seen_le {p : Path} (hp : p.IsPlain) (root : Path) :
    (seen root p).bytes.length ≤ p.bytes.length := by
  by_cases h : Takes root p
  · exact Nat.le_of_lt (h.length_seen_lt hp)
  · rw [seen_eq_self hp h]

theorem Takes.seen_append {root p q : Path} (h : Takes root p) (hq : q.IsPlain)
    (hpq : p.AtOrAbove q) (hne : (seen root p).bytes ≠ []) :
    (seen root q).bytes = (seen root p).bytes ++ q.bytes.drop p.bytes.length := by
  obtain ⟨rest, hrest⟩ := h.front
  obtain ⟨tail, htail⟩ := hpq.isPrefix
  have hbytes : q.bytes = (undotted root).bytes ++ (rest ++ tail) := by
    rw [← htail, ← hrest, List.append_assoc]
  rw [h.bytes_seen (hpq.isPlain hq) hrest.symm] at hne ⊢
  rw [(h.below hpq).bytes_seen hq hbytes, ← htail, List.drop_left]
  cases rest with
  | nil => exact absurd rfl hne
  | cons b rest =>
    by_cases hb : b = Path.slash
    · rw [hb, List.cons_append, unslashed_slash, unslashed_slash]
    · rw [List.cons_append, unslashed_of_ne hb, unslashed_of_ne hb, List.cons_append]

theorem Takes.bytes_eq_of_nil {root p : Path} (h : Takes root p) (hp : p.IsPlain)
    (hnil : (seen root p).bytes = []) : (undotted root).bytes = p.bytes := by
  obtain ⟨rest, hrest⟩ := h.front
  rw [h.bytes_seen hp hrest.symm] at hnil
  cases rest with
  | nil => rw [← hrest, List.append_nil]
  | cons b rest =>
    exfalso
    by_cases hb : b = Path.slash
    · rw [hb, unslashed_slash] at hnil
      apply hp.getLast?
      rw [← hrest, hnil, hb, List.getLast?_concat]
    · rw [unslashed_of_ne hb] at hnil
      simp at hnil

theorem Takes.seen_of_nil {root p q : Path} (h : Takes root p) (hq : q.IsPlain) (hpq : p.Above q)
    (hnil : (seen root p).bytes = []) : q.bytes = p.bytes ++ Path.slash :: (seen root q).bytes := by
  obtain ⟨rest, hrest⟩ := Path.above_iff.mp hpq
  have hroot := h.bytes_eq_of_nil (Path.AtOrAbove.isPlain (.inr hpq) hq) hnil
  have hbytes : q.bytes = (undotted root).bytes ++ Path.slash :: rest := by rw [hrest, hroot]
  rw [(h.below (.inr hpq)).bytes_seen hq hbytes, unslashed_slash, hrest]

theorem seen_suffix {p : Path} (hp : p.IsPlain) (root : Path) :
    (seen root p).bytes <:+ p.bytes := by
  by_cases h : Takes root p
  · obtain ⟨rest, hrest⟩ := h.front
    rw [h.bytes_seen hp hrest.symm, ← hrest]
    refine List.IsSuffix.trans ?_ (List.suffix_append _ _)
    cases rest with
    | nil => exact List.suffix_rfl
    | cons b rest =>
      by_cases hb : b = Path.slash
      · rw [hb, unslashed_slash]
        exact List.suffix_cons _ _
      · simp only [unslashed_of_ne hb, List.suffix_rfl]
  · simp only [seen_eq_self hp h, List.suffix_rfl]

theorem seen_eq_of_length_eq {root root' p : Path} (hp : p.IsPlain)
    (h : (seen root p).bytes.length = (seen root' p).bytes.length) : seen root p = seen root' p :=
  Path.ext ((List.suffix_of_suffix_length_le (seen_suffix hp root) (seen_suffix hp root')
    (Nat.le_of_eq h)).eq_of_length h)

theorem getLast?_seen {p : Path} (hp : p.IsPlain) (root : Path) :
    (seen root p).bytes.getLast? ≠ some Path.slash := by
  obtain ⟨front, hfront⟩ := seen_suffix hp root
  intro hslash
  apply hp.getLast?
  rw [← hfront, List.getLast?_append, hslash, Option.some_or]

theorem isAbsolute_seen {p : Path} (hp : p.IsPlain) (root : Path) :
    (seen root p).isAbsolute = false := by
  by_cases h : Takes root p
  · obtain ⟨rest, hrest⟩ := h.front
    unfold Path.isAbsolute
    rw [h.bytes_seen hp hrest.symm]
    cases rest with
    | nil => rfl
    | cons b rest =>
      by_cases hb : b = Path.slash
      · rw [hb, unslashed_slash]
        rw [hb] at hrest
        exact (hp.behind_slash hrest.symm).not_isAbsolute
      · rw [unslashed_of_ne hb]
        simpa using hb
  · rw [seen_eq_self hp h]
    exact hp.not_isAbsolute

theorem Takes.length_seen_append {root p q : Path} (h : Takes root p) (hq : q.IsPlain)
    (hpq : p.AtOrAbove q) (hne : (seen root p).bytes ≠ []) :
    (seen root q).bytes.length + p.bytes.length =
      (seen root p).bytes.length + q.bytes.length := by
  have hlength := hpq.length_le
  rw [h.seen_append hq hpq hne, List.length_append, List.length_drop]
  omega

theorem Takes.length_seen_of_nil {root p q : Path} (h : Takes root p) (hq : q.IsPlain)
    (hpq : p.Above q) (hnil : (seen root p).bytes = []) :
    (seen root q).bytes.length + p.bytes.length + 1 = q.bytes.length := by
  conv_rhs => rw [h.seen_of_nil hq hpq hnil]
  rw [List.length_append, List.length_cons]
  omega

theorem Takes.length_seen_mono {root p q : Path} (h : Takes root p) (hq : q.IsPlain)
    (hpq : p.AtOrAbove q) : (seen root p).bytes.length ≤ (seen root q).bytes.length := by
  by_cases hnil : (seen root p).bytes = []
  · rw [hnil]
    exact Nat.zero_le _
  · rw [h.seen_append hq hpq hnil, List.length_append]
    exact Nat.le_add_right _ _

theorem Takes.length_seen_le_add {root p q : Path} (h : Takes root p) (hq : q.IsPlain)
    (hpq : p.AtOrAbove q) :
    (seen root q).bytes.length + p.bytes.length ≤
      (seen root p).bytes.length + q.bytes.length := by
  by_cases hnil : (seen root p).bytes = []
  · rcases hpq with rfl | hpq
    · exact Nat.le_refl _
    · have hlength := h.length_seen_of_nil hq hpq hnil
      omega
  · exact Nat.le_of_eq (h.length_seen_append hq hpq hnil)

theorem Takes.seen_eq_below {root root' p q : Path} (h : Takes root p) (h' : Takes root' p)
    (hq : q.IsPlain) (hpq : p.AtOrAbove q) (heq : seen root p = seen root' p) :
    seen root q = seen root' q := by
  apply Path.ext
  by_cases hnil : (seen root p).bytes = []
  · rcases hpq with rfl | hpq
    · rw [heq]
    · have hleft := h.seen_of_nil hq hpq hnil
      have hright := h'.seen_of_nil hq hpq (heq ▸ hnil)
      exact (List.cons.inj (List.append_cancel_left (hleft.symm.trans hright))).2
  · rw [h.seen_append hq hpq hnil, h'.seen_append hq hpq (heq ▸ hnil), heq]

theorem Takes.seen_name {root p q : Path} (h : Takes root p) (hq : q.IsPlain) (hpq : p.Above q) :
    ∃ front name, (seen root q).bytes = front ++ name ∧ q.fileName? = some name ∧
      Path.IsName name ∧ (front = [] ∨ ∃ rest, front = rest ++ [Path.slash]) := by
  obtain ⟨rest, hrest⟩ := Path.above_iff.mp hpq
  obtain ⟨front, name, hbytes, hname, hfront⟩ := (hq.behind_slash hrest).exists_name
  simp only at hbytes
  have hslash (before : Bytes) : before ++ Path.slash :: front = [] ∨
      ∃ rest, before ++ Path.slash :: front = rest ++ [Path.slash] := by
    rcases hfront with rfl | ⟨more, rfl⟩
    · exact .inr ⟨before, rfl⟩
    · exact .inr ⟨before ++ Path.slash :: more, by simp⟩
  have hfile : q.fileName? = some name := by
    apply Path.fileName?_eq _ hname (hslash p.bytes)
    rw [hrest, hbytes]
    simp
  by_cases hnil : (seen root p).bytes = []
  · have hseen := h.seen_of_nil hq hpq hnil
    rw [hrest, List.append_cancel_left_eq, List.cons.injEq] at hseen
    exact ⟨front, name, by rw [← hseen.2, hbytes], hfile, hname, hfront⟩
  · refine ⟨(seen root p).bytes ++ Path.slash :: front, name, ?_, hfile, hname, hslash _⟩
    rw [h.seen_append hq (.inr hpq) hnil, hrest, List.drop_left, hbytes]
    simp

def Hits (root q : Path) (x : Bytes) : Prop :=
  ∃ p : Path, p.AtOrAbove q ∧ Glob.Fits x (seen root p).bytes

/-- Whether some shape is seen on the way to `q` from just one of two roots. -/
def Parted (root root' q : Path) : Prop :=
  ∃ x : Bytes, x.getLast? ≠ some Path.slash ∧ x.length ≤ q.bytes.length ∧
    (Hits root q x ↔ ¬ Hits root' q x)

theorem Parted.symm {root root' q : Path} (h : Parted root root' q) : Parted root' root q := by
  obtain ⟨x, hlast, hlength, hhits⟩ := h
  exact ⟨x, hlast, hlength, by rw [hhits, not_not]⟩

theorem parted_of_seen {root root' p q : Path} (hq : q.IsPlain) (hp : p.AtOrAbove q)
    (h : ¬ Hits root' q (seen root p).bytes) : Parted root root' q := by
  have hplain := hp.isPlain hq
  refine ⟨(seen root p).bytes, getLast?_seen hplain root,
    Nat.le_trans (length_seen_le hplain root) hp.length_le, ?_⟩
  exact iff_of_true ⟨p, hp, .refl _⟩ h

/-- A directory above `q` that two roots do not see the way to alike, and that has the name of `q` if
this is made of letters. -/
structure Twin (root root' q a : Path) : Prop where
  above : a.Above q
  differ : ∃ p : Path, p.AtOrAbove a ∧ seen root p ≠ seen root' p
  name : ∀ name, q.fileName? = some name → (∀ b ∈ name, Glob.isFixed b) → a.fileName? = some name

theorem Twin.symm {root root' q a : Path} (h : Twin root root' q a) : Twin root' root q a where
  above := h.above
  differ := by
    obtain ⟨p, hp, hne⟩ := h.differ
    exact ⟨p, hp, hne.symm⟩
  name := h.name

theorem Takes.length_seen_lt_of_not {root root' p q b : Path} (h : Takes root p)
    (h' : ¬ Takes root' p) (hq : q.IsPlain) (hp : p.AtOrAbove q) (hb : b.AtOrAbove q)
    (htakes : Takes root' b) (hempty : Hits root q [] → Hits root' q []) :
    (seen root' b).bytes.length < (seen root q).bytes.length := by
  have hbelow (d : Path) (hd : d.AtOrAbove q) (htakes : Takes root' d) : p.Above d := by
    rcases hp.total hd with habove | hat
    · exact habove
    · exact absurd (htakes.below hat) h'
  have hroot : p.bytes.length < (undotted root').bytes.length := by
    by_contra hle
    apply h'
    refine ⟨htakes.isDot, htakes.ne_nil, h.slash_mem, ?_⟩
    apply List.prefix_of_prefix_length_le htakes.front (Path.AtOrAbove.isPrefix (.inr _))
    · exact Nat.not_lt.mp hle
    · exact hbelow b hb htakes
  have hle := htakes.length_seen_le (hb.isPlain hq)
  have hbq := hb.length_le
  by_cases hnil : (seen root p).bytes = []
  · -- Both leave nothing of something, and the other root of something further down.
    obtain ⟨d, hd, hfits⟩ := hempty ⟨p, hp, by rw [hnil]; exact .refl _⟩
    have hnil' := Glob.fits_nil_iff.mp hfits
    have htakes' : Takes root' d := by
      by_contra hnot
      rw [seen_eq_self (hd.isPlain hq) hnot] at hnil'
      exact (hd.isPlain hq).ne_nil hnil'
    have habove := hbelow d hd htakes'
    have htwo := habove.length_add_two_le (hd.isPlain hq)
    have hlength := h.length_seen_of_nil hq (habove.trans hd) hnil
    rw [htakes'.bytes_eq_of_nil (hd.isPlain hq) hnil'] at hle
    omega
  · have hpos := List.length_pos_iff.mpr hnil
    have hlength := h.length_seen_append hq hp hnil
    omega

theorem parted_of_takes {root root' p q : Path} (hq : q.IsPlain) (hp : p.AtOrAbove q)
    (h : Takes root p) (h' : ¬ Takes root' p) :
    Parted root root' q ∨ seen root q ≠ seen root' q ∧ ∃ a, Twin root root' q a := by
  have hplain := hp.isPlain hq
  by_cases hempty : Hits root q [] ↔ Hits root' q []
  · have hshorter (b : Path) (hb : b.AtOrAbove q) (htakes : Takes root' b) :=
      h.length_seen_lt_of_not h' hq hp hb htakes hempty.mp
    by_cases hhits : Hits root' q (seen root q).bytes
    · obtain ⟨a, ha, hfits⟩ := hhits
      have hself : seen root' a = a := by
        apply seen_eq_self (ha.isPlain hq)
        intro htakes
        have hlt := hshorter a ha htakes
        have heq := hfits.length_eq
        omega
      rw [hself] at hfits
      have hlength := hfits.length_eq
      have hlt := (h.below hp).length_seen_lt hq
      have haq : a.Above q := ha.above_of_length_lt (.inl rfl) (by omega)
      rcases ha.total hp with hap | hpa
      · -- What the root leaves of `q` is shorter than `p`, which the other root leaves as it is.
        left
        apply Parted.symm
        apply parted_of_seen hq hp
        rw [seen_eq_self hplain h']
        rintro ⟨b, hb, hfits'⟩
        have hsame := hfits'.length_eq
        have hshort := hap.length_lt
        rcases hb.total hp with hbp | hpb
        · have hle := length_seen_le (hb.isPlain hq) root
          have hbp := hbp.length_lt
          omega
        · have hle := (h.below hpb).length_seen_mono hq hb
          omega
      · right
        refine ⟨?_, a, haq, ⟨p, hpa, ?_⟩, ?_⟩
        · intro heq
          by_cases htakes : Takes root' q
          · have hlt := hshorter q (.inl rfl) htakes
            rw [heq] at hlt
            exact Nat.lt_irrefl _ hlt
          · rw [heq, seen_eq_self hq htakes] at hlt
            exact Nat.lt_irrefl _ hlt
        · intro heq
          have hlt := h.length_seen_lt hplain
          rw [heq, seen_eq_self hplain h'] at hlt
          exact Nat.lt_irrefl _ hlt
        · intro name hname hfixed
          have hpq : p.Above q := by
            rcases hpa with rfl | hpa
            · exact haq
            · exact hpa.trans (.inr haq)
          obtain ⟨front, name', hseen, hname', hisName, hfront⟩ := h.seen_name hq hpq
          obtain rfl := Option.some.inj (hname.symm.trans hname')
          rw [hseen] at hfits
          obtain ⟨front', ha', hfront'⟩ := hfits.name hfixed hfront
          exact Path.fileName?_eq ha' hisName hfront'
    · exact .inl (parted_of_seen hq (.inl rfl) hhits)
  · exact .inl ⟨[], by simp, Nat.zero_le _, by tauto⟩

theorem Takes.exists_first {root p : Path} (h : Takes root p) :
    ∃ first : Path, first.AtOrAbove p ∧ Takes root first ∧
      ∀ b : Path, b.Above first → ¬ Takes root b := by
  by_cases habove : ∃ b : Path, b.Above p ∧ Takes root b
  · obtain ⟨b, hbp, htakes⟩ := habove
    have hlt := hbp.length_lt
    obtain ⟨first, hfirst, hrest⟩ := htakes.exists_first
    exact ⟨first, hfirst.trans (.inr hbp), hrest⟩
  · exact ⟨p, .inl rfl, h, fun b hbp htakes => habove ⟨b, hbp, htakes⟩⟩
termination_by p.bytes.length

theorem Takes.slash_notMem_seen {root p a : Path} (h : Takes root p) (hp : p.IsPlain)
    (hfirst : ∀ b : Path, b.Above p → ¬ Takes root b) (ha : a.Above p)
    (hslash : Path.slash ∈ a.bytes) : Path.slash ∉ (seen root p).bytes := by
  have hroot : a.bytes.length < (undotted root).bytes.length := by
    by_contra hle
    apply hfirst a ha
    refine ⟨h.isDot, h.ne_nil, hslash, ?_⟩
    exact List.prefix_of_prefix_length_le h.front (Path.AtOrAbove.isPrefix (.inr ha))
      (Nat.not_lt.mp hle)
  have haroot : a.bytes <+: (undotted root).bytes :=
    List.prefix_of_prefix_length_le (Path.AtOrAbove.isPrefix (.inr ha)) h.front
      (Nat.le_of_lt hroot)
  intro hmem
  obtain ⟨front, hfront⟩ := seen_suffix hp root
  obtain ⟨before, after, hsplit⟩ := List.append_of_mem hmem
  have hlength := h.length_seen_le hp
  have hrootfront : (undotted root).bytes <+: front := by
    apply List.prefix_of_prefix_length_le h.front ⟨_, hfront⟩
    rw [← hfront, List.length_append] at hlength
    omega
  have hfrontbefore : front <+: front ++ before := List.prefix_append _ _
  apply hfirst ⟨front ++ before⟩
  · rw [Path.above_iff, ← hfront, hsplit]
    exact ⟨after, by simp⟩
  · exact ⟨h.isDot, h.ne_nil, (haroot.trans (hrootfront.trans hfrontbefore)).subset hslash,
      hrootfront.trans hfrontbefore⟩

/-- Two roots are first taken off the same path, and one leaves more of it. They are parted by one of
three shapes: what the other leaves of the path, what the one leaves of `q`, or of the path. -/
theorem parted_of_length_lt {root root' p q : Path} (hq : q.IsPlain) (hp : p.AtOrAbove q)
    (h : Takes root p) (h' : Takes root' p) (hfirst : ∀ b : Path, b.Above p → ¬ Takes root b)
    (hfirst' : ∀ b : Path, b.Above p → ¬ Takes root' b)
    (hlt : (seen root' p).bytes.length < (seen root p).bytes.length) : Parted root root' q := by
  have hplain := hp.isPlain hq
  have hwhole (b : Path) (hb : b.Above p) : seen root b = b ∧ seen root' b = b := by
    have hb' : b.IsPlain := Path.AtOrAbove.isPlain (.inr hb) hplain
    exact ⟨seen_eq_self hb' (hfirst b hb), seen_eq_self hb' (hfirst' b hb)⟩
  by_cases hless : Hits root q (seen root' p).bytes
  · by_cases hrest : Hits root' q (seen root q).bytes
    · by_cases hmore : Hits root' q (seen root p).bytes
      · exfalso
        -- Each shape is seen from both roots; the first two of `low` and `high`, both above `p`.
        obtain ⟨low, hlow, hfitslow⟩ := hless
        obtain ⟨high, hhigh, hfitshigh⟩ := hrest
        obtain ⟨c, hc, hfitsc⟩ := hmore
        have hlowp : low.Above p := by
          rcases hlow.total hp with hlowp | hplow
          · exact hlowp
          · have hle := h.length_seen_mono (hlow.isPlain hq) hplow
            have heq := hfitslow.length_eq
            omega
        have hne : (seen root p).bytes ≠ [] := List.ne_nil_of_length_pos (by omega)
        have hhighp : high.Above p := by
          rcases hhigh.total hp with hhighp | hphigh
          · exact hhighp
          · have hle := h'.length_seen_le_add (hhigh.isPlain hq) hphigh
            have hle' := hhigh.length_le
            have heq := hfitshigh.length_eq
            have heq' := h.length_seen_append hq hp hne
            omega
        rw [(hwhole low hlowp).1] at hfitslow
        rw [(hwhole high hhighp).2] at hfitshigh
        have hlowlength := hfitslow.length_eq
        have hslash : Path.slash ∈ high.bytes := by
          have hhighlength := hfitshigh.length_eq
          have hmono := h.length_seen_mono hq hp
          exact (hlow.above_of_length_lt hhigh (by omega)).slash_mem
        have hnoslash := h.slash_notMem_seen hplain hfirst hhighp hslash
        rcases hc.total hp with hcp | hpc
        · rw [(hwhole c hcp).2] at hfitsc
          have hclength := hfitsc.length_eq
          have hlowc : low.Above c := hlow.above_of_length_lt hc (by omega)
          exact hnoslash (hfitsc.slash_mem_iff.mpr hlowc.slash_mem)
        · rcases hpc with rfl | hpc
          · have hclength := hfitsc.length_eq
            omega
          · have hne' : (seen root' p).bytes ≠ [] := by
              intro hnil
              rw [hnil] at hfitslow
              exact (hlow.isPlain hq).ne_nil (Glob.fits_nil_iff.mp hfitslow)
            apply hnoslash
            rw [hfitsc.slash_mem_iff, h'.seen_append (hc.isPlain hq) (.inr hpc) hne']
            apply List.mem_append_right
            obtain ⟨rest, hrest⟩ := Path.above_iff.mp hpc
            rw [hrest, List.drop_left]
            exact List.mem_cons_self
      · exact parted_of_seen hq hp hmore
    · exact parted_of_seen hq (.inl rfl) hrest
  · exact (parted_of_seen hq hp hless).symm

theorem parted_of_both {root root' p q : Path} (hq : q.IsPlain) (hp : p.AtOrAbove q)
    (hboth : ∀ b : Path, b.AtOrAbove q → (Takes root b ↔ Takes root' b)) (h : Takes root p)
    (hne : seen root p ≠ seen root' p) : Parted root root' q := by
  obtain ⟨first, hfirst, htakes, hleast⟩ := h.exists_first
  have hfirstq := hfirst.trans hp
  have htakes' := (hboth first hfirstq).mp htakes
  have hleast' (b : Path) (hb : b.Above first) : ¬ Takes root' b := by
    rw [← hboth b (.inr (hb.trans hfirstq))]
    exact hleast b hb
  rcases Nat.lt_trichotomy (seen root first).bytes.length (seen root' first).bytes.length with
    hlt | heq | hlt
  · exact (parted_of_length_lt hq hfirstq htakes' htakes hleast' hleast hlt).symm
  · have hsame := seen_eq_of_length_eq (hfirstq.isPlain hq) heq
    exact absurd (htakes.seen_eq_below htakes' (hp.isPlain hq) hfirst hsame) hne
  · exact parted_of_length_lt hq hfirstq htakes htakes' hleast hleast' hlt

/-- Roots that do not see the way to `q` alike are parted there, or there is a directory of the same
name further up. -/
theorem parted_or_twin {root root' p q : Path} (hq : q.IsPlain) (hp : p.AtOrAbove q)
    (hne : seen root p ≠ seen root' p) :
    Parted root root' q ∨ seen root q ≠ seen root' q ∧ ∃ a, Twin root root' q a := by
  by_cases hboth : ∀ b : Path, b.AtOrAbove q → (Takes root b ↔ Takes root' b)
  · left
    apply parted_of_both hq hp hboth _ hne
    by_contra hnot
    apply hne
    rw [seen_eq_self (hp.isPlain hq) hnot,
      seen_eq_self (hp.isPlain hq) fun htakes => hnot ((hboth p hp).mpr htakes)]
  · simp only [not_forall] at hboth
    obtain ⟨b, hb, hdiffer⟩ := hboth
    by_cases htakes : Takes root b
    · have htakes' : ¬ Takes root' b := fun h => hdiffer (iff_of_true htakes h)
      exact parted_of_takes hq hb htakes htakes'
    · have htakes' : Takes root' b := by
        by_contra h
        exact hdiffer (iff_of_false htakes h)
      rcases parted_of_takes hq hb htakes' htakes with hparted | ⟨hseen, a, htwin⟩
      · exact .inl hparted.symm
      · exact .inr ⟨hseen.symm, a, htwin.symm⟩

end Exclude

end ApiAtlas
