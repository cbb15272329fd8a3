import ApiAtlas.Proofs.Views
import ApiAtlas.Proofs.Walk
import Mathlib

/-!
How the name of a root gets into what is listed below it. Two roots with the same files below them
list the same, whatever the rules, exactly if the rules see the way to everything there is to list
alike from both.
-/
namespace ApiAtlas

namespace Exclude

theorem not_takes_of_isAbsolute {root p : Path} (hp : p.IsPlain) (hroot : root.isAbsolute) :
    ¬ Takes root p := by
  intro htakes
  obtain ⟨rest, hrest⟩ := List.head?_eq_some_iff.mp (of_decide_eq_true hroot)
  have hundotted : (undotted root).bytes = Path.slash :: rest := by
    unfold undotted
    rw [hrest]
    rfl
  obtain ⟨more, hmore⟩ := htakes.front
  have habsolute : p.isAbsolute = true := by
    unfold Path.isAbsolute
    rw [← hmore, hundotted]
    rfl
  rw [hp.not_isAbsolute] at habsolute
  exact Bool.false_ne_true habsolute

theorem seen_of_isAbsolute_or_isDot {root p : Path}
    (hroot : root.isAbsolute ∨ (undotted root).isDot) (hp : p.IsPlain) : seen root p = p := by
  apply seen_eq_self hp
  rcases hroot with habsolute | hdot
  · exact not_takes_of_isAbsolute hp habsolute
  · intro htakes
    rw [htakes.isDot] at hdot
    exact Bool.false_ne_true hdot

theorem verdict_separating {p : Path} (hp : p.IsPlain) (root : Path) (dirs : Bool) (q : Bytes)
    (hlast : q.getLast? ≠ some Path.slash) (hlength : q.length ≤ Glob.maxShape) (isDir : Bool) :
    (ofLines root (separating dirs q)).verdict p isDir =
      .ok (some (if (dirs || !isDir) && Glob.accepts (Glob.shape q) (seen root p).bytes then .ignore
        else .keep)) := by
  unfold verdict
  simp only [relative_ofLines, isAbsolute_seen hp root,
    decide?_separating root dirs q hlast hlength]
  rw [rules_separating root dirs q hlast hlength]
  rfl

end Exclude

namespace Noise

theorem drop_iff (n : Noise) (p : Path) (isDir : Bool) :
    n.drop p isDir = true ↔
      n.isMarked p = true ∨ p.bytes ≠ [] ∧ n.exclude.verdict p isDir = .ok (some .ignore) := by
  unfold drop ignores
  cases hmarked : n.isMarked p with
  | true => simp
  | false =>
    by_cases hempty : p.bytes = []
    · simp [hempty]
    · cases hverdict : n.exclude.verdict p isDir <;> simp [hempty]

theorem drop_of_verdict {n : Noise} {p : Path} {isDir : Bool} {verdict : Option Verdict}
    (hmarked : n.isMarked p = false) (hne : p.bytes ≠ [])
    (hverdict : n.exclude.verdict p isDir = .ok verdict) :
    n.drop p isDir = decide (verdict = some .ignore) := by
  apply Bool.eq_iff_iff.mpr
  rw [drop_iff, hmarked, hverdict]
  simp [hne]

theorem drop_eq_of_seen {root root' p : Path} (h : Exclude.seen root p = Exclude.seen root' p)
    (excludes : List String) (isDir : Bool) :
    (ofExcludes root excludes).drop p isDir = (ofExcludes root' excludes).drop p isDir := by
  have hverdict : (ofExcludes root excludes).exclude.verdict p isDir =
      (ofExcludes root' excludes).exclude.verdict p isDir := by
    unfold Exclude.verdict ofExcludes ofMarkers
    simp only [Exclude.relative_ofLines, h]
    rfl
  apply Bool.eq_iff_iff.mpr
  rw [drop_iff, drop_iff, hverdict]
  rfl

theorem drop_of_isMarked {root p : Path} (h : (ofExcludes root []).isMarked p)
    (excludes : List String) (isDir : Bool) : (ofExcludes root excludes).drop p isDir = true :=
  (drop_iff _ p isDir).mpr (.inl h)

theorem drop_separating {p : Path} (hp : p.IsPlain) (root : Path) (dirs : Bool) {q : Bytes}
    (hlast : q.getLast? ≠ some Path.slash) (hlength : q.length ≤ Glob.maxShape)
    (hmarked : (ofExcludes root []).isMarked p = false) (isDir : Bool) :
    (ofExcludes root (Exclude.separating dirs q)).drop p isDir = true ↔
      (dirs = true ∨ isDir = false) ∧ Glob.Fits q (Exclude.seen root p).bytes := by
  have hnoise : (ofExcludes root (Exclude.separating dirs q)).isMarked p = false := hmarked
  rw [drop_of_verdict hnoise hp.ne_nil
    (Exclude.verdict_separating hp root dirs q hlast hlength isDir), ← Glob.accepts_shape]
  simp

theorem drop_nil_iff (root p : Path) (isDir : Bool) :
    (ofExcludes root []).drop p isDir = true ↔ (ofExcludes root []).isMarked p = true := by
  rw [drop_iff]
  constructor
  · rintro (hmarked | ⟨-, hverdict⟩)
    · exact hmarked
    · cases hverdict
  · exact .inl

theorem drop_nil_eq (root root' : Path) :
    (ofExcludes root []).drop = (ofExcludes root' []).drop := by
  funext p isDir
  apply Bool.eq_iff_iff.mpr
  rw [drop_nil_iff, drop_nil_iff]
  rfl

end Noise

namespace Visit

theorem isAscii_of_toLower {c : Char} (h : c.toLower ∈ "docs".toList) :
    0 < c.toNat ∧ c.toNat < 0x80 := by
  unfold Char.toLower at h
  split at h
  · rename_i hupper
    have hlow : 65 ≤ c.toNat := UInt32.le_iff_toNat_le.mp hupper.1
    have hhigh : c.toNat ≤ 90 := UInt32.le_iff_toNat_le.mp hupper.2
    omega
  · have hc : c = 'd' ∨ c = 'o' ∨ c = 'c' ∨ c = 's' := by simpa using h
    rcases hc with rfl | rfl | rfl | rfl <;> decide

theorem isAscii_of_docs {name : Bytes}
    (h : Text.asciiLower (Utf8.decodeLossy name) = "docs".toList) :
    ∀ piece ∈ Utf8.pieces name, piece.IsAscii := by
  have hlower (c : Char) (hc : c ∈ Utf8.decodeLossy name) : c.toLower ∈ "docs".toList := by
    rw [← h]
    exact List.mem_map_of_mem hc
  intro piece hpiece
  cases piece with
  | char c => exact ⟨c, rfl, isAscii_of_toLower (hlower c (List.mem_map.mpr ⟨_, hpiece, rfl⟩))⟩
  | broken n => exact absurd (hlower '\ufffd' (List.mem_map.mpr ⟨_, hpiece, rfl⟩)) (by decide)
  | cut n => exact absurd (hlower '\ufffd' (List.mem_map.mpr ⟨_, hpiece, rfl⟩)) (by decide)

theorem isFixed_of_docs {name : Bytes}
    (h : Text.asciiLower (Utf8.decodeLossy name) = "docs".toList) : ∀ b ∈ name, Glob.isFixed b := by
  have hletter : ∀ n < 256, (Char.ofNat n).toLower ∈ "docs".toList → Glob.isFixed (.ofNat n) := by
    decide +kernel
  intro b hb
  have hmem := Utf8.mem_of_isAscii name (isAscii_of_docs h) b hb
  have hlower : (Char.ofNat b.toNat).toLower ∈ "docs".toList := by
    rw [← h]
    exact List.mem_map_of_mem (List.mem_map.mpr ⟨_, hmem, rfl⟩)
  have hfixed := hletter b.toNat b.toNat_lt hlower
  rwa [UInt8.ofNat_toNat] at hfixed

theorem isDocDir_of_fileName? {v w : Visit} (hv : v.isDocDir) (hw : w.kind = .dir)
    (h : ∀ name, v.path.fileName? = some name → (∀ b ∈ name, Glob.isFixed b) →
      w.path.fileName? = some name) : w.isDocDir := by
  unfold isDocDir at hv ⊢
  rw [Bool.and_eq_true] at hv
  cases hname : v.path.fileName? with
  | none => simp [hname] at hv
  | some name =>
    have hdocs : Text.asciiLower (Utf8.decodeLossy name) = "docs".toList := by
      simpa [hname] using hv.2
    rw [h name hname (isFixed_of_docs hdocs), hw]
    simp only [hdocs, decide_true, Bool.and_self]

theorem IsReached.drop_nil {root : Path} {excludes : List String} {v : Visit}
    (h : v.IsReached (Noise.ofExcludes root excludes).drop ⟨[]⟩) (root' : Path) :
    v.IsReached (Noise.ofExcludes root' []).drop ⟨[]⟩ := by
  have hkept (p : Path) (isDir : Bool)
      (hdrop : (Noise.ofExcludes root excludes).drop p isDir = false) :
      (Noise.ofExcludes root' []).drop p isDir = false := by
    rw [Noise.drop_nil_eq root' root, ← Bool.not_eq_true, Noise.drop_nil_iff]
    intro hmarked
    rw [Noise.drop_of_isMarked hmarked] at hdrop
    exact Bool.false_ne_true hdrop.symm
  exact ⟨hkept _ _ h.kept, fun p hp hpv => hkept _ _ (h.above p hp hpv)⟩

theorem IsReached.of_seen {root root' : Path} {excludes : List String} {v : Visit}
    (h : v.IsReached (Noise.ofExcludes root excludes).drop ⟨[]⟩)
    (hseen : ∀ p : Path, p.AtOrAbove v.path → Exclude.seen root p = Exclude.seen root' p) :
    v.IsReached (Noise.ofExcludes root' excludes).drop ⟨[]⟩ where
  kept := by
    rw [← Noise.drop_eq_of_seen (hseen v.path (.inl rfl))]
    exact h.kept
  above p hp hpv := by
    rw [← Noise.drop_eq_of_seen (hseen p (.inr hpv))]
    exact h.above p hp hpv

theorem IsReached.isMarked {root p : Path} {v : Visit}
    (h : v.IsReached (Noise.ofExcludes root []).drop ⟨[]⟩) (hp : p.AtOrAbove v.path) :
    (Noise.ofExcludes root []).isMarked p = false := by
  rw [← Bool.not_eq_true]
  rcases hp with rfl | hp
  · rw [← Noise.drop_nil_iff root _ (v.kind = .dir), h.kept]
    exact Bool.false_ne_true
  · rw [← Noise.drop_nil_iff root p true, h.above p (.inl rfl) hp]
    exact Bool.false_ne_true

theorem IsReached.drop_separating {root p : Path} {v : Visit}
    (h : v.IsReached (Noise.ofExcludes root []).drop ⟨[]⟩) (hplain : v.path.IsPlain)
    (hp : p.AtOrAbove v.path) (dirs : Bool) {x : Bytes} (hlast : x.getLast? ≠ some Path.slash)
    (hlength : x.length ≤ Glob.maxShape) (isDir : Bool) :
    (Noise.ofExcludes root (Exclude.separating dirs x)).drop p isDir = false ↔
      ¬ ((dirs = true ∨ isDir = false) ∧ Glob.Fits x (Exclude.seen root p).bytes) := by
  rw [← Bool.not_eq_true, Noise.drop_separating (hp.isPlain hplain) root dirs hlast hlength
    (h.isMarked hp) isDir]

/-- The rules for a shape keep a walk from what they see it on the way to. -/
theorem isReached_separating {root : Path} {v : Visit} (hplain : v.path.IsPlain)
    (h : v.IsReached (Noise.ofExcludes root []).drop ⟨[]⟩) {x : Bytes}
    (hlast : x.getLast? ≠ some Path.slash) (hlength : x.length ≤ Glob.maxShape) :
    v.IsReached (Noise.ofExcludes root (Exclude.separating true x)).drop ⟨[]⟩ ↔
      ¬ Exclude.Hits root v.path x := by
  constructor
  · rintro hreached ⟨p, hp, hfits⟩
    have hdrop := h.drop_separating hplain hp true hlast hlength
    rcases hp with rfl | hp
    · exact (hdrop _).mp hreached.kept ⟨.inl rfl, hfits⟩
    · exact (hdrop true).mp (hreached.above p (.inl rfl) hp) ⟨.inl rfl, hfits⟩
  · intro hhits
    refine ⟨?_, ?_⟩
    · rw [h.drop_separating hplain (.inl rfl) true hlast hlength]
      exact fun hdropped => hhits ⟨_, .inl rfl, hdropped.2⟩
    · intro p _ hp
      rw [h.drop_separating hplain (.inr hp) true hlast hlength]
      exact fun hdropped => hhits ⟨p, .inr hp, hdropped.2⟩

theorem isReached_separating_file {root : Path} {v : Visit} (hplain : v.path.IsPlain)
    (h : v.IsReached (Noise.ofExcludes root []).drop ⟨[]⟩) (hkind : v.kind ≠ .dir) {x : Bytes}
    (hlast : x.getLast? ≠ some Path.slash) (hlength : x.length ≤ Glob.maxShape) :
    v.IsReached (Noise.ofExcludes root (Exclude.separating false x)).drop ⟨[]⟩ ↔
      ¬ Glob.Fits x (Exclude.seen root v.path).bytes := by
  constructor
  · intro hreached hfits
    exact (h.drop_separating hplain (.inl rfl) false hlast hlength _).mp hreached.kept
      ⟨.inr (decide_eq_false hkind), hfits⟩
  · intro hfits
    refine ⟨?_, ?_⟩
    · rw [h.drop_separating hplain (.inl rfl) false hlast hlength]
      exact fun hdropped => hfits hdropped.2
    · intro p _ hp
      rw [h.drop_separating hplain (.inr hp) false hlast hlength]
      simp

section

variable {root root' : Path} {v : Visit} (hplain : v.path.IsPlain)
  (hlength : v.path.bytes.length ≤ Glob.maxShape)
  (h : v.IsReached (Noise.ofExcludes root []).drop ⟨[]⟩)
  (hboth : ∀ excludes, v.IsReached (Noise.ofExcludes root excludes).drop ⟨[]⟩ ↔
    v.IsReached (Noise.ofExcludes root' excludes).drop ⟨[]⟩)

include hplain hlength h hboth

theorem not_parted_of_isReached : ¬ Exclude.Parted root root' v.path := by
  rintro ⟨x, hlast, hx, hhits⟩
  have hfit := Nat.le_trans hx hlength
  have hsame := hboth (Exclude.separating true x)
  rw [isReached_separating hplain h hlast hfit,
    isReached_separating hplain (h.drop_nil root') hlast hfit, hhits, not_not] at hsame
  exact iff_not_self hsame

theorem seen_eq_of_isReached (hkind : v.kind ≠ .dir) :
    Exclude.seen root v.path = Exclude.seen root' v.path := by
  have hlast := Exclude.getLast?_seen hplain root
  have hfit := Nat.le_trans (Exclude.length_seen_le hplain root) hlength
  have hsame := hboth (Exclude.separating false (Exclude.seen root v.path).bytes)
  rw [isReached_separating_file hplain h hkind hlast hfit,
    isReached_separating_file hplain (h.drop_nil root') hkind hlast hfit, not_iff_not] at hsame
  exact Exclude.seen_eq_of_length_eq hplain (hsame.mp (.refl _)).length_eq

end

end Visit

namespace FileTree

/-- Whether two roots list the same below them. -/
def SameBelow (t : FileTree) (root root' : Path) (excludes : List String) : Prop :=
  ∃ below : Manifest, below.IsPlain ∧ t.manifest root excludes = below.withRoot root ∧
    t.manifest root' excludes = below.withRoot root'

/-- Whether two roots see alike what is listed without any rules: the directories it stands in can be
opened from both, and the rules of both see the same on the way to it. -/
structure SeenAlike (t : FileTree) (root root' : Path) : Prop where
  opened : ∀ q : Path, q.IsPlain → (t.manifest root []).Lists (root.join q) →
    root'.Opens (Path.splitSlash q.bytes)
  openedBack : ∀ q : Path, q.IsPlain → (t.manifest root' []).Lists (root'.join q) →
    root.Opens (Path.splitSlash q.bytes)
  seen : ∀ q : Path, q.IsPlain → (t.manifest root []).Lists (root.join q) →
    ∀ p : Path, p.AtOrAbove q → Exclude.seen root p = Exclude.seen root' p

theorem lists_manifest_iff {t : FileTree} {root : Path} {children : List (Bytes × Node)}
    (hdash : root.isDash = false) (hdir : t.linkStat root = .ok (.dir children))
    (hnames : (Node.dir children).WellNamed) {q : Path} (hq : q.IsPlain) :
    (t.manifest root []).Lists (root.join q) ↔
      ∃ v ∈ (Node.dir children).tour dropNothing ⟨[]⟩,
        v.IsReached (Noise.ofExcludes root []).drop ⟨[]⟩ ∧
          root.Opens (Path.splitSlash q.bytes) ∧ v.isListed ∧ v.path = q := by
  have hplain (drop : Drop) := Node.isPlain_of_mem_tour drop ⟨[]⟩ (.inl rfl) (.dir children) hnames
  rw [t.manifest_eq root [] children hdash hdir hnames,
    Manifest.lists_withRoot (Manifest.isPlain_ofVisits _ (hplain _)) hq, Manifest.lists_ofVisits]
  constructor
  · rintro ⟨v, hv, hlisted, rfl⟩
    obtain ⟨hmet, hreached⟩ := (Node.mem_tour_iff _ _ hnames v).mp hv
    obtain ⟨hreached, hopens⟩ := (Visit.isReached_openedFrom_iff _ root hq).mp hreached
    exact ⟨v, hmet, hreached, hopens, hlisted, rfl⟩
  · rintro ⟨v, hmet, hreached, hopens, hlisted, rfl⟩
    refine ⟨v, (Node.mem_tour_iff _ _ hnames v).mpr ⟨hmet, ?_⟩, hlisted, rfl⟩
    exact (Visit.isReached_openedFrom_iff _ root hq).mpr ⟨hreached, hopens⟩

section

variable {t : FileTree} {root root' : Path} {children : List (Bytes × Node)}
  (hdash : root.isDash = false) (hdash' : root'.isDash = false)
  (hdir : t.linkStat root = .ok (.dir children)) (hdir' : t.linkStat root' = .ok (.dir children))
  (hnames : (Node.dir children).WellNamed)

include hdash hdash' hdir hdir' hnames

theorem sameBelow_iff (excludes : List String) :
    t.SameBelow root root' excludes ↔
      Manifest.ofVisits ((Node.dir children).tour
          ((Noise.ofExcludes root excludes).drop.openedFrom root) ⟨[]⟩) =
        .ofVisits ((Node.dir children).tour
          ((Noise.ofExcludes root' excludes).drop.openedFrom root') ⟨[]⟩) := by
  have hplain (drop : Drop) := Manifest.isPlain_ofVisits _
    (Node.isPlain_of_mem_tour drop ⟨[]⟩ (.inl rfl) (.dir children) hnames)
  have hroot := t.manifest_eq root excludes children hdash hdir hnames
  have hroot' := t.manifest_eq root' excludes children hdash' hdir' hnames
  constructor
  · rintro ⟨below, hbelow, hlisted, hlisted'⟩
    rw [hroot] at hlisted
    rw [hroot'] at hlisted'
    rw [Manifest.withRoot_injective (hplain _) hbelow hlisted,
      Manifest.withRoot_injective (hplain _) hbelow hlisted']
  · intro heq
    refine ⟨_, hplain _, hroot, ?_⟩
    rw [heq]
    exact hroot'

theorem sameBelow_of_seenAlike (h : t.SeenAlike root root') (excludes : List String) :
    t.SameBelow root root' excludes := by
  classical
  rw [sameBelow_iff hdash hdash' hdir hdir' hnames,
    Node.tour_eq_filter _ ⟨[]⟩ (.inl rfl) (.dir children) hnames,
    Node.tour_eq_filter ((Noise.ofExcludes root' excludes).drop.openedFrom root') ⟨[]⟩ (.inl rfl)
      (.dir children) hnames]
  apply Manifest.ofVisits_filter_congr
  intro v hv hlisted
  have hplain := Node.isPlain_of_mem_tour _ ⟨[]⟩ (.inl rfl) (.dir children) hnames v hv
  have hlists (hreached : v.IsReached (Noise.ofExcludes root []).drop ⟨[]⟩)
      (hopens : root.Opens (Path.splitSlash v.path.bytes)) :=
    (lists_manifest_iff hdash hdir hnames hplain).mpr ⟨v, hv, hreached, hopens, hlisted, rfl⟩
  apply decide_eq_decide.mpr
  rw [Visit.isReached_openedFrom_iff _ root hplain, Visit.isReached_openedFrom_iff _ root' hplain]
  constructor
  · rintro ⟨hreached, hopens⟩
    have hlists := hlists (hreached.drop_nil root) hopens
    exact ⟨hreached.of_seen (h.seen v.path hplain hlists), h.opened v.path hplain hlists⟩
  · rintro ⟨hreached, hopens⟩
    have hback := h.openedBack v.path hplain ((lists_manifest_iff hdash' hdir' hnames hplain).mpr
      ⟨v, hv, hreached.drop_nil root', hopens, hlisted, rfl⟩)
    refine ⟨hreached.of_seen fun p hp => ?_, hback⟩
    exact (h.seen v.path hplain (hlists (hreached.drop_nil root) hback) p hp).symm

theorem isReached_and_opens_iff {excludes : List String} (h : t.SameBelow root root' excludes)
    {v : Visit} (hv : v ∈ (Node.dir children).tour dropNothing ⟨[]⟩) (hlisted : v.isListed) :
    v.IsReached (Noise.ofExcludes root excludes).drop ⟨[]⟩ ∧
        root.Opens (Path.splitSlash v.path.bytes) ↔
      v.IsReached (Noise.ofExcludes root' excludes).drop ⟨[]⟩ ∧
        root'.Opens (Path.splitSlash v.path.bytes) := by
  have hplain := Node.isPlain_of_mem_tour _ ⟨[]⟩ (.inl rfl) (.dir children) hnames v hv
  have hsame := (sameBelow_iff hdash hdash' hdir hdir' hnames excludes).mp h
  rw [← Visit.isReached_openedFrom_iff _ root hplain, ← Visit.isReached_openedFrom_iff _ root' hplain]
  exact ⟨Node.isReached_of_ofVisits_eq hnames hsame hv hlisted,
    Node.isReached_of_ofVisits_eq hnames hsame.symm hv hlisted⟩

/-- Where two roots do not see the way to something alike, rules for a shape that is seen from one
only tell them apart, there or at a directory above it. -/
theorem seen_eq_of_sameBelow (hshort : ∀ q : Path, q.IsPlain →
      (t.manifest root []).Lists (root.join q) → q.bytes.length ≤ Glob.maxShape)
    (h : ∀ excludes, t.SameBelow root root' excludes) {v : Visit}
    (hv : v ∈ (Node.dir children).tour ((Noise.ofExcludes root []).drop.openedFrom root) ⟨[]⟩)
    (hlisted : v.isListed) {p : Path} (hp : p.AtOrAbove v.path) :
    Exclude.seen root p = Exclude.seen root' p := by
  have hplain := Node.isPlain_of_mem_tour _ ⟨[]⟩ (.inl rfl) (.dir children) hnames v hv
  obtain ⟨hmet, hreached⟩ := (Node.mem_tour_iff _ _ hnames v).mp hv
  obtain ⟨hreached, hopens⟩ := (Visit.isReached_openedFrom_iff _ root hplain).mp hreached
  have hlength := hshort v.path hplain ((lists_manifest_iff hdash hdir hnames hplain).mpr
    ⟨v, hmet, hreached, hopens, hlisted, rfl⟩)
  have hsame (excludes : List String) :=
    isReached_and_opens_iff hdash hdash' hdir hdir' hnames (h excludes) hmet hlisted
  have hopens' := ((hsame []).mp ⟨hreached, hopens⟩).2
  have hboth (excludes : List String) :
      v.IsReached (Noise.ofExcludes root excludes).drop ⟨[]⟩ ↔
        v.IsReached (Noise.ofExcludes root' excludes).drop ⟨[]⟩ :=
    ⟨fun hto => ((hsame excludes).mp ⟨hto, hopens⟩).1,
      fun hto => ((hsame excludes).mpr ⟨hto, hopens'⟩).1⟩
  by_contra hne
  rcases Exclude.parted_or_twin hplain hp hne with hparted | ⟨hseen, a, htwin⟩
  · exact Visit.not_parted_of_isReached hplain hlength hreached hboth hparted
  · rcases (Bool.or_eq_true _ _).mp hlisted with hsource | hdoc
    · obtain ⟨s, hs⟩ := Option.isSome_iff_exists.mp hsource
      exact hseen (Visit.seen_eq_of_isReached hplain hlength hreached hboth
        (Visit.source?_eq_some hs).1)
    · -- The directory is listed as well, and its way is shorter.
      have hshorter := htwin.above.length_lt
      have ha := Node.mem_tour_of_above _ ⟨[]⟩ (.inl rfl) (.dir children) hnames v hv a (.inl rfl)
        htwin.above
      obtain ⟨p', hp', hne'⟩ := htwin.differ
      have hdoc' : (⟨a, .dir⟩ : Visit).isDocDir :=
        Visit.isDocDir_of_fileName? hdoc rfl htwin.name
      exact hne' (seen_eq_of_sameBelow hshort h ha (by simp [Visit.isListed, hdoc']) hp')
termination_by v.path.bytes.length

theorem sameBelow_of_isAbsolute_or_isDot
    (hroot : root.isAbsolute ∨ (Exclude.undotted root).isDot)
    (hroot' : root'.isAbsolute ∨ (Exclude.undotted root').isDot)
    (hopens : ∀ q : Path, root.Opens (Path.splitSlash q.bytes) ↔
      root'.Opens (Path.splitSlash q.bytes)) (excludes : List String) :
    t.SameBelow root root' excludes := by
  apply sameBelow_of_seenAlike hdash hdash' hdir hdir' hnames
  refine ⟨?_, ?_, ?_⟩
  · intro q hq hlists
    obtain ⟨-, -, -, hopen, -⟩ := (lists_manifest_iff hdash hdir hnames hq).mp hlists
    exact (hopens q).mp hopen
  · intro q hq hlists
    obtain ⟨-, -, -, hopen, -⟩ := (lists_manifest_iff hdash' hdir' hnames hq).mp hlists
    exact (hopens q).mpr hopen
  · intro q hq _ p hp
    rw [Exclude.seen_of_isAbsolute_or_isDot hroot (hp.isPlain hq),
      Exclude.seen_of_isAbsolute_or_isDot hroot' (hp.isPlain hq)]

end

/-- Two roots with the same files below them list the same below them, whatever the rules, if and
only if they see all there is to list alike. Only for rules to be found that show a difference, the
paths must not be longer than a pattern can be. -/
theorem sameBelow_iff_seenAlike (t : FileTree) (root root' : Path)
    (children : List (Bytes × Node)) (hdash : root.isDash = false) (hdash' : root'.isDash = false)
    (hdir : t.linkStat root = .ok (.dir children)) (hdir' : t.linkStat root' = .ok (.dir children))
    (hnames : (Node.dir children).WellNamed) :
    (t.SeenAlike root root' → ∀ excludes, t.SameBelow root root' excludes) ∧
    ((∀ q : Path, q.IsPlain → (t.manifest root []).Lists (root.join q) →
        q.bytes.length ≤ Glob.maxShape) →
      (∀ excludes, t.SameBelow root root' excludes) → t.SeenAlike root root') := by
  refine ⟨sameBelow_of_seenAlike hdash hdash' hdir hdir' hnames, ?_⟩
  intro hshort h
  have hsame {v : Visit} := isReached_and_opens_iff (v := v) hdash hdash' hdir hdir' hnames (h [])
  refine ⟨?_, ?_, ?_⟩
  · intro q hq hlists
    obtain ⟨v, hmet, hreached, hopens, hlisted, rfl⟩ :=
      (lists_manifest_iff hdash hdir hnames hq).mp hlists
    exact ((hsame hmet hlisted).mp ⟨hreached, hopens⟩).2
  · intro q hq hlists
    obtain ⟨v, hmet, hreached, hopens, hlisted, rfl⟩ :=
      (lists_manifest_iff hdash' hdir' hnames hq).mp hlists
    exact ((hsame hmet hlisted).mpr ⟨hreached, hopens⟩).2
  · intro q hq hlists p hp
    obtain ⟨v, hmet, hreached, hopens, hlisted, rfl⟩ :=
      (lists_manifest_iff hdash hdir hnames hq).mp hlists
    have hv := (Node.mem_tour_iff _ _ hnames v).mpr
      ⟨hmet, (Visit.isReached_openedFrom_iff _ root hq).mpr ⟨hreached, hopens⟩⟩
    exact seen_eq_of_sameBelow hdash hdash' hdir hdir' hnames hshort h hv hlisted hp

def namesake : List (Bytes × Node) :=
  [(Bytes.ofString "ax", .dir [(Bytes.ofString "f.py", .file [])])]

def triplets : FileTree where
  top := .dir [(Bytes.ofString "a", .dir namesake), (Bytes.ofString "r", .dir namesake),
    (Bytes.ofString "s", .dir namesake)]
  workingDir := []

theorem wellNamed_namesake : (Node.dir namesake).WellNamed := by
  refine ⟨?_, ⟨?_, trivial, trivial⟩, trivial⟩
  · constructor <;> decide
  · constructor <;> decide

theorem tour_namesake (drop : Drop) :
    (Node.dir namesake).tour drop ⟨[]⟩ =
      if drop (.ofString "ax") true then []
      else ⟨.ofString "ax", .dir⟩ ::
        if drop (.ofString "ax/f.py") false then [] else [⟨.ofString "ax/f.py", .file⟩] := by
  have hdir : (⟨[]⟩ : Path).below (Bytes.ofString "ax") = .ofString "ax" := by cbv
  have hfile : (Path.ofString "ax").below (Bytes.ofString "f.py") = .ofString "ax/f.py" := by cbv
  simp only [namesake, Node.tour, Node.tourOf, hdir, hfile, Node.isDir, Node.kind, List.append_nil]

theorem isMarked_namesake (root : Path) :
    (Noise.ofExcludes root []).isMarked (.ofString "ax") = false ∧
      (Noise.ofExcludes root []).isMarked (.ofString "ax/f.py") = false := by
  constructor <;> cbv

theorem ofPath_namesake : Language.ofPath (.ofString "ax/f.py") = .python := by cbv

theorem drop_openedFrom_namesake {root : Path}
    (hopens : root.Opens [Bytes.ofString "ax", Bytes.ofString "f.py"]) (drop : Drop) (isDir : Bool) :
    drop.openedFrom root (.ofString "ax") isDir = drop (.ofString "ax") isDir ∧
      drop.openedFrom root (.ofString "ax/f.py") isDir = drop (.ofString "ax/f.py") isDir := by
  have hnames : ∀ name ∈ [Bytes.ofString "ax", Bytes.ofString "f.py"], Path.IsName name := by
    rw [List.forall_mem_cons, List.forall_mem_singleton]
    constructor <;> constructor <;> decide
  constructor
  · exact Drop.openedFrom_of_opens (hopens.front ⟨_, rfl⟩ hnames) drop isDir
  · exact Drop.openedFrom_of_opens hopens drop isDir

theorem sources_triplets (root : Path) (excludes : List String) (way file : Option Verdict)
    (hdash : root.isDash = false) (hroot : triplets.linkStat root = .ok (.dir namesake))
    (hopens : root.Opens [Bytes.ofString "ax", Bytes.ofString "f.py"])
    (hway : (Exclude.ofLines root excludes).verdict (.ofString "ax") true = .ok way)
    (hfile : (Exclude.ofLines root excludes).verdict (.ofString "ax/f.py") false = .ok file) :
    (triplets.manifest root excludes).sources =
      if way = some .ignore ∨ file = some .ignore then []
      else [⟨root.join (.ofString "ax/f.py"), .python⟩] := by
  obtain ⟨hmarked, hmarked'⟩ := isMarked_namesake root
  have hopened := drop_openedFrom_namesake hopens (Noise.ofExcludes root excludes).drop
  have hdrop : (Noise.ofExcludes root excludes).drop (.ofString "ax") true = _ :=
    Noise.drop_of_verdict hmarked (by decide) hway
  have hdrop' : (Noise.ofExcludes root excludes).drop (.ofString "ax/f.py") false = _ :=
    Noise.drop_of_verdict hmarked' (by decide) hfile
  rw [manifest_eq triplets root excludes namesake hdash hroot wellNamed_namesake, tour_namesake,
    (hopened true).1, (hopened false).2, hdrop, hdrop']
  by_cases hw : way = some .ignore <;> by_cases hf : file = some .ignore <;>
    simp [Manifest.withRoot, Manifest.under, Manifest.ofVisits, Visit.source?, ofPath_namesake,
      Language.isKnown, hw, hf]

theorem lists_triplets {root : Path} (hdash : root.isDash = false)
    (hroot : triplets.linkStat root = .ok (.dir namesake)) {q : Path} (hq : q.IsPlain)
    (hlists : (triplets.manifest root []).Lists (root.join q)) : q = .ofString "ax/f.py" := by
  have hlisted : (⟨.ofString "ax", .dir⟩ : Visit).isListed = false := by cbv
  obtain ⟨v, hmet, -, -, hv, rfl⟩ := (lists_manifest_iff hdash hroot wellNamed_namesake hq).mp hlists
  rw [tour_namesake] at hmet
  simp only [dropNothing, Bool.false_eq_true, if_false, List.mem_cons, List.not_mem_nil,
    or_false] at hmet
  rcases hmet with rfl | rfl
  · rw [hlisted] at hv
    cases hv
  · rfl

theorem lists_file_triplets {root : Path} (hdash : root.isDash = false)
    (hroot : triplets.linkStat root = .ok (.dir namesake))
    (hopens : root.Opens [Bytes.ofString "ax", Bytes.ofString "f.py"]) :
    (triplets.manifest root []).Lists (root.join (.ofString "ax/f.py")) := by
  have hsources := sources_triplets root [] none none hdash hroot hopens rfl rfl
  exact .inl (by simp [hsources])

theorem sameBelow_iff_seenAlike_triplets :
    triplets.SameBelow (.ofString "r") (.ofString "s") ["/ax/f.py"] ∧
      ¬ ∀ excludes, triplets.SameBelow (.ofString "a") (.ofString "r") excludes := by
  have ha : triplets.linkStat (.ofString "a") = .ok (.dir namesake) := by cbv
  have hr : triplets.linkStat (.ofString "r") = .ok (.dir namesake) := by cbv
  have hs : triplets.linkStat (.ofString "s") = .ok (.dir namesake) := by cbv
  have hplain : (Path.ofString "ax/f.py").IsPlain := by
    have hparts : Path.splitSlash (Path.ofString "ax/f.py").bytes =
        [Bytes.ofString "ax", Bytes.ofString "f.py"] := by decide
    intro part hpart
    rw [hparts, List.mem_cons, List.mem_singleton] at hpart
    rcases hpart with rfl | rfl <;> constructor <;> decide
  constructor
  · apply (sameBelow_iff_seenAlike triplets (.ofString "r") (.ofString "s") namesake (by decide)
      (by decide) hr hs wellNamed_namesake).1
    refine ⟨?_, ?_, ?_⟩
    · intro q hq hlists
      rw [lists_triplets (by decide) hr hq hlists]
      decide
    · intro q hq hlists
      rw [lists_triplets (by decide) hs hq hlists]
      decide
    · intro q hq hlists p hp
      rw [lists_triplets (by decide) hr hq hlists] at hp
      have hself (root : Path)
          (hroot : ¬ (Exclude.undotted root).bytes <+: Bytes.ofString "ax/f.py") :
          Exclude.seen root p = p := by
        apply Exclude.seen_eq_self (hp.isPlain hplain)
        exact fun htakes => hroot (htakes.front.trans hp.isPrefix)
      rw [hself _ (by decide), hself _ (by decide)]
  · intro hsame
    have halike := (sameBelow_iff_seenAlike triplets (.ofString "a") (.ofString "r") namesake
      (by decide) (by decide) ha hr wellNamed_namesake).2 ?_ hsame
    · have hseen := halike.seen (.ofString "ax/f.py") hplain
        (lists_file_triplets (by decide) ha (by decide)) (.ofString "ax/f.py") (.inl rfl)
      revert hseen
      decide
    · intro q hq hlists
      rw [lists_triplets (by decide) ha hq hlists]
      decide

/-- A pattern for one file drops it below one root, but not below the root its directory is named
after. -/
theorem not_sameBelow_namesake :
    ¬ triplets.SameBelow (.ofString "a") (.ofString "r") ["/ax/f.py"] := by
  have hroot : triplets.linkStat (.ofString "a") = .ok (.dir namesake) := by cbv
  have hroot' : triplets.linkStat (.ofString "r") = .ok (.dir namesake) := by cbv
  have hlisted := sources_triplets (.ofString "a") ["/ax/f.py"] none none (by decide) hroot
    (by decide) (by cbv) (by cbv)
  have hdropped := sources_triplets (.ofString "r") ["/ax/f.py"] none (some .ignore) (by decide)
    hroot' (by decide) (by cbv) (by cbv)
  rintro ⟨below, -, hbelow, hbelow'⟩
  rw [hbelow] at hlisted
  rw [hbelow'] at hdropped
  have hnone : below.sources = [] := by simpa [Manifest.withRoot, Manifest.under] using hdropped
  simp [Manifest.withRoot, Manifest.under, hnone] at hlisted

end FileTree

end ApiAtlas
