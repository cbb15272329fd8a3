import ApiAtlas.Proofs.Documents
import ApiAtlas.Proofs.TryWalk

/-!
Leaving directories out. What noise drops it drops with everything below, so a walk that does not
enter what it drops finds the same as one that enters everything and drops path by path.
-/
namespace ApiAtlas

namespace Exclude

/-- Rules that never keep anything another has dropped. -/
def OnlyIgnores (e : Exclude) : Prop := ∀ rule ∈ e.rules, rule.verdict = .ignore

theorem head?_trimLine {line : List Char} (h : line.head? ≠ some '!') :
    (trimLine line).head? ≠ some '!' := by
  have hprefix : trimLine line <+: line := by
    unfold trimLine
    split
    · exact List.prefix_rfl
    · unfold Text.trimRight
      rw [← List.reverse_suffix, List.reverse_reverse]
      exact List.dropWhile_suffix _
  intro hmark
  apply h
  obtain ⟨rest, hrest⟩ := List.head?_eq_some_iff.mp hmark
  obtain ⟨more, hmore⟩ := hprefix
  rw [← hmore, hrest]
  rfl

theorem verdict_readFront {line : List Char} (h : line.head? ≠ some '!') :
    (readFront line).1 = .ignore := by
  unfold readFront
  split <;> simp_all

theorem verdict_of_readRule {line : List Char} (h : line.head? ≠ some '!') {rule : Rule}
    (hrule : readRule line = some rule) : rule.verdict = .ignore := by
  have hfront := verdict_readFront (head?_trimLine h)
  unfold readRule at hrule
  simp only at hrule
  split_ifs at hrule
  split at hrule
  · cases hrule
    exact hfront
  · cases hrule

theorem onlyIgnores_ofLines (root : Path) {lines : List String}
    (h : ∀ line ∈ lines, line.toList.head? ≠ some '!') : (ofLines root lines).OnlyIgnores := by
  intro rule hrule
  have hmem : rule ∈ lines.filterMap fun line => readRule line.toList := by
    unfold ofLines inForce at hrule
    simp only at hrule
    split at hrule
    · cases hrule
    · exact hrule
  obtain ⟨line, hline, hread⟩ := List.mem_filterMap.mp hmem
  exact verdict_of_readRule (h line hline) hread

theorem OnlyIgnores.decide?_cases {e : Exclude} (h : e.OnlyIgnores) (p : Path) (isDir : Bool) :
    e.decide? p isDir = none ∨ e.decide? p isDir = some .ignore := by
  unfold decide?
  cases hfind : e.rules.reverse.find? (·.applies p isDir) with
  | none => exact .inl rfl
  | some rule =>
    have hrule := h rule (List.mem_reverse.mp (List.mem_of_find?_eq_some hfind))
    exact .inr (by rw [Option.map_some, hrule])

end Exclude

namespace Path

theorem ancestorsUpTo_isPrefix (p : Path) {limit limit' : Nat} (h : limit ≤ limit') :
    p.ancestorsUpTo limit <+: p.ancestorsUpTo limit' := by
  induction limit generalizing p limit' with
  | zero =>
    rw [ancestorsUpTo]
    exact List.nil_prefix
  | succ limit ih =>
    have hpos : 1 ≤ limit' := Nat.le_trans (Nat.succ_le_succ limit.zero_le) h
    obtain ⟨limit', rfl⟩ := Nat.exists_eq_add_of_le' hpos
    rw [ancestorsUpTo, ancestorsUpTo, List.prefix_cons_inj]
    cases p.parent? with
    | none => exact List.prefix_rfl
    | some q => exact ih q (Nat.le_of_succ_le_succ h)

theorem parent?_below {p : Path} (hp : p.IsPlain) {name : Bytes} (hname : IsName name) :
    (p.below name).parent? = some p := by
  have hparts : (p.below name).parts = splitSlash p.bytes ++ [name] := by
    unfold parts
    rw [(isPlain_below (.inr hp) hname).lead_eq, below, if_neg hp.ne_nil, List.length_nil,
      List.drop_zero, splitSlash_append_slash, splitSlash_of_notMem hname.noSlash,
      dropVoidEnd_concat, hname.not_isVoidPart, if_neg Bool.false_ne_true]
  obtain ⟨first, more, hall⟩ :=
    List.exists_cons_of_ne_nil (List.concat_ne_nil name (splitSlash p.bytes))
  unfold parent?
  rw [hparts, hall]
  simp only
  rw [← hall, List.dropLast_concat, (isPlain_below (.inr hp) hname).lead_eq,
    hp.dropVoidEnd_splitSlash, joinSlash_splitSlash, List.nil_append]

end Path

/-- Whether what is dropped as a directory is dropped with everything right below it. -/
def Drop.Sinks (drop : Drop) : Prop :=
  ∀ p : Path, p.IsPlain → drop p true = true →
    ∀ name, Path.IsName name → ∀ isDir, drop (p.below name) isDir = true

theorem Drop.Sinks.of_above {drop : Drop} (h : Drop.Sinks drop) {p q : Path} (hq : q.IsPlain)
    (hpq : p.Above q) (hp : drop p true = true) (isDir : Bool) : drop q isDir = true := by
  have hlocation : ∀ name ∈ Path.splitSlash q.bytes, Path.IsName name := hq
  rw [← Path.ofNames_splitSlash q] at hpq ⊢
  obtain ⟨front, name, rest, hsplit, hfront, rfl⟩ :=
    (Path.above_ofNames_iff hlocation (Path.splitSlash_ne_nil _) p).mp hpq
  rw [hsplit] at hlocation ⊢
  -- One name after the other, from the directory that is dropped down.
  generalize hback : name :: rest = back at hlocation ⊢
  have hne : back ≠ [] := by simp [← hback]
  clear hback hsplit hpq
  induction back using List.reverseRecOn generalizing isDir with
  | nil => exact absurd rfl hne
  | append_singleton back last ih =>
    rw [← List.append_assoc] at hlocation ⊢
    obtain ⟨habove, hlast⟩ := List.forall_mem_append.mp hlocation
    rw [← Path.below_ofNames habove]
    apply h _ (Path.isPlain_ofNames habove (by simp [hfront])) _ _ (hlast last (by simp))
    by_cases hnil : back = []
    · rwa [hnil, List.append_nil]
    · exact ih true habove hnil

theorem Drop.Sinks.openedFrom {drop : Drop} (h : Drop.Sinks drop) (root : Path) :
    Drop.Sinks (drop.openedFrom root) := by
  intro p hp hdropped name hname isDir
  have hbelow : (p.below name).IsPlain := Path.isPlain_below (.inr hp) hname
  unfold Drop.openedFrom at hdropped ⊢
  rw [Bool.or_eq_true, Bool.not_eq_true', decide_eq_false_iff_not] at hdropped ⊢
  refine hdropped.imp (fun hdropped => h p hp hdropped name hname isDir) fun hclosed hopens => ?_
  obtain ⟨rest, hrest⟩ := Path.above_iff.mp ((Path.above_child p name).resolve_left hp.ne_nil)
  unfold Path.IsPlain at hbelow
  rw [hrest, Path.splitSlash_append_slash] at hbelow hopens
  exact hclosed (hopens.front (List.prefix_append _ _) hbelow)

namespace Exclude

theorem verdict_eq {e : Exclude} (hrules : e.rules.isEmpty = false) {p : Path}
    (hrelative : e.relative p = p) (hp : p.isAbsolute = false) (isDir : Bool) :
    e.verdict p isDir =
      .ok ((e.decide? p isDir).or (p.ancestors.tail.findSome? (e.decide? · true))) := by
  unfold verdict
  rw [hrules, hrelative]
  simp only [hp, Bool.false_eq_true, if_false]
  cases e.decide? p isDir <;> rfl

theorem OnlyIgnores.verdict_below {e : Exclude} (h : e.OnlyIgnores)
    (hrelative : ∀ q : Path, q.IsPlain → e.relative q = q) {p : Path} (hp : p.IsPlain)
    (hdir : e.verdict p true = .ok (some .ignore)) {name : Bytes} (hname : Path.IsName name)
    (isDir : Bool) : e.verdict (p.below name) isDir = .ok (some .ignore) := by
  have hbelow : (p.below name).IsPlain := Path.isPlain_below (.inr hp) hname
  have hrules : e.rules.isEmpty = false := by
    cases hempty : e.rules.isEmpty with
    | false => rfl
    | true =>
      unfold verdict at hdir
      rw [hempty] at hdir
      cases hdir
  have hfound : p.ancestors.findSome? (e.decide? · true) = some .ignore := by
    rw [verdict_eq hrules (hrelative p hp) hp.not_isAbsolute] at hdir
    rw [← Except.ok.inj hdir]
    unfold Path.ancestors
    rw [Path.ancestorsUpTo, List.findSome?_cons, List.tail_cons]
    cases e.decide? p true <;> rfl
  have hup : p.ancestors <+: (p.below name).ancestors.tail := by
    have hlength : p.bytes.length + 2 ≤ (p.below name).bytes.length + 1 := by
      unfold Path.below
      rw [if_neg hp.ne_nil, List.length_append, List.length_cons]
      omega
    have htail : (p.below name).ancestors.tail =
        p.ancestorsUpTo ((p.below name).bytes.length + 1) := by
      unfold Path.ancestors
      rw [Path.ancestorsUpTo, List.tail_cons, Path.parent?_below hp hname]
    rw [htail]
    exact p.ancestorsUpTo_isPrefix hlength
  rw [verdict_eq hrules (hrelative _ hbelow) hbelow.not_isAbsolute, hup.findSome?_eq_some hfound]
  rcases h.decide?_cases (p.below name) isDir with hnone | hignore
  · rw [hnone, Option.none_or]
  · rw [hignore, Option.some_or]

end Exclude

namespace Noise

theorem sinks_ofMarkers {root : Path} (hroot : root = .ofString "." ∨ root.isAbsolute = true)
    (markers : List String) {excludes : List String}
    (hkeep : ∀ line ∈ excludes, line.toList.head? ≠ some '!') :
    Drop.Sinks (ofMarkers root markers excludes).drop := by
  intro p hp hdropped name hname isDir
  have hbelow : (p.below name).IsPlain := Path.isPlain_below (.inr hp) hname
  have huntaken : root.isAbsolute ∨ (Exclude.undotted root).isDot := by
    rcases hroot with rfl | habsolute
    · exact .inr (by decide)
    · exact .inl habsolute
  rw [drop_iff] at hdropped ⊢
  rcases hdropped with hmarked | ⟨-, hverdict⟩
  · exact .inl (isMarked_of_above ((Path.above_child p name).resolve_left hp.ne_nil) hmarked)
  · have hrelative (q : Path) (hq : q.IsPlain) : (Exclude.ofLines root excludes).relative q = q :=
      Exclude.seen_of_isAbsolute_or_isDot huntaken hq
    exact .inr ⟨hbelow.ne_nil, (Exclude.onlyIgnores_ofLines root hkeep).verdict_below hrelative hp
      hverdict hname isDir⟩

end Noise

/-- A walk that does not enter what it drops meets what is not dropped itself. -/
theorem Node.tour_eq_filter_of_sinks {drop : Drop} (h : Drop.Sinks drop) (node : Node)
    (hnode : node.WellNamed) :
    node.tour drop ⟨[]⟩ =
      (node.tour dropNothing ⟨[]⟩).filter fun v => !drop v.path (v.kind = .dir) := by
  classical
  rw [tour_eq_filter drop ⟨[]⟩ (.inl rfl) node hnode]
  apply List.filter_congr
  intro v hv
  have hplain := isPlain_of_mem_tour dropNothing ⟨[]⟩ (.inl rfl) node hnode v hv
  rw [Bool.eq_iff_iff, decide_eq_true_iff, Bool.not_eq_true']
  constructor
  · exact fun hreached => hreached.kept
  · intro hkept
    refine ⟨hkept, ?_⟩
    intro p _ hp
    by_contra hdropped
    rw [h.of_above hplain hp (Bool.not_eq_false _ ▸ hdropped)] at hkept
    cases hkept

namespace FileTree

theorem relativeTo_of_mem_walk {t : FileTree} (hwell : t.top.WellFormed) {drop : Drop}
    {start : Path} {v : Visit} (hv : v ∈ t.walk drop start) :
    v.path.relativeTo start = ⟨[]⟩ ∨ (v.path.relativeTo start).IsPlain := by
  obtain ⟨own, children, hframe⟩ := t.exists_walkFrame start
  have hnames := (hframe.wellFormed hwell).named
  have hvisits : (Node.dir children).visits drop start ⟨[]⟩ = _ :=
    Node.visits_eq_tour drop start [] (by simp) (.dir children) hnames
  rw [hframe.walk, hvisits] at hv
  rcases List.mem_append.mp hv with hv | hv
  · rw [hframe.path v hv, Path.relativeTo_self]
    exact .inl rfl
  · obtain ⟨w, hw, rfl⟩ := List.mem_map.mp hv
    have hplain := Node.isPlain_of_mem_tour _ ⟨[]⟩ (.inl rfl) _ hnames w hw
    rw [Visit.under, Path.relativeTo_join hplain]
    exact .inr hplain

theorem walk_eq_filter {t : FileTree} (hwell : t.top.WellFormed) {drop : Drop}
    (h : Drop.Sinks drop) (hstart : ∀ isDir, drop ⟨[]⟩ isDir = false) (start : Path) :
    t.walk drop start =
      (t.walk dropNothing start).filter fun v =>
        !drop (v.path.relativeTo start) (v.kind = .dir) := by
  obtain ⟨own, children, hframe⟩ := t.exists_walkFrame start
  have hnames := (hframe.wellFormed hwell).named
  have hvisits (drop : Drop) (h : Drop.Sinks drop) :
      (Node.dir children).visits drop start ⟨[]⟩ =
        (((Node.dir children).tour dropNothing ⟨[]⟩).filter fun v =>
          !drop.openedFrom start v.path (v.kind = .dir)).map (Visit.under start) :=
    (Node.visits_eq_tour drop start [] (by simp) (.dir children) hnames).trans
      (congrArg _ (Node.tour_eq_filter_of_sinks (h.openedFrom start) _ hnames))
  have hown : own.filter (fun v => !drop (v.path.relativeTo start) (v.kind = .dir)) = own := by
    apply List.filter_eq_self.mpr
    intro v hv
    rw [hframe.path v hv, Path.relativeTo_self, hstart]
    rfl
  rw [hframe.walk, hframe.walk, List.filter_append, hown, hvisits drop h,
    hvisits dropNothing fun _ _ hnothing => absurd hnothing Bool.false_ne_true, List.filter_map,
    List.filter_filter]
  apply congrArg
  apply congrArg
  apply List.filter_congr
  intro v hv
  have hplain := Node.isPlain_of_mem_tour dropNothing ⟨[]⟩ (.inl rfl) _ hnames v hv
  simp only [Function.comp_apply, Visit.under, Path.relativeTo_join hplain, Drop.openedFrom,
    dropNothing, Bool.false_or, Bool.not_or]
  rfl

/-- Where the root is never taken off and no rule keeps anything, noise that drops a directory drops
everything below it; so a manifest is that of a walk that enters everything and asks about each path
for itself. -/
theorem pruning_loses_nothing (root : Path) (hroot : root = .ofString "." ∨ root.isAbsolute = true)
    (excludes : List String) (hkeep : ∀ line ∈ excludes, line.toList.head? ≠ some '!') :
    (∀ (markers : List String) (p : Path), p.IsPlain →
      (Noise.ofMarkers root markers excludes).ignores p true = .ok true →
      ∀ name, Path.IsName name → ∀ isDir,
        (Noise.ofMarkers root markers excludes).ignores (p.below name) isDir = .ok true) ∧
    ∀ t : FileTree, t.top.WellFormed →
      t.manifest root excludes =
        .ofVisits ((t.walk dropNothing root).filter fun v =>
          (Noise.ofExcludes root excludes).ignores (v.path.relativeTo root) (v.kind = .dir) =
            .ok false) := by
  constructor
  · intro markers p hp hignored name hname isDir
    have hbelow : (p.below name).IsPlain := Path.isPlain_below (.inr hp) hname
    rw [Noise.ignores_eq hp] at hignored
    rw [Noise.ignores_eq hbelow,
      Noise.sinks_ofMarkers hroot markers hkeep p hp (Except.ok.inj hignored) name hname isDir]
  · intro t hwell
    have hsinks : Drop.Sinks (Noise.ofExcludes root excludes).drop :=
      Noise.sinks_ofMarkers hroot Noise.commonMarkers hkeep
    have hstart (isDir : Bool) :
        (Noise.ofExcludes root excludes).ignores ⟨[]⟩ isDir = .ok false := by
      have hmarked : (Noise.ofExcludes root excludes).isMarked ⟨[]⟩ = false :=
        (by decide : (Noise.commonMarkers.any fun marker => Text.occurs marker.toList []) = false)
      unfold Noise.ignores
      rw [hmarked]
      rfl
    have hignores (v : Visit) (hv : v ∈ t.walk dropNothing root) :
        (Noise.ofExcludes root excludes).ignores (v.path.relativeTo root) (v.kind = .dir) =
          .ok ((Noise.ofExcludes root excludes).drop (v.path.relativeTo root) (v.kind = .dir)) := by
      rcases relativeTo_of_mem_walk hwell hv with hself | hplain
      · rw [hself, Noise.drop, hstart]
      · exact Noise.ignores_eq hplain root Noise.commonMarkers excludes _
    unfold manifest
    rw [walk_eq_filter hwell hsinks fun isDir => by rw [Noise.drop, hstart]]
    apply congrArg
    apply List.filter_congr
    intro v hv
    rw [hignores v hv]
    simp

theorem pruning_loses_nothing_docs :
    (Noise.ofMarkers (.ofString ".") ["zz"] ["/Docs/"]).ignores (.ofString "Docs") true = .ok true ∧
      (Noise.ofMarkers (.ofString ".") ["zz"] ["/Docs/"]).ignores (.ofString "Docs/a") false =
        .ok true ∧
      shelved.manifest (.ofString ".") ["/Docs/"] =
        .ofVisits ((shelved.walk dropNothing (.ofString ".")).filter fun v =>
          (Noise.ofExcludes (.ofString ".") ["/Docs/"]).ignores (v.path.relativeTo (.ofString "."))
            (v.kind = .dir) = .ok false) := by
  have hdir : (Noise.ofMarkers (.ofString ".") ["zz"] ["/Docs/"]).ignores (.ofString "Docs") true =
      .ok true := by cbv
  obtain ⟨hbelow, hmanifest⟩ := pruning_loses_nothing (.ofString ".") (.inl rfl) ["/Docs/"]
    (by decide)
  have hname (text : String) (h : Path.IsName (Bytes.ofString text)) :
      (Path.ofString text).IsPlain := Path.isPlain_name h
  exact ⟨hdir, hbelow ["zz"] (.ofString "Docs") (hname _ (by constructor <;> decide)) hdir
    (Bytes.ofString "a") (by constructor <;> decide) false, hmanifest shelved wellFormed_shelved⟩

end FileTree

end ApiAtlas
