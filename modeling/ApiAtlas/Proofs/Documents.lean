import ApiAtlas.Proofs.Rerun
import ApiAtlas.Settings

/-!
Finding the pages again. A page in the usual place is listed among the documents of its source tree,
as one about an API, exactly if the name of its container is not taken for version control.
-/
namespace ApiAtlas

namespace Text

theorem infix_map_iff {word : List Char} {f : Char → Char}
    (h : ∀ c, f c = c ∨ c ∉ word ∧ f c ∉ word) (text : List Char) :
    word <:+: text.map f ↔ word <:+: text := by
  constructor
  · intro hword
    obtain ⟨other, hother, heq⟩ := List.infix_map_iff.mp hword
    have hsame : other.map f = other := by
      conv_rhs => rw [← List.map_id other]
      apply List.map_congr_left
      intro c hc
      have hmem : f c ∈ word := heq ▸ List.mem_map_of_mem hc
      exact (h c).resolve_right fun hnot => hnot.2 hmem
    rw [heq, hsame]
    exact hother
  · intro hword
    have hsame : word.map f = word := by
      conv_rhs => rw [← List.map_id word]
      apply List.map_congr_left
      intro c hc
      exact (h c).resolve_right fun hnot => hnot.1 hc
    exact hsame ▸ hword.map f

@[simp] theorem lower_append (a b : List Char) : lower (a ++ b) = lower a ++ lower b :=
  List.flatMap_append

end Text

namespace Utf8

theorem decodeLossy_encode (s : List Char) : decodeLossy (encode s) = s :=
  decodeLossy_of_decode _ s (decode_encode s)

end Utf8

def gitMarker : List Char := ".git".toList

theorem gitMarker_fileBase_iff (container : String) :
    gitMarker <:+: (fileBase container).toList ↔ gitMarker <:+: container.toList := by
  unfold fileBase
  rw [String.toList_ofList]
  apply Text.infix_map_iff
  intro c
  split
  · rename_i hc
    have hc : c = ' ' ∨ c = '/' ∨ c = '\\' := by simpa using hc
    rcases hc with rfl | rfl | rfl <;> decide
  · exact .inl rfl

/-- What is put behind a container's name. -/
structure IsNameEnd (tail : List Char) : Prop where
  head : tail.head? = some '-' ∨ tail.head? = some '.'
  noG : 'g' ∉ tail

theorem gitMarker_append_iff {tail : List Char} (h : IsNameEnd tail) (base : List Char) :
    gitMarker <:+: base ++ tail ↔ gitMarker <:+: base := by
  constructor
  · intro hmarker
    rcases List.infix_append_iff.mp hmarker with hbase | htail | ⟨l₁, l₂, hsplit, hl₁, hl₂⟩
    · exact hbase
    · exact absurd (htail.subset (by decide)) h.noG
    · -- No end of the marker but the empty one starts what stands behind.
      cases l₂ with
      | nil =>
        rw [List.append_nil] at hsplit
        exact hsplit ▸ hl₁.isInfix
      | cons c l₂ =>
        have hhead : c = '-' ∨ c = '.' := by
          obtain ⟨more, hmore⟩ := hl₂
          rw [← hmore] at h
          simpa using h.head
        have hmem : c ∈ gitMarker := by simp [hsplit]
        have hdot : c = '.' := hhead.resolve_left (by rintro rfl; exact absurd hmem (by decide))
        have hfirst : l₁ = [] := by
          cases l₁ with
          | nil => rfl
          | cons a l₁ =>
            have hrest : ['g', 'i', 't'] = l₁ ++ c :: l₂ := (List.cons.inj hsplit).2
            have hrest : '.' ∈ ['g', 'i', 't'] := by simp [hrest, hdot]
            exact absurd hrest (by decide)
        rw [hfirst, List.nil_append] at hsplit
        exact absurd (hl₂.subset (hsplit ▸ by decide)) h.noG
  · exact fun hbase => hbase.trans (List.prefix_append base tail).isInfix

namespace Collision

theorem noG_toDigits (n : Nat) : 'g' ∉ Nat.toDigits 10 n := by
  intro hmem
  exact absurd (Nat.isDigit_of_mem_toDigits (by decide) (by decide) hmem) (by decide)

theorem exists_nameEnd (policy : Collision) (origins : Origins) (taken : List String) (e : Entry) :
    ∃ tail, IsNameEnd (tail ++ ".md".toList) ∧
      (policy.nextName origins.text taken e).toList = (fileBase e.container).toList ++ tail := by
  have hplain : ∃ tail, IsNameEnd (tail ++ ".md".toList) ∧
      (fileBase e.container).toList = (fileBase e.container).toList ++ tail :=
    ⟨[], ⟨by decide, by decide⟩, by simp⟩
  unfold nextName
  simp only
  split
  · exact hplain
  · cases policy with
    | overwrite => exact hplain
    | disambiguate =>
      have horigin : 'g' ∉ (origins.text e).toList :=
        fun hmem => absurd (origins.isHex_text e _ hmem) (by decide)
      have hfree := (firstFree_spec (fileBase e.container ++ "-" ++ origins.text e) taken).1
      unfold candidates at hfree
      rcases List.mem_cons.1 hfree with hfirst | hlater
      · refine ⟨'-' :: (origins.text e).toList, ⟨.inl rfl, ?_⟩, ?_⟩
        · simp [horigin]
        · simp only [hfirst]
          simp
      · obtain ⟨i, -, hi⟩ := List.mem_map.1 hlater
        refine ⟨'-' :: (origins.text e).toList ++ '-' :: (Nat.repr (i + 2)).toList,
          ⟨.inl rfl, ?_⟩, ?_⟩
        · simp [horigin, noG_toDigits]
        · simp only [← hi]
          simp

end Collision

theorem pageName_eq_encode (name : String) :
    pageName name = Utf8.encode (name.toList ++ ".md".toList) := by
  unfold pageName Bytes.ofString
  rw [String.toList_append]

theorem PageWriter.getElem?_filesBy_page (w : PageWriter) (origins : Origins) {entries : List Entry}
    {i : Nat} {e : Entry} (h : entries[i]? = some e) :
    ∃ name, '/' ∉ name.toList ∧
      (gitMarker <:+: name.toList ++ ".md".toList ↔ gitMarker <:+: e.container.toList) ∧
      (w.filesBy origins entries)[i]? =
        some (pageName name, Utf8.encode (w.template.fill e)) := by
  have hname := Collision.getElem?_namesFrom w.collision origins.text h []
  generalize ((w.collision.namesFrom origins.text [] entries).take i).reverse ++ [] = taken at hname
  obtain ⟨tail, htail, heq⟩ := Collision.exists_nameEnd w.collision origins taken e
  refine ⟨w.collision.nextName origins.text taken e, Collision.noSlash_nextName _ _ _ _, ?_, ?_⟩
  · rw [heq, List.append_assoc, gitMarker_append_iff htail, gitMarker_fileBase_iff]
  · unfold filesBy Collision.names
    rw [List.getElem?_zipWith, h, hname]

def apiLocation : Location := [Bytes.ofString "docs", Bytes.ofString "api"]

theorem isName_of_mem_apiLocation : ∀ name ∈ apiLocation, Path.IsName name := by
  intro name hname
  rcases List.mem_cons.mp hname with rfl | hname
  · constructor <;> decide
  · rw [List.mem_singleton] at hname
    rw [hname]
    constructor <;> decide

namespace Noise

theorem isMarked_git_iff (root p : Path) :
    (ofMarkers root [".git"] []).isMarked p = true ↔ gitMarker <:+: Utf8.decodeLossy p.bytes := by
  unfold isMarked ofMarkers
  simp only [List.any_cons, List.any_nil, Bool.or_false]
  rw [Text.occurs_iff]
  apply Text.infix_map_iff
  intro c
  split
  · rename_i hc
    rw [hc]
    decide
  · exact .inl rfl

theorem decodeLossy_page (name : String) :
    Utf8.decodeLossy (Path.ofNames (apiLocation ++ [pageName name])).bytes =
      "docs/api/".toList ++ (name.toList ++ ".md".toList) := by
  have hbytes : (Path.ofNames (apiLocation ++ [pageName name])).bytes =
      Utf8.encode ("docs/api/".toList ++ (name.toList ++ ".md".toList)) := by
    rw [Utf8.encode_append, ← pageName_eq_encode]
    rfl
  rw [hbytes, Utf8.decodeLossy_encode]

/-- Only its own name can make a page pass for version control. -/
theorem spares_page_iff (root : Path) {name : String} (hname : '/' ∉ name.toList) (content : Bytes) :
    (ofMarkers root [".git"] []).Spares (apiLocation ++ [pageName name]) (.file content) ↔
      ¬ gitMarker <:+: name.toList ++ ".md".toList := by
  have hself : (ofMarkers root [".git"] []).isMarked (.ofNames (apiLocation ++ [pageName name])) =
      true ↔ gitMarker <:+: name.toList ++ ".md".toList := by
    rw [isMarked_git_iff, decodeLossy_page]
    exact Text.infix_behind_iff (by decide) _
  have hnames : ∀ n ∈ apiLocation ++ [pageName name], Path.IsName n := by
    rw [List.forall_mem_append, List.forall_mem_singleton]
    exact ⟨isName_of_mem_apiLocation, isName_pageName hname⟩
  rw [spares_nil_iff root [".git"] (by simp) hnames, ← hself, Bool.not_eq_true]

end Noise

theorem Path.along_injective (root : Path) {location other : Location} (hne : location ≠ [])
    (hnames : ∀ name ∈ location, IsName name) (hne' : other ≠ [])
    (hnames' : ∀ name ∈ other, IsName name) (h : root.along location = root.along other) :
    location = other := by
  rw [along_eq_join hnames root hne, along_eq_join hnames' root hne'] at h
  have hsame := join_injective_of_relative (isPlain_ofNames hnames hne).not_isAbsolute
    (isPlain_ofNames hnames' hne').not_isAbsolute root h
  rw [← splitSlash_ofNames hnames hne, ← splitSlash_ofNames hnames' hne', hsame]

theorem DocumentKind.ofPath_page (root : Path) {page : Bytes} (hpage : Path.IsName page) :
    DocumentKind.ofPath (root.along (apiLocation ++ [page])) = .api := by
  have hnames : ∀ name ∈ apiLocation ++ [page], Path.IsName name := by
    rw [List.forall_mem_append, List.forall_mem_singleton]
    exact ⟨isName_of_mem_apiLocation, hpage⟩
  have hne : apiLocation ++ [page] ≠ [] := by simp
  have hbytes : (root.along (apiLocation ++ [page])).bytes =
      (root.frontOf ++ Bytes.ofString "docs") ++
        Path.slash :: (Bytes.ofString "api" ++ Path.slash :: page) := by
    rw [Path.along_eq_join hnames root hne,
      Path.bytes_join_of_relative (Path.isPlain_ofNames hnames hne).not_isAbsolute,
      List.append_assoc]
    rfl
  have hapi : Text.lower (Text.slashed
      ('/' :: (Utf8.decodeLossy (Bytes.ofString "api") ++ ['/']))) = "/api/".toList := by decide
  unfold DocumentKind.ofPath
  rw [hbytes, Utf8.decodeLossy_append_slash, Utf8.decodeLossy_append_slash, if_pos]
  rw [Text.occurs_iff]
  have hsplit (front back : List Char) :
      front ++ '/' :: (Utf8.decodeLossy (Bytes.ofString "api") ++ '/' :: back) =
        front ++ ('/' :: (Utf8.decodeLossy (Bytes.ofString "api") ++ ['/']) ++ back) := by
    simp
  rw [hsplit, Text.slashed_append, Text.slashed_append, Text.lower_append, Text.lower_append, hapi]
  exact (List.prefix_append _ _).isInfix.trans (List.suffix_append _ _).isInfix

theorem Visit.isMarkdown_page (root : Path) {name : String} (hname : '/' ∉ name.toList) :
    (⟨root.along (apiLocation ++ [pageName name]), .file⟩ : Visit).isMarkdown = true := by
  unfold isMarkdown
  rw [Path.fileName?_along (isName_pageName hname)]
  simp only [decide_true, Bool.true_and]
  rw [pageName_eq_encode, Utf8.decodeLossy_encode, Text.lower_append]
  exact List.isSuffixOf_iff_suffix.mpr (List.suffix_append _ _)

namespace FileTree

theorem mem_documents_page_iff {t : FileTree} {root : Path} {children : List (Bytes × Node)}
    (hdash : root.isDash = false) (hdir : t.linkStat root = .ok (.dir children))
    (hwell : (Node.dir children).WellFormed) {name : String} (hname : '/' ∉ name.toList)
    {content : Bytes}
    (hfile : (Node.dir children).get? (apiLocation ++ [pageName name]) = some (.file content))
    (hopens : root.Opens (apiLocation ++ [pageName name])) (kind : DocumentKind) :
    ⟨root.along (apiLocation ++ [pageName name]), kind⟩ ∈ t.documents root ↔
      kind = .api ∧ ¬ gitMarker <:+: name.toList ++ ".md".toList := by
  classical
  rw [← Noise.spares_page_iff root hname content]
  have hnames := Node.isName_of_get? hwell hfile
  have hne : apiLocation ++ [pageName name] ≠ [] := by simp
  unfold documents
  rw [walk_eq_spots hdash hdir hwell root [".git"] []]
  constructor
  · intro hmem
    obtain ⟨v, hv, hpath⟩ := List.mem_map.mp hmem
    obtain ⟨hv, hmarkdown⟩ := List.mem_filter.mp hv
    rcases List.mem_cons.mp hv with rfl | hv
    · simp [Visit.isMarkdown] at hmarkdown
    · obtain ⟨⟨location, node⟩, hspot, rfl⟩ := List.mem_map.mp hv
      obtain ⟨hspot, hspares⟩ := List.mem_filter.mp hspot
      obtain ⟨hne', hnode⟩ := (Node.mem_spots_iff _ hwell.ordered _ _).mp hspot
      have hsame := Path.along_injective root hne' (Node.isName_of_get? hwell hnode) hne hnames
        (Document.mk.inj hpath).1
      subst hsame
      rw [hnode] at hfile
      refine ⟨(Document.mk.inj hpath).2.symm.trans ?_,
        Option.some.inj hfile ▸ (of_decide_eq_true hspares).1⟩
      exact DocumentKind.ofPath_page root (isName_pageName hname)
  · rintro ⟨rfl, hspares⟩
    refine List.mem_map.mpr ⟨⟨root.along (apiLocation ++ [pageName name]), .file⟩, ?_, ?_⟩
    · refine List.mem_filter.mpr ⟨List.mem_cons_of_mem _ (List.mem_map.mpr
        ⟨(apiLocation ++ [pageName name], .file content), ?_, rfl⟩),
        Visit.isMarkdown_page root hname⟩
      exact List.mem_filter.mpr
        ⟨(Node.mem_spots_iff _ hwell.ordered _ _).mpr ⟨hne, hfile⟩,
          decide_eq_true ⟨hspares, hopens⟩⟩
    · rw [DocumentKind.ofPath_page root (isName_pageName hname)]

theorem Leads.there_of_names {t : FileTree} {links left : Nat} {here there location : Location}
    (h : t.Leads links here location left there) (hnames : ∀ name ∈ location, Path.IsName name)
    (hlinks : ∀ front target, front <+: location →
      t.top.get? (here ++ front) ≠ some (.link target)) : there = here ++ location := by
  induction h with
  | arrived hdir => simp
  | stay hdir hpart _ ih =>
    have hname := hnames _ List.mem_cons_self
    exact absurd hpart hname.not_void
  | up hdir _ ih => exact absurd rfl (hnames _ List.mem_cons_self).ne_dots
  | @down links left here there part rest hpart hdots hlength hdir _ ih =>
    rw [ih (fun name hname => hnames name (List.mem_cons_of_mem _ hname)), List.append_assoc,
      List.singleton_append]
    intro front target hfront
    rw [List.append_assoc, List.singleton_append]
    exact hlinks (part :: front) target (List.cons_prefix_cons.mpr ⟨rfl, hfront⟩)
  | @follow links left here there part rest target hpart hdots hlength hlink htarget _ ih =>
    exact absurd hlink (hlinks [part] target (List.cons_prefix_cons.mpr ⟨rfl, List.nil_prefix⟩))

theorem there_of_leadsTo_along {t : FileTree} {root : Path} {left left' : Nat}
    {top there location : Location} (hroot : t.LeadsTo root left top)
    (h : t.LeadsTo (root.along location) left' there)
    (hnames : ∀ name ∈ location, Path.IsName name)
    (hlinks : ∀ front target, front <+: location →
      t.top.get? (top ++ front) ≠ some (.link target)) : there = top ++ location := by
  unfold LeadsTo startOf at h
  rw [Path.isAbsolute_along root hnames, Path.way_along root hnames] at h
  obtain ⟨between, mid, hmid, hrest⟩ := h.split
  have hsame : mid = top := hmid.there_eq hroot
  subst hsame
  exact hrest.there_of_names hnames hlinks

theorem leadsTo_of_linkStat {t : FileTree} {root : Path} {children : List (Bytes × Node)}
    (hdir : t.linkStat root = .ok (.dir children)) :
    ∃ left there, t.LeadsTo root left there ∧ t.top.get? there = some (.dir children) ∧
      ∀ later, t.Keeps later → ∃ others, later.linkStat root = .ok (.dir others) ∧
        later.top.get? there = some (.dir others) := by
  obtain ⟨there, hresolve⟩ := linkStat_eq_ok_iff.mp hdir
  obtain ⟨hcheck, hspot⟩ := resolve_eq_ok_iff.mp hresolve
  obtain ⟨left, hleads⟩ := leads_of_resolveFrom_dir hspot
  refine ⟨left, there, leads_steps_iff.mp hleads, get?_of_resolveFrom hspot, ?_⟩
  intro later hkeep
  obtain ⟨others, hothers⟩ := resolveFrom_keep hkeep hspot
  refine ⟨others, linkStat_eq_ok_iff.mpr ⟨there, ?_⟩, get?_of_resolveFrom hothers⟩
  rw [resolve_eq_ok_iff, hkeep.workingDir]
  exact ⟨hcheck, hothers⟩

end FileTree

namespace PageWriter

theorem page_in_place {w : PageWriter} {origins : Origins} {t later : FileTree} {root : Path}
    {children : List (Bytes × Node)} {entries : List Entry} {generated : List Path}
    (hwell : t.top.WellFormed) (hdir : t.linkStat root = .ok (.dir children))
    (hlinks : ∀ name front target, front <+: apiLocation ++ [name] →
      (Node.dir children).get? front ≠ some (.link target))
    (h : w.writeBy origins t entries root.apiDocs = (later, .ok generated)) :
    ∃ others, later.linkStat root = .ok (.dir others) ∧ (Node.dir others).WellFormed ∧
      ∀ file ∈ w.filesBy origins entries, root.Opens (apiLocation ++ [file.1]) ∧ ∃ content,
        (Node.dir others).get? (apiLocation ++ [file.1]) = some (.file content) := by
  obtain ⟨-, made, hmade, hwritten⟩ := writeBy_eq_ok_iff.mp h
  have hkeep : t.Keeps (t.makeDirs root.apiDocs).1 := FileTree.keeps_makeDirs root.apiDocs
  have hmadeWell := FileTree.wellFormed_makeDirs hwell root.apiDocs
  rw [hmade] at hkeep hmadeWell
  have hnames (file : Bytes × Bytes) (hfile : file ∈ w.filesBy origins entries) :
      Path.IsName file.1 := isName_of_mem_filesBy hfile
  obtain ⟨left, top, hroot, htop, hstays⟩ := FileTree.leadsTo_of_linkStat hdir
  have hbelow (name : Bytes) {front : Location} (hfront : front <+: apiLocation ++ [name])
      (target : Path) : made.top.get? (top ++ front) ≠ some (.link target) := by
    intro hlink
    have hlink := (hkeep.links _ _).mp hlink
    rw [Node.get?_append, htop, Option.bind_some] at hlink
    exact hlinks name front target hfront hlink
  -- The way to the pages goes straight down from the root.
  have hthere {left' : Nat} {there : Location} (hleads : made.LeadsTo root.apiDocs left' there) :
      there = top ++ apiLocation :=
    FileTree.there_of_leadsTo_along (FileTree.LeadsTo.keep hkeep hroot) hleads
      isName_of_mem_apiLocation
      fun front target hfront => hbelow [] (hfront.trans (List.prefix_append _ _)) target
  have hrun := FileTree.writePages_cases hnames (fun left' there hleads file _ target => by
    rw [hthere hleads, List.append_assoc]
    exact hbelow file.1 List.prefix_rfl target) hwritten
  rcases hrun with ⟨hnone, rfl⟩ | ⟨left', there, hleads, hroom, rfl⟩
  · obtain ⟨others, hothers, hget⟩ := hstays later hkeep
    exact ⟨others, hothers, hmadeWell.get? hget, by simp [hnone]⟩
  · obtain rfl := hthere hleads
    obtain ⟨hput, hfaces⟩ := FileTree.putFiles_run hleads.isDirAt fun file hfile =>
      (hroom file hfile).takes
    obtain ⟨others, hothers, hget⟩ := hstays _ (hkeep.trans hput)
    refine ⟨others, hothers, (FileTree.wellFormed_putFiles hmadeWell hnames).get? hget, ?_⟩
    intro file hfile
    obtain ⟨content, hcontent⟩ := FileTree.faceAfter_of_mem hfile (top ++ apiLocation)
      (made.faceAt (top ++ apiLocation ++ [file.1]))
    have hopens : root.Opens (apiLocation ++ [file.1]) := by
      apply Path.opens_of_length
      · rw [List.forall_mem_append, List.forall_mem_singleton]
        exact ⟨isName_of_mem_apiLocation, hnames file hfile⟩
      · exact (FileTree.checkPath_eq_ok_iff.mp (hroom file hfile).check).2.2
    refine ⟨hopens, content, ?_⟩
    have hface := (hfaces _).trans hcontent
    rw [FileTree.faceAt_eq_file_iff, List.append_assoc, Node.get?_append, hget,
      Option.bind_some] at hface
    exact hface

end PageWriter

namespace FileTree

/-- Pages are found again: what was written to the usual place is listed as a document about an API,
unless the name of its container holds the marker of version control, and then it is not. -/
theorem documents_hold_page_iff (w : PageWriter) (t later : FileTree) (root : Path)
    (children : List (Bytes × Node)) (entries : List Entry) (generated : List Path)
    (hwell : t.top.WellFormed) (hdash : root.isDash = false)
    (hdir : t.linkStat root = .ok (.dir children))
    (hlinks : ∀ name front target, front <+: apiLocation ++ [name] →
      (Node.dir children).get? front ≠ some (.link target))
    (h : w.write t entries root.apiDocs = (later, .ok generated)) :
    generated.length = entries.length ∧
      ∀ (i : Nat) (e : Entry) (path : Path), entries[i]? = some e → generated[i]? = some path →
        ∀ kind, ⟨path, kind⟩ ∈ later.documents root ↔
          kind = .api ∧ ¬ gitMarker <:+: e.container.toList := by
  obtain ⟨others, hothers, hwell', hpages⟩ := PageWriter.page_in_place hwell hdir hlinks h
  obtain ⟨hgenerated, -⟩ := PageWriter.writeBy_eq_ok_iff.mp h
  refine ⟨by simp [hgenerated], ?_⟩
  intro i e path he hpath
  obtain ⟨name, hslash, hmarker, hfile⟩ := w.getElem?_filesBy_page .standard he
  obtain ⟨hopens, content, hcontent⟩ := hpages _ (List.mem_of_getElem? hfile)
  rw [hgenerated, List.getElem?_map, List.getElem?_map, hfile] at hpath
  have hpath : path = root.along (apiLocation ++ [pageName name]) := (Option.some.inj hpath).symm
  rw [hpath, ← hmarker]
  exact mem_documents_page_iff hdash hothers hwell' hslash hcontent hopens

theorem link_notMem_dir_lone {name : Bytes} (hname : Path.IsName name) (content : Bytes)
    (location : Location) (target : Path) :
    (Node.dir [(name, .file content)]).get? location ≠ some (.link target) := by
  intro hlink
  apply link_notMem_lone hname content (Bytes.ofString "r" :: location) target
  simpa [lone, Node.get?, Node.child?, Node.lookup_cons_ite] using hlink

theorem documents_hold_page_iff_lone :
    ∃ later, PageWriter.namingWriter.write (lone (Bytes.ofString "a.rb") [])
        [{ container := "a b" }] (Path.ofString "r").apiDocs =
          (later, .ok [.ofString "r/docs/api/a_b.md"]) ∧
      ⟨.ofString "r/docs/api/a_b.md", .api⟩ ∈ later.documents (.ofString "r") := by
  have hname : Path.IsName (Bytes.ofString "a.rb") := by constructor <;> decide
  have hok : (PageWriter.namingWriter.write (lone (Bytes.ofString "a.rb") [])
      [{ container := "a b" }] (Path.ofString "r").apiDocs).2 =
        .ok [.ofString "r/docs/api/a_b.md"] := by cbv
  generalize hrun : PageWriter.namingWriter.write _ _ _ = run at hok
  obtain ⟨later, generated⟩ := run
  subst hok
  refine ⟨later, rfl, ?_⟩
  apply ((documents_hold_page_iff PageWriter.namingWriter _ later (.ofString "r") _ _ _
    (wellFormed_lone hname []) (by decide) (linkStat_lone [])
    (fun _ front target _ => link_notMem_dir_lone hname [] front target) hrun).2 0 _ _ rfl rfl
    .api).mpr
  decide

def hosted : FileTree :=
  lone (Bytes.ofString "B.java") (Bytes.ofString "package a.github;\npublic class B {}\n")

theorem hosted_page_unlisted :
    hosted.isDir (.ofString "r") = true ∧
    (∀ location target, hosted.top.get? location ≠ some (.link target)) ∧
    ∃ later, PageWriter.namingWriter.write hosted
        (Registry.standard.extract hosted false (hosted.manifest (.ofString "r") [])).entries
        (Path.ofString "r").apiDocs = (later, .ok [.ofString "r/docs/api/a.github.B.md"]) ∧
      ⟨.ofString "r/docs/api/a.github.B.md", .api⟩ ∉ later.documents (.ofString "r") := by
  have hname : Path.IsName (Bytes.ofString "B.java") := by constructor <;> decide
  have hlanguage : Language.ofPath ⟨Bytes.ofString "B.java"⟩ = .java := by cbv
  have hmanifest := manifest_lone hname (Bytes.ofString "package a.github;\npublic class B {}\n")
    (by cbv) (by rw [hlanguage]; rfl)
  rw [hlanguage] at hmanifest
  have hok : (PageWriter.namingWriter.write hosted
      (Registry.standard.extract hosted false (hosted.manifest (.ofString "r") [])).entries
      (Path.ofString "r").apiDocs).2 = .ok [.ofString "r/docs/api/a.github.B.md"] := by
    rw [hosted, hmanifest]
    cbv
  generalize hrun : PageWriter.namingWriter.write _ _ _ = run at hok
  obtain ⟨later, generated⟩ := run
  subst hok
  refine ⟨by cbv, link_notMem_lone hname _, later, rfl, ?_⟩
  obtain ⟨others, hothers, hwell, hpages⟩ := PageWriter.page_in_place (wellFormed_lone hname _)
    (linkStat_lone _) (fun _ front target _ => link_notMem_dir_lone hname _ front target) hrun
  obtain ⟨hgenerated, -⟩ := PageWriter.writeBy_eq_ok_iff.mp hrun
  have hpath : Path.ofString "r/docs/api/a.github.B.md" =
      (Path.ofString "r").apiDocs.join ⟨pageName "a.github.B"⟩ := by cbv
  have hslash : '/' ∉ "a.github.B".toList := by decide
  have hmem : Path.ofString "r/docs/api/a.github.B.md" ∈ _ := hgenerated ▸ List.mem_singleton_self _
  rw [List.map_map] at hmem
  obtain ⟨file, hfile, hjoin⟩ := List.mem_map.mp hmem
  have hpage : file.1 = pageName "a.github.B" :=
    Path.join_injective (PageWriter.isName_of_mem_filesBy hfile) (isName_pageName hslash) _
      (hjoin.trans hpath)
  obtain ⟨hopens, content, hcontent⟩ := hpages file hfile
  rw [hpage] at hopens hcontent
  rw [hpath]
  intro hlisted
  exact ((mem_documents_page_iff (by decide) hothers hwell hslash hcontent hopens _).mp hlisted).2
    (by decide)

/-- The page of a class that was found in the tree itself is not found again, and none is from a root
that is called as standard input is spelled. -/
theorem not_documents_hold_page_hosted :
    (hosted.isDir (.ofString "r") = true ∧
      (∀ location target, hosted.top.get? location ≠ some (.link target)) ∧
      ∃ later, PageWriter.namingWriter.write hosted
          (Registry.standard.extract hosted false (hosted.manifest (.ofString "r") [])).entries
          (Path.ofString "r").apiDocs = (later, .ok [.ofString "r/docs/api/a.github.B.md"]) ∧
        ⟨.ofString "r/docs/api/a.github.B.md", .api⟩ ∉ later.documents (.ofString "r")) ∧
    (housed (Bytes.ofString "-") (Bytes.ofString "a.rb") []).isDir (.ofString "-/") = true ∧
      (∀ location target, (housed (Bytes.ofString "-") (Bytes.ofString "a.rb") []).top.get? location ≠
        some (.link target)) ∧
      ∃ later, PageWriter.namingWriter.write
          (housed (Bytes.ofString "-") (Bytes.ofString "a.rb") []) [{ container := "A" }]
          (Path.ofString "-/").apiDocs = (later, .ok [.ofString "-/docs/api/A.md"]) ∧
        later.documents (.ofString "-/") = [] := by
  have hdash : Path.IsName (Bytes.ofString "-") := by constructor <;> decide
  have hname : Path.IsName (Bytes.ofString "a.rb") := by constructor <;> decide
  have hok : (PageWriter.namingWriter.write (housed (Bytes.ofString "-") (Bytes.ofString "a.rb") [])
      [{ container := "A" }] (Path.ofString "-/").apiDocs).2 =
        .ok [.ofString "-/docs/api/A.md"] := by cbv
  exact ⟨hosted_page_unlisted, by cbv, link_notMem_housed hdash hname [],
    _, Prod.ext rfl hok, documents_of_isDash (by decide) _⟩

end FileTree

end ApiAtlas
