import ApiAtlas.Proofs.FileTree.Confined
import ApiAtlas.Proofs.Rerun

/-!
Where the paths of pages are. Paths say the same if they have the same lead and the same parts but
for those that are void; by that measure what stands above a page is the directory it was put in,
however that is spelled. The name it has there is one part, whatever its container is called.
-/
namespace ApiAtlas

namespace Path

theorem dropVoidEnd_ne_void (parts : List Bytes) : dropVoidEnd parts ≠ [[]] := by
  intro h
  have hne : parts.rdropWhile isVoidPart ≠ [] := by
    change dropVoidEnd parts ≠ []
    simp [h]
  have hlast := List.rdropWhile_last_not isVoidPart parts hne
  simp only [show parts.rdropWhile isVoidPart = [[]] from h] at hlast
  exact hlast rfl

theorem filter_dropVoidEnd (parts : List Bytes) :
    (dropVoidEnd parts).filter (!isVoidPart ·) = parts.filter (!isVoidPart ·) := by
  induction parts using List.reverseRecOn with
  | nil => rfl
  | append_singleton front last ih =>
    rw [dropVoidEnd_concat]
    split
    · rename_i hvoid
      simp [ih, hvoid]
    · rfl

theorem lead_lead (p : Path) : lead ⟨p.lead⟩ = p.lead := by
  rcases p.lead_cases with ⟨hslash, -⟩ | ⟨-, hempty | ⟨hdot, -⟩⟩
  · rw [hslash]
    rfl
  · rw [hempty]
    rfl
  · rw [hdot]
    decide

theorem filter_splitSlash_joinSlash {parts : List Bytes} (h : ∀ part ∈ parts, slash ∉ part) :
    (splitSlash (joinSlash parts)).filter (!isVoidPart ·) = parts.filter (!isVoidPart ·) := by
  by_cases hnil : parts = []
  · rw [hnil]
    rfl
  · rw [splitSlash_joinSlash hnil h]

theorem joinSlash_dropVoidEnd_ne_nil {parts : List Bytes} (hslash : ∀ part ∈ parts, slash ∉ part)
    (h : dropVoidEnd parts ≠ []) : joinSlash (dropVoidEnd parts) ≠ [] := by
  intro hnil
  have hsplit := splitSlash_joinSlash h fun part hpart =>
    hslash part ((dropVoidEnd_isPrefix parts).subset hpart)
  rw [hnil] at hsplit
  exact dropVoidEnd_ne_void parts hsplit.symm

theorem lead_of_dropVoidEnd {first : Bytes} (hfirst : lead ⟨first⟩ = first) {parts more : List Bytes}
    (hslash : ∀ part ∈ parts, slash ∉ part) (hmore : more ≠ [])
    (hall : lead ⟨first ++ joinSlash (parts ++ more)⟩ = first) :
    lead ⟨first ++ joinSlash (dropVoidEnd parts)⟩ = first := by
  by_cases hnil : dropVoidEnd parts = []
  · rw [hnil]
    exact (congrArg (lead ⟨·⟩) (List.append_nil first)).trans hfirst
  · obtain ⟨void, hvoid⟩ := dropVoidEnd_isPrefix parts
    have hjoin : joinSlash (parts ++ more) =
        joinSlash (dropVoidEnd parts) ++ slash :: joinSlash (void ++ more) := by
      rw [← joinSlash_append hnil (List.append_ne_nil_of_right_ne_nil void hmore),
        ← List.append_assoc, hvoid]
    have hne : first ++ joinSlash (dropVoidEnd parts) ≠ [] :=
      List.append_ne_nil_of_right_ne_nil first (joinSlash_dropVoidEnd_ne_nil hslash hnil)
    rwa [hjoin, ← List.append_assoc, lead_append_slash hne] at hall

section

variable {name : Bytes} (hname : IsName name) (dir : Path)
include hname

theorem parent?_join : ∃ above, (dir.join ⟨name⟩).parent? = some above ∧
    above.components = dir.components := by
  obtain ⟨front, hparts, hfront⟩ := exists_parts_join (isPlain_name hname) dir
  rw [splitSlash_of_notMem hname.noSlash] at hparts
  have hkept : (dir.join ⟨name⟩).parts = front ++ [name] := by
    unfold parts
    rw [lead_join (isPlain_name hname), hparts, dropVoidEnd_concat, hname.not_isVoidPart]
    rfl
  have hparent : (dir.join ⟨name⟩).parent? =
      some ⟨dir.lead ++ joinSlash (dropVoidEnd front)⟩ := by
    obtain ⟨first, more, hall⟩ := List.exists_cons_of_ne_nil (List.concat_ne_nil name front)
    unfold parent?
    rw [hkept, hall]
    simp only
    rw [← hall, List.dropLast_concat, lead_join (isPlain_name hname)]
  have hslash (part : Bytes) (hpart : part ∈ front) : slash ∉ part :=
    noSlash_of_mem_splitSlash (hparts ▸ List.mem_append_left _ hpart)
  have hbytes : (dir.join ⟨name⟩).bytes = dir.lead ++ joinSlash (front ++ [name]) := by
    obtain ⟨rest, hrest⟩ := (dir.join ⟨name⟩).lead_isPrefix
    rw [lead_join (isPlain_name hname)] at hrest
    rw [← hparts, joinSlash_splitSlash, ← hrest, List.drop_left]
  have hlead : lead ⟨dir.lead ++ joinSlash (dropVoidEnd front)⟩ = dir.lead := by
    apply lead_of_dropVoidEnd dir.lead_lead hslash (List.cons_ne_nil name [])
    rw [← hbytes]
    exact lead_join (isPlain_name hname) dir
  refine ⟨_, hparent, ?_⟩
  unfold components at hfront ⊢
  simp only [hlead, List.drop_left]
  rw [filter_splitSlash_joinSlash fun part hpart =>
    hslash part ((dropVoidEnd_isPrefix front).subset hpart), filter_dropVoidEnd, hfront]

example : ((Path.ofString "./a/.//").join (.ofString "b.md")).parent? = some (.ofString "./a") := by
  decide

end

end Path

/-- A path right below a directory: one part more, which is the name of a page. -/
structure Path.IsPageIn (path dir : Path) : Prop where
  name : ∃ name, path = dir.join ⟨name⟩ ∧ IsName name ∧ IsPageName name ∧
    0x20 ∉ name ∧ 0x5C ∉ name ∧ Path.isAbsolute ⟨name⟩ = false ∧
      path.components = (dir.components.1, dir.components.2 ++ [name])
  /-- The name is put below the directory and does not take its place. -/
  isAbsolute : path.isAbsolute = dir.isAbsolute
  parent : ∃ above, path.parent? = some above ∧ above.components = dir.components

theorem Path.isPageIn_join (dir : Path) {name : String} (hslash : '/' ∉ name.toList)
    (hspace : ' ' ∉ name.toList) (hbackslash : '\\' ∉ name.toList) :
    (dir.join ⟨pageName name⟩).IsPageIn dir where
  name := ⟨pageName name, rfl, isName_pageName hslash, isPageName_pageName name,
    notMem_pageName (by decide) rfl (by decide) hspace,
    notMem_pageName (by decide) rfl (by decide) hbackslash, (isName_pageName hslash).not_isAbsolute,
    components_join (isName_pageName hslash) dir⟩
  isAbsolute := isAbsolute_join (isName_pageName hslash) dir
  parent := parent?_join (isName_pageName hslash) dir

namespace PageWriter

/-- Whatever the containers are called, all pages are in the directory itself. -/
theorem generated_isPageIn (w : PageWriter) (origins : Origins) (t later : FileTree)
    (entries : List Entry) (dir : Path) (generated : List Path)
    (h : w.writeBy origins t entries dir = (later, .ok generated)) :
    ∀ path ∈ generated, path.IsPageIn dir := by
  intro path hpath
  obtain ⟨hgenerated, -⟩ := writeBy_eq_ok h
  rw [hgenerated, map_fst_filesBy, List.map_map] at hpath
  obtain ⟨name, hname, rfl⟩ := List.mem_map.mp hpath
  exact dir.isPageIn_join (Collision.noSlash_names hname)
    (Collision.notMem_names hname (by decide)) (Collision.notMem_names hname (by decide))

def strayEntries : List Entry :=
  [{ container := "../x" }, { container := "/etc/x" }, { container := "..\\x" }, { container := "" }]

theorem generated_isPageIn_stray :
    ∃ later, namingWriter.writeBy blankOrigins .empty strayEntries (.ofString "./out//") =
        (later, .ok [.ofString "./out//.._x.md", .ofString "./out//_etc_x.md",
          .ofString "./out//.._x-00000000.md", .ofString "./out//.md"]) ∧
      (Path.ofString "./out//.._x-00000000.md").IsPageIn (.ofString "./out//") := by
  have hok : (namingWriter.writeBy blankOrigins .empty strayEntries (.ofString "./out//")).2 =
      .ok [.ofString "./out//.._x.md", .ofString "./out//_etc_x.md",
        .ofString "./out//.._x-00000000.md", .ofString "./out//.md"] := by cbv
  generalize hrun : namingWriter.writeBy blankOrigins .empty strayEntries (.ofString "./out//") =
    run at hok
  obtain ⟨later, generated⟩ := run
  subst hok
  exact ⟨later, rfl, generated_isPageIn namingWriter blankOrigins .empty later strayEntries _ _ hrun
    _ (by simp)⟩

end PageWriter

end ApiAtlas
