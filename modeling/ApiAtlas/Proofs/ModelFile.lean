import ApiAtlas.Commands
import ApiAtlas.Proofs.Wire

/-!
Model files. A report and the list of its entries are both written without loss, in either form, and
whichever of them a model file holds, the entries are read from it as they were.
-/
namespace ApiAtlas

open Json (Codec)

namespace Json

/-- Both written forms are read as the value, its objects in key order. -/
theorem ofText_written {v : Json} (h : v.Fits maxDepth) {text : String}
    (htext : text ∈ [v.pretty, v.compact]) : Codec.json.ofText text = .ok v.sorted := by
  have hread : readValue maxDepth text.toList = .ok (v.sorted, []) := by
    rcases List.mem_pair.mp htext with rfl | rfl
    · rw [pretty, String.toList_ofList, ← List.append_nil (prettyChars 0 v)]
      exact readValue_written h (.pretty 0) []
    · rw [compact, String.toList_ofList, ← List.append_nil (compactChars v)]
      exact readValue_written h .compact []
  exact Codec.ofText_of_read hread

end Json

theorem Report.toJson_eq_ok {r : Report} {v : Json} (h : Report.codec.toJson r = .ok v) :
    ∃ entries skipped, (Codec.list Entry.codec).toJson r.entries = .ok entries ∧
      (Codec.list .path).toJson r.skipped = .ok skipped ∧
      v = .obj [("api_model", entries), ("skipped", skipped)] := by
  obtain ⟨fields, hfields, hv⟩ := Json.bind_eq_ok_iff.mp h
  obtain ⟨entries, hentries, hfields⟩ := Json.bind_eq_ok_iff.mp hfields
  obtain ⟨rest, hrest, hfields⟩ := Json.bind_eq_ok_iff.mp hfields
  obtain ⟨skipped, hskipped, hrest⟩ := Json.bind_eq_ok_iff.mp hrest
  cases hrest
  cases hfields
  cases hv
  exact ⟨entries, skipped, hentries, hskipped, rfl⟩

namespace FileTree

variable {t : FileTree} {file : Path}

theorem loadModel_eq_ok {v : Json} (hfits : v.Fits Json.maxDepth) {entries : List Entry}
    (hmodel : Entry.ofModel v.sorted = .ok entries) {text : String}
    (htext : text ∈ [v.pretty, v.compact]) (hread : t.readText file = .ok text.toList) :
    t.loadModel file = .ok entries := by
  unfold loadModel
  rw [hread]
  simp only [String.ofList_toList, Json.ofText_written hfits htext, Except.bind, hmodel]

theorem loadModel_report {r : Report} {v : Json} (hv : Report.codec.toJson r = .ok v)
    {text : String} (htext : text ∈ [v.pretty, v.compact])
    (hread : t.readText file = .ok text.toList) : t.loadModel file = .ok r.entries := by
  have hfaithful : Report.codec.Faithful Json.maxDepth := (Report.readsBack 121).toFaithful
  apply loadModel_eq_ok (hfaithful.fits hv) ?_ htext hread
  obtain ⟨entries, skipped, -, -, rfl⟩ := Report.toJson_eq_ok hv
  have hback := hfaithful.ofJson_sorted hv
  rw [Json.sorted] at hback ⊢
  unfold Entry.ofModel Codec.ofValue
  simp only [hback]
  rfl

theorem loadModel_entries {entries : List Entry} {v : Json}
    (hv : (Codec.list Entry.codec).toJson entries = .ok v) {text : String}
    (htext : text ∈ [v.pretty, v.compact]) (hread : t.readText file = .ok text.toList) :
    t.loadModel file = .ok entries := by
  have hfaithful : (Codec.list Entry.codec).Faithful Json.maxDepth :=
    (Entry.readsBack_list 122).toFaithful
  apply loadModel_eq_ok (hfaithful.fits hv) ?_ htext hread
  have hback := hfaithful.ofJson_sorted hv
  obtain ⟨items, rfl, -⟩ := Codec.list_toJson_eq_ok hv
  rw [Json.sorted] at hback ⊢
  unfold Entry.ofModel Codec.ofValue
  simp only [hback]

end FileTree

end ApiAtlas
