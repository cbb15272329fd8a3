import ApiAtlas.Proofs.Edits
import ApiAtlas.Proofs.ModelFile
import ApiAtlas.Proofs.Requests
import ApiAtlas.Proofs.Routes

/-!
Answers that are sent back. A manifest that a request was answered with is read as the manifest it
was written from, and so are the entries of a report. So a client that sends each answer back with
its next request gets what the service comes to by itself.
-/
namespace ApiAtlas

open Json (Codec Fields Record)

def givenParams (fields : List (String × Option Json)) : Option Json :=
  some (.obj (fields.filterMap fun (name, v?) => v?.map (name, ·)))

namespace Json.Codec

theorem option_ofJson {α : Type} {c : Codec α} (hnull : ∀ a, c.ofJson .null ≠ .ok a) {v : Json}
    {a : α} (h : c.ofJson v = .ok a) : (option c).ofJson v = .ok (some a) := by
  cases v with
  | null => exact absurd h (hnull a)
  | bool | num | str | arr | obj => exact bind_eq_ok_iff.mpr ⟨a, h, rfl⟩

theorem option_path_ofJson (s : String) :
    (option path).ofJson (.str s) = .ok (some (.ofString s)) := rfl

theorem list_path_toJson {paths : List Path} (h : ∀ p ∈ paths, p.toText?.isSome) :
    ∃ texts : List String, texts.map Path.ofString = paths ∧
      (list path).toJson paths = .ok (.arr (texts.map .str)) := by
  obtain ⟨v, hv⟩ := (writesText_path.list_map paths).mpr (by simpa using h)
  obtain ⟨vs, rfl, hvs⟩ := list_toJson_eq_ok hv
  obtain ⟨texts, htexts, rfl⟩ :
      ∃ texts : List String, texts.map Path.ofString = paths ∧ texts.map Json.str = vs := by
    clear h hv
    induction hvs with
    | nil => exact ⟨[], rfl, rfl⟩
    | cons hv hvs ih =>
      obtain ⟨text, rfl, rfl⟩ := path_toJson_eq_ok hv
      obtain ⟨texts, rfl, rfl⟩ := ih
      exact ⟨text :: texts, rfl, rfl⟩
  exact ⟨texts, htexts, hv⟩

end Json.Codec

section

variable (root? docsRoot? : Option String) {v : Json}

theorem decodeParams_root :
    decodeParams RootParams.codec {} (givenParams [("root", root?.map .str)]) =
      .ok { root? := root?.map .ofString } := by
  cases root? <;> rfl

theorem decodeParams_extractRoot :
    decodeParams ExtractParams.codec {} (givenParams [("root", root?.map .str)]) =
      .ok { root? := root?.map .ofString } := by
  cases root? <;> rfl

theorem decodeParams_manifest {m : Manifest}
    (h : (Codec.option Manifest.codec).ofJson v = .ok (some m)) :
    decodeParams ExtractParams.codec {} (givenParams [("manifest", some v)]) =
      .ok { manifest? := some m } := by
  simp [decodeParams, givenParams, Codec.ofValue, ExtractParams.codec, Record.codec,
    Json.Slots.empty, Fields.ofFields, Fields.assign, Fields.finish, Json.Presence.optional, h,
    bind, Except.bind, pure, Except.pure]

theorem decodeParams_render {entries : List Entry}
    (h : (Codec.option (.list Entry.codec)).ofJson v = .ok (some entries)) :
    decodeParams RenderParams.codec {} (givenParams [("api_model", some v),
        ("docs_root", docsRoot?.map .str), ("root", root?.map .str)]) =
      .ok { root? := root?.map .ofString, entries? := some entries,
            docsRoot? := docsRoot?.map .ofString } := by
  cases root? <;> cases docsRoot? <;>
    simp [decodeParams, givenParams, Codec.ofValue, RenderParams.codec, Record.codec,
      Json.Slots.empty, Fields.ofFields, Fields.assign, Fields.finish, Json.Presence.optional, h,
      Codec.option_path_ofJson, bind, Except.bind, pure, Except.pure]

end

theorem Registry.path_of_mem_extract {t : FileTree} {parallel : Bool} {m : Manifest} {p : Path}
    (h : p ∈ (standard.extract t parallel m).entries.map (·.file) ++
      (standard.extract t parallel m).skipped) : p ∈ m.sources.map (·.path) := by
  rw [extract_eq_concat, reportInTurn, Report.entries_concat, Report.skipped_concat,
    List.flatMap_map, List.flatMap_map] at h
  rcases List.mem_append.mp h with h | h
  · obtain ⟨e, he, rfl⟩ := List.mem_map.mp h
    obtain ⟨g, hg, he⟩ := List.mem_flatMap.mp he
    rw [reportGroup_standard t m g hg] at he
    obtain ⟨s, hs, he⟩ := List.mem_flatMap.mp he
    rw [Source.file_of_mem_yield he]
    exact List.mem_map_of_mem (List.mem_of_mem_filter hs)
  · obtain ⟨g, hg, hp⟩ := List.mem_flatMap.mp h
    rw [reportGroup_standard t m g hg] at hp
    obtain ⟨s, hs, rfl⟩ := List.mem_map.mp hp
    exact List.mem_map_of_mem (List.mem_of_mem_filter (List.mem_of_mem_filter hs))

theorem Report.answer {r : Report} {v : Json} (h : Report.codec.toJson r = .ok v) :
    ∃ fields model, v.sorted = .obj fields ∧ fields.lookup "api_model" = some model ∧
      (Codec.option (.list Entry.codec)).ofJson model = .ok (some r.entries) := by
  obtain ⟨entries, skipped, hentries, -, rfl⟩ := Report.toJson_eq_ok h
  refine ⟨[("api_model", entries.sorted), ("skipped", skipped.sorted)], entries.sorted, ?_, rfl, ?_⟩
  · have hless : ¬"skipped" < "api_model" := by decide
    have hne : ¬"skipped" = "api_model" := by decide
    simp only [Json.sorted, Json.sortedFields, Json.sortFields, List.foldl_cons, List.foldl_nil,
      Json.insertField, if_neg hless, if_neg hne]
  · have hread := (Entry.readsBack_list 122).toFaithful.ofJson_sorted hentries
    exact Codec.option_ofJson (by rintro _ ⟨⟩) hread

namespace Settings

variable {s : Settings} {t : FileTree}

theorem handle_buildManifest {params : Option Json} {p : RootParams} {v : Json}
    (hparams : decodeParams RootParams.codec {} params = .ok p)
    (hv : Manifest.codec.toJson (t.manifest (s.rootOr p.root?) s.exclude) = .ok v) :
    s.handle t .buildManifest params = (t, .done v.sorted) := by
  simp only [handle, hparams, bind, Except.bind, encodeAnswer, hv, Outcome.ofExcept]

theorem handle_extractApi {params : Option Json} {p : ExtractParams} {v : Json}
    (hparams : decodeParams ExtractParams.codec {} params = .ok p)
    (hv : Report.codec.toJson (s.report t p) = .ok v) :
    s.handle t .extractApi params = (t, .done v.sorted) := by
  simp only [handle, hparams, bind, Except.bind, encodeAnswer, hv, Outcome.ofExcept]

/-- A request for pages ends as the page writer of the settings does with the entries, and lists the
pages it wrote. -/
structure EndsAsWritten (s : Settings) (t : FileTree) (entries : List Entry) (dir : Path)
    (ended : FileTree × Outcome) : Prop where
  noWriter : ∀ e, s.pageWriter t = .error e → ended = (t, .failed e)
  failed : ∀ writer later e, s.pageWriter t = .ok writer →
    writer.write t entries dir = (later, .error e) → ended = (later, .failed e)
  written : ∀ writer later paths, s.pageWriter t = .ok writer →
    writer.write t entries dir = (later, .ok paths) →
    ended = (later, .ofList "generated_files" .path paths) ∧
      (dir.toText?.isSome → ∃ texts : List String, texts.map Path.ofString = paths ∧
        ended = (later, .done (.obj [("generated_files", .arr (texts.map .str))])))

theorem endsAsWritten_handle {params : Option Json} {p : RenderParams} {entries : List Entry}
    (hparams : decodeParams RenderParams.codec {} params = .ok p)
    (hentries : p.entries? = some entries) :
    s.EndsAsWritten t entries (s.pageDir p) (s.handle t .renderApiDocs params) where
  noWriter e he := by simp only [handle, hparams, render, he]
  failed writer later e hwriter hwrite := by
    simp only [handle, hparams, render, hwriter, hentries, Option.getD_some, hwrite]
  written writer later paths hwriter hwrite := by
    have hrender : s.render t p = (later, .ok paths) := by
      simp only [render, hwriter, hentries, Option.getD_some, hwrite]
    have hended : s.handle t .renderApiDocs params =
        (later, .ofList "generated_files" .path paths) := by
      simp only [handle, hparams, hrender]
    refine ⟨hended, fun hdir => ?_⟩
    obtain ⟨texts, htexts, hjson⟩ := Codec.list_path_toJson (text_of_render hdir hrender)
    refine ⟨texts, htexts, ?_⟩
    rw [hended, Outcome.ofList, hjson]
    simp only [Codec.sorted_of_paths hjson]

/-- A manifest that is sent back gives the same report as the root it was made for, and entries that
are sent back give the same pages as those of the report itself. -/
theorem sent_back_eq_direct (s : Settings) (t : FileTree) (root? : Option String) (m : Manifest)
    (hm : t.manifest (s.rootOr (root?.map .ofString)) s.exclude = m)
    (htext : ∀ p ∈ m.sources.map (·.path) ++ m.docDirs, p.toText?.isSome) :
    ∃ manifest fields model,
      s.handle t .buildManifest (givenParams [("root", root?.map .str)]) = (t, .done manifest) ∧
      s.handle t .extractApi (givenParams [("root", root?.map .str)]) = (t, .done (.obj fields)) ∧
      s.handle t .extractApi (givenParams [("manifest", some manifest)]) =
        (t, .done (.obj fields)) ∧
      fields.lookup "api_model" = some model ∧
      ∀ (now : FileTree) (docsRoot? pageRoot? : Option String),
        s.EndsAsWritten now (Registry.standard.extract t s.parallel m).entries
          (s.pageDir { root? := pageRoot?.map .ofString, docsRoot? := docsRoot?.map .ofString })
          (s.handle now .renderApiDocs (givenParams [("api_model", some model),
            ("docs_root", docsRoot?.map .str), ("root", pageRoot?.map .str)])) := by
  subst hm
  obtain ⟨v, hv⟩ := (Manifest.writesText _).mpr htext
  obtain ⟨w, hw⟩ := (Report.writesText (Registry.standard.extract t s.parallel
    (t.manifest (s.rootOr (root?.map .ofString)) s.exclude))).mpr fun p hp =>
      htext p (List.mem_append_left _ (Registry.path_of_mem_extract hp))
  obtain ⟨fields, model, hfields, hmodel, hread⟩ := Report.answer hw
  have hmanifest := Codec.option_ofJson (by rintro _ ⟨⟩)
    ((Manifest.readsBack 124).toFaithful.ofJson_sorted hv)
  refine ⟨v.sorted, fields, model, ?_, ?_, ?_, hmodel, ?_⟩
  · exact handle_buildManifest (decodeParams_root root?) hv
  · rw [← hfields]
    exact handle_extractApi (decodeParams_extractRoot root?) hw
  · rw [← hfields]
    exact handle_extractApi (decodeParams_manifest hmanifest) hw
  · intro now docsRoot? pageRoot?
    have hended := endsAsWritten_handle (s := s) (t := now)
      (decodeParams_render pageRoot? docsRoot? hread) rfl
    exact hended

end Settings

theorem FileTree.manifest_oneSource :
    oneSource.manifest (.ofString "r") [] = ⟨[⟨.ofString "r/a.rb", .ruby⟩], []⟩ := by
  have hname : Path.IsName (Bytes.ofString "a.rb") := by constructor <;> decide
  have hlanguage : Language.ofPath ⟨Bytes.ofString "a.rb"⟩ = .ruby := by cbv
  have hmanifest := FileTree.manifest_lone hname [] (by cbv) (by rw [hlanguage]; rfl)
  rw [hlanguage] at hmanifest
  exact hmanifest

theorem Settings.sent_back_eq_direct_oneSource :
    ∃ manifest fields model,
      ({} : Settings).handle .oneSource .buildManifest (givenParams [("root", some (.str "r"))]) =
        (.oneSource, .done manifest) ∧
      ({} : Settings).handle .oneSource .extractApi (givenParams [("manifest", some manifest)]) =
        (.oneSource, .done (.obj fields)) ∧
      fields.lookup "api_model" = some model ∧
      ({} : Settings).EndsAsWritten .oneSource [.ofOneSource] (.ofString "out")
        (({} : Settings).handle .oneSource .renderApiDocs
          (givenParams [("api_model", some model), ("docs_root", some (.str "out"))])) := by
  have htext : ∀ p ∈ [Path.ofString "r/a.rb"] ++ [], p.toText?.isSome := by
    simp [Path.isSome_toText?_ofString]
  obtain ⟨manifest, fields, model, hmanifest, -, hreport, hmodel, hended⟩ :=
    sent_back_eq_direct {} .oneSource (some "r") _ FileTree.manifest_oneSource htext
  have hended := hended .oneSource (some "out") none
  rw [← FileTree.manifest_oneSource] at hended
  have hentries : Registry.standard.extract .oneSource ({} : Settings).parallel
      (FileTree.oneSource.manifest (.ofString "r") []) = ⟨[.ofOneSource], []⟩ := extract_oneSource
  rw [hentries] at hended
  exact ⟨manifest, fields, model, hmanifest, hreport, hmodel, hended⟩

end ApiAtlas
