import ApiAtlas.Proofs.FileTree.Plus
import ApiAtlas.Proofs.Filling
import ApiAtlas.Proofs.ModelFile
import ApiAtlas.Proofs.Rerun

/-!
Two ways to the same pages: from a model that is extracted to a file and rendered from there, or
generated at once. The model comes back from its file as it was, and the file itself is not in the
way: it is no settings file, and pages that are written beside it are written without it. The
template has to be there beforehand, for the model file could be taken for one.
-/
namespace ApiAtlas

open Console (Theme)
open Json (Codec)

theorem Toml.read_brace (rest : List Char) : Toml.read ('\x7b' :: rest) = none := by
  have hspace : Toml.skipSpace ('\x7b' :: rest) = '\x7b' :: rest := by
    unfold Toml.skipSpace
    rw [List.dropWhile_cons_of_neg (by decide)]
  have hend : Toml.readLineEnd ('\x7b' :: rest) = none := by
    unfold Toml.readLineEnd
    rw [hspace]
    rfl
  have hkey : Toml.readKey ('\x7b' :: rest) = none := by
    have hsimple : Toml.readSimpleKey ('\x7b' :: rest) = none := by
      unfold Toml.readSimpleKey
      simp [List.takeWhile_cons_of_neg, Toml.isBare, Toml.isDigit]
    unfold Toml.readKey Toml.maxDepth
    rw [Toml.readPath, hspace, hsimple]
    rfl
  have hline (doc : Toml.Document) : Toml.readLine doc ('\x7b' :: rest) = none := by
    unfold Toml.readLine
    simp [hend, hkey]
  have hmark : ¬ ('\x7b' :: rest).head? = some '\ufeff' := by simp
  unfold Toml.read
  simp only [if_neg hmark]
  rw [Toml.readAllLines, hspace]
  simp [hline]

namespace FileTree

variable {t more : FileTree} {extra : Location} {content : Bytes}

theorem Plus.loadSettings (h : t.Plus more extra content)
    (hcontent : ∀ text, Utf8.decode content = some text → Settings.ofText text = none)
    {config? : Option Path} {loaded : Option Settings}
    (hmore : more.loadSettings config? = .ok loaded) : t.loadSettings config? = .ok loaded := by
  unfold FileTree.loadSettings at hmore ⊢
  simp only at hmore ⊢
  generalize config?.getD Settings.fileName = path at hmore ⊢
  cases hexists : t.pathExists path with
  | true =>
    obtain ⟨node, hstat⟩ := pathExists_iff.mp hexists
    obtain ⟨other, hother, -⟩ := h.stat hstat
    rw [pathExists_iff.mpr ⟨other, hother⟩, (h.readText_eq hexists).1] at hmore
    exact hmore
  | false =>
    cases hmore' : more.pathExists path with
    | false =>
      rw [hmore'] at hmore
      exact hmore
    | true =>
      obtain ⟨node, hstat⟩ := pathExists_iff.mp hmore'
      obtain rfl := h.eq_file_of_stat hexists hstat
      rw [hmore'] at hmore
      simp only [Bool.not_true, Bool.false_eq_true, if_false, readText, readBytes, hstat, bind,
        Except.bind, pure, Except.pure] at hmore
      cases hdecode : Utf8.decode content with
      | none => simp [hdecode, throw, throwThe, MonadExceptOf.throw] at hmore
      | some text => simp [hdecode, hcontent text hdecode] at hmore

end FileTree

theorem Settings.report_eq (s : Settings) (t : FileTree) (path? : Option Path) (parallel : Bool) :
    ((s.withRoot path?).withWorkers parallel).report t {} =
      Registry.standard.extract t false (t.manifest (s.withRoot path?).root s.exclude) :=
  Registry.extract_congr _ rfl (fun _ _ => rfl) _ _

namespace Invocation

variable {i : Invocation} {theme : Theme} {t later : FileTree} {input : Bytes} {told : Transcript}
  {notices : Notices} {path? template? : Option Path} {collision? : Option Collision}
  {parallel : Bool} {model out : Path}

theorem run_extract
    (h : { i with command := .extract path? (some model) parallel }.run theme t input notices =
      (later, told)) (hcode : told.code = 0) :
    ∃ loaded v, t.loadSettings i.config? = .ok loaded ∧
      Report.codec.toJson ((((loaded.getD {}).withRoot path?).withWorkers parallel).report t {}) =
        .ok v ∧
      t.writeFile model (Bytes.ofString v.pretty) = .ok later := by
  unfold Invocation.run at h
  simp only at h
  cases hloaded : t.loadSettings i.config? with
  | error e =>
    rw [hloaded] at h
    cases h
    cases hcode
  | ok loaded =>
    simp only [hloaded, Command.runExtract] at h
    split at h
    · cases h
      cases hcode
    · rename_i v hv
      split at h
      · cases h
        cases hcode
      · rename_i written hwritten
        cases h
        exact ⟨loaded, v, rfl, hv, hwritten⟩

theorem run_extract_of {loaded : Option Settings} {r : Report} {v : Json}
    (hi : i.command = .extract path? (some model) parallel)
    (hloaded : t.loadSettings i.config? = .ok loaded)
    (hr : Registry.standard.extract t false
      (t.manifest ((loaded.getD {}).withRoot path?).root (loaded.getD {}).exclude) = r)
    (hv : Report.codec.toJson r = .ok v)
    (hwritten : t.writeFile model (Bytes.ofString v.pretty) = .ok later) :
    ∃ told, i.run theme t input notices = (later, told) ∧ told.code = 0 := by
  have hreport := (loaded.getD {}).report_eq t path? parallel
  rw [hr] at hreport
  unfold Invocation.run
  simp only [hloaded, hi, Command.runExtract, hreport, hv, hwritten]
  exact ⟨_, rfl, by split <;> rfl⟩

theorem run_render
    (h : { i with command := .render model (some out) template? collision? }.run theme t input
      notices = (later, told)) (hcode : told.code = 0) :
    ∃ loaded entries w generated, t.loadSettings i.config? = .ok loaded ∧
      t.loadModel model = .ok entries ∧
      ((loaded.getD {}).withPages (some out) template? collision?).pageWriter t = .ok w ∧
      w.write t entries out = (later, .ok generated) ∧
      (i.json = true → ∃ v, (Codec.list .path).toJson generated = .ok v ∧
        told.out = [.text (Json.obj [("generated_files", v.sorted)]).pretty]) := by
  unfold Invocation.run at h
  simp only at h
  cases hloaded : t.loadSettings i.config? with
  | error e =>
    rw [hloaded] at h
    cases h
    cases hcode
  | ok loaded =>
    simp only [hloaded, Command.runRender] at h
    cases hmodel : t.loadModel model with
    | error f =>
      rw [hmodel] at h
      cases h
      cases hcode
    | ok entries =>
      simp only [hmodel] at h
      unfold Settings.render at h
      cases hwriter : ((loaded.getD {}).withPages (some out) template? collision?).pageWriter t with
      | error e =>
        rw [hwriter] at h
        cases h
        cases hcode
      | ok w =>
        have hdir : ((loaded.getD {}).withPages (some out) template? collision?).pageDir
            { entries? := some entries } = out := rfl
        simp only [hwriter, Option.getD_some, hdir] at h
        rcases hwrite : w.write t entries out with ⟨written, e | generated⟩
        · rw [hwrite] at h
          cases h
          cases hcode
        · simp only [hwrite] at h
          refine ⟨loaded, entries, w, generated, rfl, rfl, hwriter, ?_⟩
          cases hjson : i.json with
          | false =>
            rw [hjson] at h
            cases h
            exact ⟨hwrite, fun hfalse => by cases hfalse⟩
          | true =>
            simp only [hjson, if_true, Outcome.ofList] at h
            cases hlist : (Codec.list .path).toJson generated with
            | error reason =>
              rw [hlist] at h
              cases h
              cases hcode
            | ok v =>
              rw [hlist] at h
              cases h
              exact ⟨hwrite, fun _ => ⟨v, rfl, rfl⟩⟩

theorem run_render_of {loaded : Option Settings} {entries : List Entry} {w : PageWriter}
    {generated : List Path} (hi : i.command = .render model (some out) template? collision?)
    (hloaded : t.loadSettings i.config? = .ok loaded) (hmodel : t.loadModel model = .ok entries)
    (hwriter : ((loaded.getD {}).withPages (some out) template? collision?).pageWriter t = .ok w)
    (hwrite : w.write t entries out = (later, .ok generated))
    (htext : ∀ p ∈ generated, p.toText?.isSome) :
    ∃ told, i.run theme t input notices = (later, told) ∧ told.code = 0 := by
  have hdir : ((loaded.getD {}).withPages (some out) template? collision?).pageDir
      { entries? := some entries } = out := rfl
  obtain ⟨listed, hlisted⟩ := (Codec.writesText_path.list generated).mpr (by simpa using htext)
  unfold Invocation.run
  simp only [hloaded, hi, Command.runRender, hmodel, Settings.render, hwriter, Option.getD_some, hdir,
    hwrite, Outcome.ofList, hlisted]
  split
  · exact ⟨_, rfl, rfl⟩
  · exact ⟨_, rfl, rfl⟩

theorem run_generate_of_missing {loaded : Option Settings} {path : Path}
    (hi : i.command = .generate path? (some out) template? collision? parallel)
    (hloaded : t.loadSettings i.config? = .ok loaded)
    (htemplate : template?.or (loaded.getD {}).template? = some path)
    (hmissing : t.isFile path = false) :
    i.run theme t input notices = (t, (Failure.ofError (.templateMissing path)).transcript) := by
  have hwriter : ((((loaded.getD {}).withRoot path?).withPages (some out) template?
      collision?).withWorkers parallel).pageWriter t = .error (.templateMissing path) := by
    unfold Settings.pageWriter Settings.withWorkers Settings.withPages Settings.withRoot
    simp only [htemplate, FileTree.template, hmissing]
    rfl
  unfold Invocation.run
  simp only [hloaded, hi, Command.runGenerate, hwriter]

theorem run_generate {loaded : Option Settings} {w : PageWriter} {generated : List Path}
    {skipped : Json} (hloaded : t.loadSettings i.config? = .ok loaded)
    (hwriter : ((loaded.getD {}).withPages (some out) template? collision?).pageWriter t = .ok w)
    {m : Manifest} {r : Report}
    (hm : t.manifest ((loaded.getD {}).withRoot path?).root (loaded.getD {}).exclude = m)
    (hr : Registry.standard.extract t false m = r)
    (hwrite : w.write t r.entries out = (later, .ok generated))
    (hskipped : (Codec.list .path).toJson r.skipped = .ok skipped)
    (hgenerated : i.json = true → ∃ v, (Codec.list .path).toJson generated = .ok v) :
    ∃ told, { i with command := .generate path? (some out) template? collision? parallel }.run
        theme t input notices = (later, told) ∧ told.code = 0 ∧
      (i.json = true → ∀ v, (Codec.list .path).toJson generated = .ok v →
        told.out = [.text (Json.obj [("containers", .nat r.entries.length), ("generated_files", v),
          ("skipped", skipped), ("sources", .nat m.sources.length)]).pretty]) := by
  have hwriter' : ((((loaded.getD {}).withRoot path?).withPages (some out) template?
      collision?).withWorkers parallel).pageWriter t = .ok w := hwriter
  have hmanifest : t.manifest ((((loaded.getD {}).withRoot path?).withPages (some out) template?
      collision?).withWorkers parallel).root ((((loaded.getD {}).withRoot path?).withPages
        (some out) template? collision?).withWorkers parallel).exclude = m := hm
  have hreport (parallel : Bool) : Registry.standard.extract t parallel m = r := by
    rw [← hr]
    exact Registry.extract_congr _ rfl (fun _ _ => rfl) _ _
  have hdir : ((((loaded.getD {}).withRoot path?).withPages (some out) template?
      collision?).withWorkers parallel).docsRoot = out := rfl
  unfold Invocation.run
  simp only [hloaded]
  unfold Command.runGenerate
  simp only [hwriter', hmanifest, hreport, hdir, hwrite]
  cases hjson : i.json with
  | false => exact ⟨_, rfl, rfl, fun hfalse => by cases hfalse⟩
  | true =>
    obtain ⟨v, hv⟩ := hgenerated hjson
    have htotals : Command.totals m r generated = .ok (.obj
        [("containers", .nat r.entries.length), ("generated_files", v), ("skipped", skipped),
          ("sources", .nat m.sources.length)]) := by
      unfold Command.totals
      rw [hv, hskipped]
      rfl
    simp only [if_true, htotals]
    refine ⟨_, rfl, rfl, fun _ other hother => ?_⟩
    rw [hv] at hother
    cases hother
    rfl

end Invocation

theorem pageWriter_of_plus {t more : FileTree} {extra : Location} {content : Bytes}
    (h : t.Plus more extra content) {s : Settings} {w : PageWriter}
    (htemplate : ∀ path, s.template? = some path → t.pathExists path = true)
    (hwriter : s.pageWriter more = .ok w) : s.pageWriter t = .ok w := by
  unfold Settings.pageWriter at hwriter ⊢
  cases hpath : s.template? with
  | none =>
    rw [hpath] at hwriter
    exact hwriter
  | some path =>
    simp only [hpath] at hwriter ⊢
    rw [← h.template_eq (htemplate path hpath)]
    exact hwriter

theorem ofText_report {r : Report} {v : Json} (h : Report.codec.toJson r = .ok v) {text : List Char}
    (htext : Utf8.decode (Bytes.ofString v.pretty) = some text) : Settings.ofText text = none := by
  obtain ⟨entries, skipped, -, -, rfl⟩ := Report.toJson_eq_ok h
  obtain ⟨close, -, hpretty⟩ :=
    Json.prettyChars_obj 0 [("api_model", entries), ("skipped", skipped)]
  unfold Bytes.ofString at htext
  rw [Utf8.decode_encode, Json.pretty, String.toList_ofList, hpretty] at htext
  rw [← Option.some.inj htext, Settings.ofText, List.cons_append, Toml.read_brace]
  rfl

/-- Pages by way of a model file and pages made at once are the same. -/
theorem Invocation.extract_render_agrees_generate (i : Invocation) (theme : Theme) (input : Bytes)
    (notices : Notices) (path? template? : Option Path) (collision? : Option Collision)
    (parallel parallel' : Bool) (model out : Path) (t between after : FileTree)
    (told told' : Transcript)
    (hwell : t.top.WellFormed) (hfresh : t.pathExists model = false)
    (hextract : { i with command := .extract path? (some model) parallel }.run theme t input notices =
      (between, told)) (hcode : told.code = 0)
    (hrender : { i with command := .render model (some out) template? collision? }.run theme between
      input notices = (after, told')) (hcode' : told'.code = 0)
    (htemplate : ∀ loaded path, t.loadSettings i.config? = .ok loaded →
      template?.or (loaded.getD {}).template? = some path → t.pathExists path = true)
    (hlinks : ∀ there node, after.place out = .ok (.node there node) →
      ∀ name target, t.top.get? (there ++ [name]) ≠ some (.link target))
    (houtside : ∀ there node location file, after.place out = .ok (.node there node) →
      between.resolve .look model = .ok (.node location file) → ¬ there <+: location) :
    (∃ (direct : FileTree) (told'' : Transcript) (w : PageWriter) (entries : List Entry)
      (generated : List Path),
      { i with command := .generate path? (some out) template? collision? parallel' }.run theme t
        input notices = (direct, told'') ∧ told''.code = 0 ∧
      w.write between entries out = (after, .ok generated) ∧
      w.write t entries out = (direct, .ok generated) ∧
      (∀ there node, after.place out = .ok (.node there node) ↔
        direct.place out = .ok (.node there node)) ∧
      (i.json = true → ∃ (listed skipped : Json) (containers sources : Nat),
        told'.out = [.text (Json.obj [("generated_files", listed)]).pretty] ∧
        told''.out = [.text (Json.obj [("containers", .nat containers),
          ("generated_files", listed), ("skipped", skipped), ("sources", .nat sources)]).pretty])) ∧
    ∀ (r : Report) (whole : Json), Report.codec.toJson r = .ok whole →
      ∃ entries skipped, whole = .obj [("api_model", entries), ("skipped", skipped)] ∧
        ∀ v ∈ [whole, entries], ∀ text ∈ [v.pretty, v.compact], ∀ (tree : FileTree) (file : Path),
          tree.readText file = .ok text.toList → tree.loadModel file = .ok r.entries := by
  constructor
  · obtain ⟨loaded, v, hloaded, hv, hwritten⟩ := Invocation.run_extract hextract hcode
    obtain ⟨dir, name, hname, hbetween, hplus, hresolve⟩ :=
      FileTree.plus_writeFile hfresh hwritten
    obtain ⟨loaded', entries, w, generated, hloaded', hmodel, hwriter, hwrite, hprinted⟩ :=
      Invocation.run_render hrender hcode'
    -- The model file is no settings file, so both commands ran under the same settings.
    have hsame := hplus.loadSettings (fun text => ofText_report hv) hloaded'
    rw [hloaded] at hsame
    cases hsame
    -- The entries come back from the file as they were.
    have hread : between.readText model = .ok v.pretty.toList := by
      unfold FileTree.readText FileTree.readBytes
      rw [FileTree.stat_eq_ok_iff.mpr ⟨_, hresolve⟩]
      simp [bind, Except.bind, pure, Except.pure, Bytes.ofString]
    have hentries := FileTree.loadModel_report hv List.mem_cons_self hread
    rw [hmodel] at hentries
    cases hentries
    rw [Settings.report_eq] at hv hwrite
    obtain ⟨-, skipped, -, hskipped, -⟩ := Report.toJson_eq_ok hv
    -- What was written beside the model file is written without it too.
    have hplace {left : Nat} {there : Location} (hleads : after.LeadsTo out left there) :
        ∃ node, after.place out = .ok (.node there node) := hleads.place_eq
    obtain ⟨direct, hdirect, hplus', hafter, hwell'⟩ := hplus.writeBy hwrite
      (fun left there hleads => by
        obtain ⟨node, hnode⟩ := hplace hleads
        exact hlinks there node hnode)
      (fun left there hleads => by
        obtain ⟨node, hnode⟩ := hplace hleads
        exact houtside there node _ _ hnode hresolve)
    have hbetweenWell : between.top.WellFormed := by
      rw [hbetween]
      exact hwell.put (Node.wellFormed_file _) dir hname
    obtain ⟨told'', hgenerate, hcode'', hprinted'⟩ := Invocation.run_generate hloaded
      (pageWriter_of_plus hplus (fun path => htemplate loaded path hloaded) hwriter) rfl rfl hdirect
      hskipped fun hjson => (hprinted hjson).imp fun _ hlisted => hlisted.1
    refine ⟨direct, told'', w, _, generated, hgenerate, hcode'', hwrite, hdirect, ?_, ?_⟩
    · intro there node
      constructor
      · intro hnode
        exact (hplus'.place_iff (hwell' hwell) (hafter hbetweenWell)
          (houtside there node _ _ hnode hresolve)).mp hnode
      · intro hnode
        obtain ⟨⟨left, hleads⟩, -⟩ := FileTree.place_eq_ok_iff.mp hnode
        obtain ⟨other, hother⟩ := hplace (hplus'.leadsTo_iff.mpr hleads)
        exact (hplus'.place_iff (hwell' hwell) (hafter hbetweenWell)
          (houtside there other _ _ hother hresolve)).mpr hnode
    · intro hjson
      obtain ⟨listed, hlisted, hout⟩ := hprinted hjson
      rw [Codec.sorted_of_paths hlisted] at hout
      exact ⟨listed, skipped, _, _, hout, hprinted' hjson listed hlisted⟩
  · intro r whole hwhole
    obtain ⟨entries, skipped, hentries, -, rfl⟩ := Report.toJson_eq_ok hwhole
    refine ⟨entries, skipped, rfl, ?_⟩
    intro v hv text htext tree file hread
    rcases List.mem_pair.mp hv with rfl | rfl
    · exact FileTree.loadModel_report hwhole htext hread
    · exact FileTree.loadModel_entries hentries htext hread

def FileTree.oneSource : FileTree := .lone (Bytes.ofString "a.rb") []

def FileTree.oneSourceWith (content : Bytes) : FileTree where
  top := .dir [(Bytes.ofString "m.json", .file content),
    (Bytes.ofString "r", .dir [(Bytes.ofString "a.rb", .file [])])]
  workingDir := []

def Entry.ofOneSource : Entry where
  file := .ofString "r/a.rb"
  language := .ruby
  container := "a.rb"
  kind := .file

def Invocation.asking (command : Command) : Invocation :=
  { verbose := false, json := true, config? := none, command }

theorem extract_oneSource :
    Registry.standard.extract .oneSource false (FileTree.oneSource.manifest (.ofString "r") []) =
      ⟨[.ofOneSource], []⟩ := by
  have hname : Path.IsName (Bytes.ofString "a.rb") := by constructor <;> decide
  have hlanguage : Language.ofPath ⟨Bytes.ofString "a.rb"⟩ = .ruby := by cbv
  have hmanifest := FileTree.manifest_lone hname [] (by cbv) (by rw [hlanguage]; rfl)
  rw [hlanguage] at hmanifest
  rw [FileTree.oneSource, hmanifest]
  cbv

theorem loadSettings_oneSource : FileTree.oneSource.loadSettings none = .ok none := by cbv

theorem run_extract_oneSource : ∃ v told, Report.codec.toJson ⟨[.ofOneSource], []⟩ = .ok v ∧
    (Invocation.asking (.extract (some (.ofString "r")) (some (.ofString "m.json")) false)).run
      .plain .oneSource [] = (.oneSourceWith (Bytes.ofString v.pretty), told) ∧ told.code = 0 := by
  have hwrite (content : Bytes) : FileTree.oneSource.writeFile (.ofString "m.json") content =
      .ok (.oneSourceWith content) := by cbv
  cases hv : Report.codec.toJson ⟨[.ofOneSource], []⟩ with
  | error e =>
    have hok : (Report.codec.toJson ⟨[.ofOneSource], []⟩).isOk = true := by cbv
    rw [hv] at hok
    cases hok
  | ok v =>
    have hrun : ∃ told, (Invocation.asking (.extract (some (.ofString "r"))
        (some (.ofString "m.json")) false)).run .plain .oneSource [] =
          (.oneSourceWith (Bytes.ofString v.pretty), told) ∧ told.code = 0 :=
      Invocation.run_extract_of rfl loadSettings_oneSource extract_oneSource hv (hwrite _)
    obtain ⟨told, hrun⟩ := hrun
    exact ⟨v, told, rfl, hrun⟩

theorem readBytes_oneSourceWith (content : Bytes) :
    (FileTree.oneSourceWith content).readBytes (.ofString "m.json") = .ok content := by cbv

theorem resolve_oneSourceWith (content : Bytes) :
    (FileTree.oneSourceWith content).resolve .look (.ofString "m.json") =
      .ok (.node [Bytes.ofString "m.json"] (.file content)) := by cbv

theorem run_render_oneSource {content : Bytes}
    (hmodel : (FileTree.oneSourceWith content).loadModel (.ofString "m.json") =
      .ok [.ofOneSource]) :
    ∃ later told, (Invocation.asking
        (.render (.ofString "m.json") (some (.ofString "out")) none none)).run .plain
          (.oneSourceWith content) [] = (later, told) ∧ told.code = 0 := by
  have hloaded : (FileTree.oneSourceWith content).loadSettings none = .ok none := by cbv
  have hok : (({} : PageWriter).write (.oneSourceWith content) [.ofOneSource]
      (.ofString "out")).2 = .ok [.ofString "out/a.rb.md"] := by cbv
  rcases hrun : ({} : PageWriter).write (.oneSourceWith content) [.ofOneSource] (.ofString "out")
    with ⟨later, result⟩
  rw [hrun] at hok
  subst hok
  have hwriter : ((({} : Settings).withPages (some (.ofString "out")) none none).pageWriter
      (.oneSourceWith content)) = .ok {} := rfl
  exact ⟨later, Invocation.run_render_of rfl hloaded hmodel hwriter hrun
    (List.forall_mem_singleton.mpr (Path.isSome_toText?_ofString _))⟩

theorem place_oneSource {content : Bytes} {w : PageWriter} {entries : List Entry} {later : FileTree}
    {generated : List Path} (h : w.write (.oneSourceWith content) entries (.ofString "out") =
      (later, .ok generated)) {there : Location} {node : Node}
    (hplace : later.place (.ofString "out") = .ok (.node there node)) :
    there = [Bytes.ofString "out"] := by
  obtain ⟨-, made, hmade, hwritten⟩ := PageWriter.writeBy_eq_ok_iff.mp h
  have hmadePlace : ((FileTree.oneSourceWith content).makeDirs (.ofString "out")).1.place
      (.ofString "out") = .ok (.node [Bytes.ofString "out"] (.dir [])) := by cbv
  have hkeep := made.keeps_writePages ((w.filesBy .standard entries).map
    (Page.within (.ofString "out")))
  rw [hmade] at hmadePlace
  rw [hwritten] at hkeep
  obtain ⟨⟨left, hleads⟩, -⟩ := FileTree.place_eq_ok_iff.mp hmadePlace
  obtain ⟨⟨left', hleads'⟩, -⟩ := FileTree.place_eq_ok_iff.mp hplace
  exact hleads'.there_eq (FileTree.LeadsTo.keep hkeep hleads)

theorem Invocation.extract_render_agrees_generate_oneSource :
    ∃ between told after told' direct told'',
      (asking (.extract (some (.ofString "r")) (some (.ofString "m.json")) false)).run .plain
        .oneSource [] = (between, told) ∧ told.code = 0 ∧
      (asking (.render (.ofString "m.json") (some (.ofString "out")) none none)).run .plain between
        [] = (after, told') ∧ told'.code = 0 ∧
      (asking (.generate (some (.ofString "r")) (some (.ofString "out")) none none true)).run .plain
        .oneSource [] = (direct, told'') ∧ told''.code = 0 ∧
      ∀ there node, after.place (.ofString "out") = .ok (.node there node) ↔
        direct.place (.ofString "out") = .ok (.node there node) := by
  obtain ⟨v, told, hv, hextract, hcode⟩ := run_extract_oneSource
  have hread : (FileTree.oneSourceWith (Bytes.ofString v.pretty)).readText (.ofString "m.json") =
      .ok v.pretty.toList := by
    unfold FileTree.readText
    rw [readBytes_oneSourceWith]
    simp [bind, Except.bind, pure, Except.pure, Bytes.ofString]
  obtain ⟨after, told', hrender, hcode'⟩ :=
    run_render_oneSource (FileTree.loadModel_report hv List.mem_cons_self hread)
  have hname : Path.IsName (Bytes.ofString "a.rb") := by constructor <;> decide
  obtain ⟨_, _, _, _, -, -, -, hwritten, -⟩ := run_render (i := asking .serve) hrender hcode'
  obtain ⟨⟨direct, told'', w, entries, generated, hgenerate, hcode'', hwrite, -, hsame, -⟩, -⟩ :=
    extract_render_agrees_generate (asking .serve) .plain [] (fun _ => "task panicked")
      (some (.ofString "r")) none none false true (.ofString "m.json") (.ofString "out") .oneSource _
      after told told' (FileTree.wellFormed_lone hname []) (by cbv) hextract hcode hrender hcode'
      (fun loaded path hloaded hpath => by
        cases hloaded.symm.trans loadSettings_oneSource
        cases hpath)
      (fun there _ _ name target => FileTree.link_notMem_lone hname [] (there ++ [name]) target)
      (fun there node location file hplace hfile => by
        rw [place_oneSource hwritten hplace]
        rw [resolve_oneSourceWith] at hfile
        cases hfile
        decide)
  exact ⟨_, told, after, told', direct, told'', hextract, hcode, hrender, hcode', hgenerate,
    hcode'', hsame⟩

def templateName : String :=
  "\x7b\x7bCONTAINER_KIND\x7d\x7d\x7b\x7bCONTAINER\x7d\x7d\x7b\x7bLANGUAGE\x7d\x7d" ++
    "\x7b\x7bSUMMARY\x7d\x7d\x7b\x7bMEMBERS_SECTION\x7d\x7d.rb"

theorem isName_templateName : Path.IsName (Bytes.ofString templateName) := by
  constructor <;> decide

def Entry.ofTemplateName : Entry where
  file := (Path.ofString "r").join (.ofString templateName)
  language := .ruby
  container := templateName
  kind := .file

def Json.ofTemplateName : Json :=
  .obj [("file", .str ("r/" ++ templateName)), ("language", .str "ruby"),
    ("container", .str templateName), ("container_kind", .str "file"), ("summary", .str ""),
    ("members", .arr [])]

theorem toJson_templateName : Report.codec.toJson ⟨[.ofTemplateName], []⟩ =
    .ok (.obj [("api_model", .arr [.ofTemplateName]), ("skipped", .arr [])]) := by cbv

theorem infix_written_templateName {text : List Char}
    (h : Json.Written (.obj [("api_model", .arr [.ofTemplateName]), ("skipped", .arr [])]) text) :
    templateName.toList <:+: text := by
  obtain ⟨entries, hentries, htext⟩ := h.exists_infix_obj List.mem_cons_self
  obtain ⟨entry, hentry, hitem⟩ := hentries.exists_infix_arr List.mem_cons_self
  obtain ⟨container, hcontainer, hfield⟩ := hentry.exists_infix_obj
    (List.mem_cons_of_mem _ (List.mem_cons_of_mem _ List.mem_cons_self))
  rw [hcontainer.eq_quoted] at hfield
  have hquoted : templateName.toList <:+:
      '"' :: (templateName.toList.flatMap Json.escapeChar ++ ['"']) := by decide
  exact ((hquoted.trans hfield).trans hitem).trans htext

namespace FileTree

def templateNamed : FileTree := .lone (Bytes.ofString templateName) []

def templateNamedWith (content : Bytes) : FileTree where
  top := .dir [(Bytes.ofString "m.json", .file content),
    (Bytes.ofString "r", .dir [(Bytes.ofString templateName, .file [])])]
  workingDir := []

theorem extract_templateNamed :
    Registry.standard.extract templateNamed false (templateNamed.manifest (.ofString "r") []) =
      ⟨[.ofTemplateName], []⟩ := by
  have hlanguage : Language.ofPath ⟨Bytes.ofString templateName⟩ = .ruby := by cbv
  have hmanifest := manifest_lone isName_templateName [] (by cbv) (by rw [hlanguage]; rfl)
  rw [hlanguage] at hmanifest
  rw [templateNamed, hmanifest]
  cbv

theorem readText_templateNamedWith (text : String) :
    (templateNamedWith (Bytes.ofString text)).readText (.ofString "m.json") = .ok text.toList := by
  have hread (content : Bytes) :
      (templateNamedWith content).readBytes (.ofString "m.json") = .ok content := by cbv
  unfold readText
  rw [hread]
  simp [bind, Except.bind, pure, Except.pure, Bytes.ofString]

theorem template_templateNamedWith {text : String} (h : templateName.toList <:+: text.toList) :
    (templateNamedWith (Bytes.ofString text)).template (.ofString "m.json") =
      .ok ⟨text.toList⟩ := by
  have hfile (content : Bytes) :
      (templateNamedWith content).isFile (.ofString "m.json") = true := by cbv
  have htokens (p : Placeholder) : p.token.toList <:+: text.toList := by
    have hname : p.token.toList <:+: templateName.toList := by cases p <;> decide
    exact hname.trans h
  unfold template
  simp [hfile, readText_templateNamedWith, Template.ofText_eq_ok_iff.mpr ⟨rfl, htokens⟩]

theorem exists_write_templateNamedWith (template : Template) (content : Bytes) :
    ∃ later, ({ template } : PageWriter).write (templateNamedWith content) [.ofTemplateName]
      (.ofString "out") =
        (later, .ok [(Path.ofString "out").join (.ofString (templateName ++ ".md"))]) := by
  have hok : (({ template } : PageWriter).write (templateNamedWith content) [.ofTemplateName]
      (.ofString "out")).2 =
        .ok [(Path.ofString "out").join (.ofString (templateName ++ ".md"))] := by cbv
  rcases hrun : ({ template } : PageWriter).write (templateNamedWith content) [.ofTemplateName]
    (.ofString "out") with ⟨later, result⟩
  rw [hrun] at hok
  subst hok
  exact ⟨later, rfl⟩

end FileTree

/-- A template that is the model file itself is there for the pages by way of the file, and is
missing where they are made at once. -/
theorem Invocation.not_extract_render_agrees_generate_templateNamed :
    (∀ location target, FileTree.templateNamed.top.get? location ≠ some (.link target)) ∧
    FileTree.templateNamed.pathExists (.ofString "m.json") = false ∧
    ∃ between told after told',
      (asking (.extract (some (.ofString "r")) (some (.ofString "m.json")) false)).run .plain
        .templateNamed [] = (between, told) ∧ told.code = 0 ∧
      (asking (.render (.ofString "m.json") (some (.ofString "out")) (some (.ofString "m.json"))
        none)).run .plain between [] = (after, told') ∧ told'.code = 0 ∧
      (asking (.generate (some (.ofString "r")) (some (.ofString "out"))
        (some (.ofString "m.json")) none false)).run .plain .templateNamed [] =
          (.templateNamed, (Failure.ofError (.templateMissing (.ofString "m.json"))).transcript) := by
  have hfresh : FileTree.templateNamed.pathExists (.ofString "m.json") = false := by cbv
  have hmissing : FileTree.templateNamed.isFile (.ofString "m.json") = false := by cbv
  have hloaded : FileTree.templateNamed.loadSettings none = .ok none := by cbv
  have hloaded' (content : Bytes) :
      (FileTree.templateNamedWith content).loadSettings none = .ok none := by cbv
  have hwrite (content : Bytes) : FileTree.templateNamed.writeFile (.ofString "m.json") content =
      .ok (.templateNamedWith content) := by cbv
  obtain ⟨v, hv, hname⟩ : ∃ v, Report.codec.toJson ⟨[.ofTemplateName], []⟩ = .ok v ∧
      templateName.toList <:+: v.pretty.toList := by
    refine ⟨_, toJson_templateName, infix_written_templateName ?_⟩
    rw [Json.pretty, String.toList_ofList]
    exact .pretty 0
  have hextract : ∃ told, (asking (.extract (some (.ofString "r")) (some (.ofString "m.json"))
      false)).run .plain .templateNamed [] =
        (.templateNamedWith (Bytes.ofString v.pretty), told) ∧ told.code = 0 :=
    run_extract_of rfl hloaded FileTree.extract_templateNamed hv (hwrite _)
  have hmodel := FileTree.loadModel_report hv List.mem_cons_self
    (FileTree.readText_templateNamedWith v.pretty)
  have hwriter : (({} : Settings).withPages (some (.ofString "out")) (some (.ofString "m.json"))
      none).pageWriter (.templateNamedWith (Bytes.ofString v.pretty)) =
        .ok { template := ⟨v.pretty.toList⟩ } := by
    unfold Settings.pageWriter Settings.withPages
    simp only [Option.or, FileTree.template_templateNamedWith hname]
    rfl
  obtain ⟨after, hwritten⟩ := FileTree.exists_write_templateNamedWith ⟨v.pretty.toList⟩
    (Bytes.ofString v.pretty)
  have hpath : ((Path.ofString "out").join (.ofString (templateName ++ ".md"))).toText?.isSome :=
    (Path.isSome_toText?_join (by decide) _).mpr
      ⟨Path.isSome_toText?_ofString _, Path.isSome_toText?_ofString _⟩
  have hrender : ∃ told, (asking (.render (.ofString "m.json") (some (.ofString "out"))
      (some (.ofString "m.json")) none)).run .plain
        (.templateNamedWith (Bytes.ofString v.pretty)) [] = (after, told) ∧ told.code = 0 :=
    run_render_of rfl (hloaded' _) hmodel hwriter hwritten (List.forall_mem_singleton.mpr hpath)
  have hgenerate : (asking (.generate (some (.ofString "r")) (some (.ofString "out"))
      (some (.ofString "m.json")) none false)).run .plain .templateNamed [] =
        (.templateNamed, (Failure.ofError (.templateMissing (.ofString "m.json"))).transcript) :=
    run_generate_of_missing rfl hloaded rfl hmissing
  obtain ⟨told, hextract, hcode⟩ := hextract
  obtain ⟨told', hrender, hcode'⟩ := hrender
  exact ⟨FileTree.link_notMem_lone isName_templateName [], hfresh, _, told, after, told', hextract,
    hcode, hrender, hcode', hgenerate⟩

end ApiAtlas
