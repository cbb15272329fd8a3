import ApiAtlas.Commands
import ApiAtlas.Proofs.Requests
import ApiAtlas.Proofs.Toml.Lines

/-!
Settings survive their file. What is set has a line, what is not set has none, and the reader puts
back what was left out. Saving them is refused, and nothing written, exactly if there is a file in
the way or a path in the settings that is no text.
-/
namespace ApiAtlas

theorem Path.exists_text {p : Path} (h : p.toText?.isSome) : ∃ s : String, ofString s = p := by
  rw [isSome_toText?] at h
  obtain ⟨cs, hcs⟩ := Option.isSome_iff_exists.mp h
  refine ⟨String.ofList cs, ?_⟩
  rw [ofString, Bytes.ofString, String.toList_ofList, Utf8.encode_of_decode hcs]

namespace Settings

def textValue (text : String) : List Char × Toml.Node :=
  (Toml.writeString text.toList, .string text.toList)

def slots (s : Settings) (root? docsRoot? template? : Option String) : List Toml.Slot :=
  [⟨"root", root?.map textValue⟩,
    ⟨"docs_root", docsRoot?.map textValue⟩,
    ⟨"template", template?.map textValue⟩,
    ⟨"exclude", some (Toml.writeStrings (s.exclude.map (·.toList)),
      .array ((s.exclude.map (·.toList)).map .string))⟩,
    ⟨"collision", s.collision?.map fun c => textValue c.name⟩,
    ⟨"parallel", some (Toml.writeBool s.parallel, .bool s.parallel)⟩]

def lines (s : Settings) (root? docsRoot? template? : Option String) : List Toml.Line :=
  (s.slots root? docsRoot? template?).filterMap Toml.Slot.line?

section

variable {s : Settings} {root? docsRoot? template? : Option String}

theorem nodup_keys_slots (s : Settings) (root? docsRoot? template? : Option String) :
    ((s.slots root? docsRoot? template?).map Toml.Slot.key).Nodup := by
  have hkeys : (s.slots root? docsRoot? template?).map Toml.Slot.key =
      ["root", "docs_root", "template", "exclude", "collision", "parallel"] := rfl
  rw [hkeys]
  decide

theorem isSound_textValue {key : String} (hkey : Toml.IsBareKey key) {α : Type} (text : α → String)
    (value? : Option α) :
    ∀ l ∈ Toml.Slot.line? ⟨key, value?.map fun a => textValue (text a)⟩, l.IsSound := by
  intro l hl
  cases value? with
  | none => cases hl
  | some a =>
    cases hl
    exact Toml.Line.isSound_string hkey (text a).toList

theorem isSound_lines (s : Settings) (root? docsRoot? template? : Option String) :
    ∀ l ∈ s.lines root? docsRoot? template?, l.IsSound := by
  intro l hl
  obtain ⟨slot, hslot, hline⟩ := List.mem_filterMap.mp hl
  simp only [slots, List.mem_cons, List.not_mem_nil, or_false] at hslot
  rcases hslot with rfl | rfl | rfl | rfl | rfl | rfl
  · exact isSound_textValue ⟨by decide, by decide⟩ id root? l hline
  · exact isSound_textValue ⟨by decide, by decide⟩ id docsRoot? l hline
  · exact isSound_textValue ⟨by decide, by decide⟩ id template? l hline
  · cases hline
    have hkey : Toml.IsBareKey "exclude" := ⟨by decide, by decide⟩
    exact Toml.Line.isSound_strings hkey _
  · exact isSound_textValue ⟨by decide, by decide⟩ Collision.name s.collision? l hline
  · cases hline
    have hkey : Toml.IsBareKey "parallel" := ⟨by decide, by decide⟩
    exact Toml.Line.isSound_bool hkey _

theorem read_lines (s : Settings) (root? docsRoot? template? : Option String) :
    Toml.read ((s.lines root? docsRoot? template?).flatMap Toml.Line.write) =
      some ((s.lines root? docsRoot? template?).map Toml.Line.field) :=
  Toml.read_write (s.isSound_lines root? docsRoot? template?)
    ((Toml.Slot.keys_lines _).nodup (s.nodup_keys_slots root? docsRoot? template?))

theorem writePath_ofString (key : String) (text? : Option String) :
    writePath key (text?.map Path.ofString) =
      some (Toml.Slot.write ⟨key, text?.map textValue⟩) := by
  cases text? with
  | none => rfl
  | some text =>
    unfold writePath
    simp only [Option.map_some, Path.ofString, Bytes.ofString, Utf8.decode_encode]
    rfl

theorem toText_eq (hroot : s.root? = root?.map Path.ofString)
    (hdocs : s.docsRoot? = docsRoot?.map Path.ofString)
    (htemplate : s.template? = template?.map Path.ofString) :
    s.toText = some ((s.lines root? docsRoot? template?).flatMap Toml.Line.write) := by
  unfold toText lines
  rw [hroot, hdocs, htemplate, writePath_ofString, writePath_ofString, writePath_ofString,
    Toml.Slot.write_lines]
  simp only [slots, List.flatMap_cons, List.flatMap_nil, List.append_nil, ← List.append_assoc]
  cases s.collision? <;> rfl

section

variable {fields : Toml.Fields} {key : String}

theorem field_of_none {α : Type} {decode : Toml.Node → Option α}
    (h : fields.lookup key.toList = none) : field fields key decode = some none := by
  unfold field
  rw [h]

theorem field_of_some {α : Type} {decode : Toml.Node → Option α} {node : Toml.Node} {a : α}
    (h : fields.lookup key.toList = some node) (hdecode : decode node = some a) :
    field fields key decode = some (some a) := by
  unfold field
  rw [h]
  simp [hdecode]

theorem field_textValue {α β : Type} {decode : Toml.Node → Option β} {text : α → String}
    {value : α → β} {value? : Option α}
    (h : fields.lookup key.toList = (value?.map fun a => textValue (text a)).map Prod.snd)
    (hdecode : ∀ a, decode (.string (text a).toList) = some (value a)) :
    field fields key decode = some (value?.map value) := by
  cases value? with
  | none => exact field_of_none h
  | some a => exact field_of_some h (hdecode a)

end

theorem stringsOf_array (texts : List String) :
    stringsOf (.array ((texts.map (·.toList)).map .string)) = some texts := by
  unfold stringsOf
  simp only
  induction texts with
  | nil => rfl
  | cons text texts ih => simp_all [Toml.Node.string?]

theorem collisionOf_name (c : Collision) : collisionOf (.string c.name.toList) = some c := by
  cases c <;> decide

theorem ofFields_lines (hroot : s.root? = root?.map Path.ofString)
    (hdocs : s.docsRoot? = docsRoot?.map Path.ofString)
    (htemplate : s.template? = template?.map Path.ofString) :
    ofFields ((s.lines root? docsRoot? template?).map Toml.Line.field) = some s := by
  have hlookup (slot : Toml.Slot) (hslot : slot ∈ s.slots root? docsRoot? template?) :=
    Toml.Slot.lookup_lines (s.nodup_keys_slots root? docsRoot? template?) hslot
  unfold lines
  generalize ((s.slots root? docsRoot? template?).filterMap Toml.Slot.line?).map Toml.Line.field =
    fields at hlookup ⊢
  simp only [slots, List.forall_mem_cons] at hlookup
  obtain ⟨hrootNode, hdocsNode, htemplateNode, hexcludeNode, hcollisionNode, hparallelNode, -⟩ :=
    hlookup
  have hrootField : field fields "root" pathOf = some s.root? := by
    rw [hroot]
    exact field_textValue hrootNode fun _ => rfl
  have hdocsField : field fields "docs_root" pathOf = some s.docsRoot? := by
    rw [hdocs]
    exact field_textValue hdocsNode fun _ => rfl
  have htemplateField : field fields "template" pathOf = some s.template? := by
    rw [htemplate]
    exact field_textValue htemplateNode fun _ => rfl
  have hexclude : field fields "exclude" stringsOf = some (some s.exclude) :=
    field_of_some hexcludeNode (stringsOf_array s.exclude)
  have hcollision : field fields "collision" collisionOf = some s.collision? := by
    rw [field_textValue hcollisionNode collisionOf_name, Option.map_id']
  have hparallel : field fields "parallel" boolOf = some (some s.parallel) :=
    field_of_some hparallelNode rfl
  unfold ofFields
  rw [hrootField, hdocsField, htemplateField, hexclude, hcollision, hparallel]
  rfl

theorem exists_texts_of_isText (h : s.IsText) : ∃ root? docsRoot? template? : Option String,
    s.root? = root?.map Path.ofString ∧ s.docsRoot? = docsRoot?.map Path.ofString ∧
      s.template? = template?.map Path.ofString := by
  have hone (p? : Option Path) (hp : ∀ p ∈ p?.toList, p.toText?.isSome) :
      ∃ text? : Option String, p? = text?.map Path.ofString := by
    cases p? with
    | none => exact ⟨none, rfl⟩
    | some p =>
      obtain ⟨text, rfl⟩ := Path.exists_text (hp p List.mem_cons_self)
      exact ⟨some text, rfl⟩
  obtain ⟨hfront, htemplate⟩ := List.forall_mem_append.mp h
  obtain ⟨hroot, hdocs⟩ := List.forall_mem_append.mp hfront
  obtain ⟨root?, hroot⟩ := hone _ hroot
  obtain ⟨docsRoot?, hdocs⟩ := hone _ hdocs
  obtain ⟨template?, htemplate⟩ := hone _ htemplate
  exact ⟨root?, docsRoot?, template?, hroot, hdocs, htemplate⟩

theorem toText_eq_none (h : ¬ s.IsText) : s.toText = none := by
  have hnone {p : Path} (hp : ¬ p.toText?.isSome) (key : String) :
      writePath key (some p) = none := by
    rw [Path.isSome_toText?, Bool.not_eq_true, Option.isSome_eq_false_iff,
      Option.isNone_iff_eq_none] at hp
    unfold writePath
    simp only [hp, Option.map_none]
  unfold IsText at h
  push Not at h
  obtain ⟨p, hmem, hp⟩ := h
  simp only [List.mem_append, Option.mem_toList] at hmem
  unfold toText
  rcases hmem with (hroot | hdocs) | htemplate
  · rw [hroot, hnone hp]
    rfl
  · rw [hdocs, hnone hp]
    cases writePath "root" s.root? <;> rfl
  · rw [htemplate, hnone hp]
    cases writePath "root" s.root? <;> cases writePath "docs_root" s.docsRoot? <;> rfl

/-- Settings come back from their text, whatever their paths and patterns hold. -/
theorem IsText.ofText_toText (h : s.IsText) :
    ∃ text, s.toText = some text ∧ ofText text = some s := by
  obtain ⟨root?, docsRoot?, template?, hroot, hdocs, htemplate⟩ := exists_texts_of_isText h
  refine ⟨_, toText_eq hroot hdocs htemplate, ?_⟩
  unfold ofText
  rw [read_lines, Option.bind_some, ofFields_lines hroot hdocs htemplate]

end

end Settings

namespace FileTree

/-- The tree that a command goes on with once it has saved settings, or failed to. -/
def afterSave (t : FileTree) (path : Path) (s : Settings) (force : Bool) : FileTree :=
  (t.saveSettings path s force).toOption.getD t

theorem tree_runInit (theme : Console.Theme) (t : FileTree) (config? : Option Path) (force : Bool) :
    (Command.runInit theme t config? force).1 =
      t.afterSave (config?.getD Settings.fileName) Command.initial force := by
  unfold Command.runInit afterSave
  simp only
  cases t.saveSettings (config?.getD Settings.fileName) Command.initial force <;> rfl

theorem loadSettings_of_writeFile {t later : FileTree} {path : Path} {text : List Char}
    {s : Settings} (hwrite : t.writeFile path (Utf8.encode text) = .ok later)
    (htext : Settings.ofText text = some s) : later.loadSettings (some path) = .ok (some s) := by
  have hbytes := readBytes_of_writeFile hwrite
  have hexists : later.pathExists path = true := by
    cases hstat : later.stat path with
    | error e => simp [readBytes, hstat, bind, Except.bind] at hbytes
    | ok node => exact pathExists_iff.mpr ⟨node, hstat⟩
  have hread : later.readText path = .ok text := by
    unfold readText
    rw [hbytes]
    simp only [bind, Except.bind, Utf8.decode_encode]
    rfl
  unfold loadSettings
  simp only [Option.getD_some, hexists, hread, htext, Bool.not_true, Bool.false_eq_true, if_false]

/-- Whether settings are not even tried to be written: because of what is in their way, or because
they hold a path that is no text. -/
def RefusesSettings (t : FileTree) (path : Path) (s : Settings) (force : Bool) : Prop :=
  (t.pathExists path = true ∧ force = false) ∨ ¬ s.IsText

theorem saveSettings_of_refuses {t : FileTree} {path : Path} {s : Settings} {force : Bool}
    (h : t.RefusesSettings path s force) :
    t.saveSettings path s force = .error (.alreadyThere path) ∨
      t.saveSettings path s force = .error .notText := by
  unfold saveSettings
  split_ifs with hexists
  · exact .inl rfl
  · have hs : ¬ s.IsText := by
      rcases h with ⟨hthere, rfl⟩ | hs
      · simp [hthere] at hexists
      · exact hs
    rw [Settings.toText_eq_none hs]
    exact .inr rfl

theorem saveSettings_of_not_refuses {t : FileTree} {path : Path} {s : Settings} {force : Bool}
    (h : ¬ t.RefusesSettings path s force) :
    ∃ text, s.toText = some text ∧ Settings.ofText text = some s ∧
      t.saveSettings path s force =
        (t.writeFile path (Utf8.encode text)).mapError SettingsError.io := by
  obtain ⟨hfree, hs⟩ := not_or.mp h
  obtain ⟨text, htext, hback⟩ := (not_not.mp hs).ofText_toText
  refine ⟨text, htext, hback, ?_⟩
  have hfree : (t.pathExists path && !force) = false := by
    cases hexists : t.pathExists path <;> cases force <;> simp_all
  unfold saveSettings
  rw [hfree, htext]
  simp only [Bool.false_eq_true, if_false]
  cases t.writeFile path (Utf8.encode text) <;> rfl

/-- Settings that were saved are loaded as they were. Where a file is in the way of settings that
are not to replace it, or a path in them is no text, they are refused and the tree stays as it was;
in any other case saving them is writing their text to the file. -/
theorem settings_survive (t : FileTree) (path : Path) (s : Settings) (force : Bool) :
    (∀ later, t.saveSettings path s force = .ok later →
      later.loadSettings (some path) = .ok (some s)) ∧
    (t.RefusesSettings path s force →
      (t.saveSettings path s force = .error (.alreadyThere path) ∨
        t.saveSettings path s force = .error .notText) ∧ t.afterSave path s force = t) ∧
    (¬ t.RefusesSettings path s force → ∃ text, s.toText = some text ∧
      t.saveSettings path s force =
        (t.writeFile path (Utf8.encode text)).mapError SettingsError.io) := by
  refine ⟨?_, ?_, ?_⟩
  · intro later hsaved
    by_cases hrefuses : t.RefusesSettings path s force
    · rcases saveSettings_of_refuses hrefuses with herror | herror
      · rw [herror] at hsaved
        cases hsaved
      · rw [herror] at hsaved
        cases hsaved
    · obtain ⟨text, -, htext, hwrite⟩ := saveSettings_of_not_refuses hrefuses
      rw [hwrite] at hsaved
      cases hlater : t.writeFile path (Utf8.encode text) with
      | error e =>
        rw [hlater] at hsaved
        cases hsaved
      | ok written =>
        rw [hlater] at hsaved
        cases hsaved
        exact loadSettings_of_writeFile hlater htext
  · intro hrefuses
    have herror := saveSettings_of_refuses hrefuses
    refine ⟨herror, ?_⟩
    unfold afterSave
    rcases herror with herror | herror <;> rw [herror] <;> rfl
  · intro hpasses
    obtain ⟨text, htext, -, hwrite⟩ := saveSettings_of_not_refuses hpasses
    exact ⟨text, htext, hwrite⟩

def awkward : Settings where
  root? := some (.ofString "a\\b\"c'\x01")
  docsRoot? := some (.ofString "a\\b\"c")
  exclude := ["'''\"\"\"\"\n\\", "*.md", "\"\n"]
  collision? := some .overwrite

theorem settings_survive_awkward :
    ¬ empty.RefusesSettings Settings.fileName awkward false ∧
    (∃ later, empty.saveSettings Settings.fileName awkward false = .ok later ∧
      later.loadSettings (some Settings.fileName) = .ok (some awkward)) ∧
    empty.RefusesSettings Settings.fileName { awkward with template? := some ⟨[0xFF]⟩ } true ∧
    empty.afterSave Settings.fileName { awkward with template? := some ⟨[0xFF]⟩ } true = empty := by
  obtain ⟨hloaded, -, hwritten⟩ := settings_survive empty Settings.fileName awkward false
  obtain ⟨-, hrefused, -⟩ :=
    settings_survive empty Settings.fileName { awkward with template? := some ⟨[0xFF]⟩ } true
  have hpasses : ¬ empty.RefusesSettings Settings.fileName awkward false := by
    have hfree : empty.pathExists Settings.fileName = false := by cbv
    rintro (⟨hthere, -⟩ | hs)
    · rw [hfree] at hthere
      cases hthere
    · exact hs (by unfold Settings.IsText; decide)
  have hrefuses :
      empty.RefusesSettings Settings.fileName { awkward with template? := some ⟨[0xFF]⟩ } true :=
    .inr (by unfold Settings.IsText; decide)
  refine ⟨hpasses, ?_, hrefuses, (hrefused hrefuses).2⟩
  obtain ⟨text, -, hsaved⟩ := hwritten hpasses
  have hwrite : (empty.writeFile Settings.fileName (Utf8.encode text)).toOption.isSome = true := by
    cbv
  cases hlater : empty.writeFile Settings.fileName (Utf8.encode text) with
  | error e =>
    rw [hlater] at hwrite
    cases hwrite
  | ok later =>
    rw [hlater] at hsaved
    exact ⟨later, hsaved, hloaded later hsaved⟩

end FileTree

end ApiAtlas
