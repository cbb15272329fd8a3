import ApiAtlas.Model.Wire
import ApiAtlas.Proofs.Json.Writing
import ApiAtlas.Settings

/-!
The model on the wire. Entries and their members, manifests and their sources, documents, reports
and settings are read as what was written, from either written form, and a path that is no text is
all that keeps one of them from being written.
-/
namespace ApiAtlas

open Json (Codec Fields Record)

theorem Language.readsBack (depth : Nat) : Language.codec.ReadsBack depth :=
  Codec.readsBack_variant (fun l => by cases l <;> rfl) depth

theorem ContainerKind.readsBack (depth : Nat) : ContainerKind.codec.ReadsBack depth :=
  Codec.readsBack_variant (fun k => by cases k <;> rfl) depth

theorem MemberKind.readsBack (depth : Nat) : MemberKind.codec.ReadsBack depth :=
  Codec.readsBack_variant (fun k => by cases k <;> rfl) depth

theorem DocumentKind.readsBack (depth : Nat) : DocumentKind.codec.ReadsBack depth :=
  Codec.readsBack_variant (fun k => by cases k <;> rfl) depth

theorem Collision.readsBack (depth : Nat) : Collision.codec.ReadsBack depth :=
  Codec.readsBack_variant (fun k => by cases k <;> rfl) depth

theorem Member.readsBack (depth : Nat) : Member.codec.ReadsBack (depth + 3) := by
  have hstring := Codec.readsBack_string (depth + 2)
  have hparameters := Codec.readsBack_list (Codec.readsBack_string (depth + 1)) (Nat.succ_pos depth)
  apply Record.readsBack_codec (Nat.succ_pos _)
  · exact ⟨hstring, MemberKind.readsBack _, hstring, hparameters, hstring, hstring, trivial⟩
  · decide
  · exact fun _ => rfl

theorem Entry.readsBack (depth : Nat) : Entry.codec.ReadsBack (depth + 5) := by
  have hstring := Codec.readsBack_string (depth + 4)
  have hmembers := Codec.readsBack_list (Member.readsBack depth) (Nat.succ_pos _)
  apply Record.readsBack_codec (Nat.succ_pos _)
  · exact ⟨Codec.readsBack_path _, Language.readsBack _, hstring, ContainerKind.readsBack _,
      hstring, hmembers, trivial⟩
  · decide
  · exact fun _ => rfl

theorem Entry.readsBack_list (depth : Nat) : (Codec.list Entry.codec).ReadsBack (depth + 6) :=
  Codec.readsBack_list (Entry.readsBack depth) (Nat.succ_pos _)

theorem Report.readsBack (depth : Nat) : Report.codec.ReadsBack (depth + 7) := by
  have hskipped := Codec.readsBack_list (Codec.readsBack_path (depth + 5)) (Nat.succ_pos _)
  apply Record.readsBack_codec (Nat.succ_pos _)
  · exact ⟨Entry.readsBack_list depth, hskipped, trivial⟩
  · decide
  · exact fun _ => rfl

theorem Source.readsBack (depth : Nat) : Source.codec.ReadsBack (depth + 2) := by
  apply Record.readsBack_codec (Nat.succ_pos _)
  · exact ⟨Codec.readsBack_path _, Language.readsBack _, trivial⟩
  · decide
  · exact fun _ => rfl

theorem Manifest.readsBack (depth : Nat) : Manifest.codec.ReadsBack (depth + 4) := by
  have hdocDirs := Codec.readsBack_list (Codec.readsBack_path (depth + 2)) (Nat.succ_pos _)
  apply Record.readsBack_codec (Nat.succ_pos _)
  · exact ⟨Codec.readsBack_list (Source.readsBack depth) (Nat.succ_pos _), hdocDirs, trivial⟩
  · decide
  · exact fun _ => rfl

theorem Document.readsBack (depth : Nat) : Document.codec.ReadsBack (depth + 2) := by
  apply Record.readsBack_codec (Nat.succ_pos _)
  · exact ⟨Codec.readsBack_path _, DocumentKind.readsBack _, trivial⟩
  · decide
  · exact fun _ => rfl

theorem Settings.readsBack (depth : Nat) : Settings.codec.ReadsBack (depth + 3) := by
  have hpath : (Codec.option .path).ReadsBack (depth + 2) :=
    Codec.readsBack_option (fun hv => (Codec.path_toJson_eq_ok hv).imp fun _ h => h.1)
      (Codec.readsBack_path _)
  have hcollision : (Codec.option Collision.codec).ReadsBack (depth + 2) :=
    Codec.readsBack_option (fun hv => ⟨_, (Except.ok.inj hv).symm⟩) (Collision.readsBack _)
  have hexclude := Codec.readsBack_list (Codec.readsBack_string (depth + 1)) (Nat.succ_pos _)
  apply Record.readsBack_codec (Nat.succ_pos _)
  · exact ⟨hpath, hpath, hpath, hexclude, hcollision, Codec.readsBack_bool _, trivial⟩
  · decide
  · exact fun _ => rfl

section

open Json.Codec (writesText_of_ok writesText_path)

theorem writesText_string : Codec.string.WritesText fun _ => [] := writesText_of_ok fun _ => rfl

theorem Language.writesText : Language.codec.WritesText fun _ => [] := writesText_of_ok fun _ => rfl

theorem Member.writesText : Member.codec.WritesText fun _ => [] := by
  have hkind : MemberKind.codec.WritesText fun _ => [] := writesText_of_ok fun _ => rfl
  apply Record.writesText_codec
  · exact .cons writesText_string (.cons hkind (.cons writesText_string
      (.cons writesText_string.list (.cons writesText_string
        (.cons writesText_string Fields.writesText_nil)))))
  · intro m
    simp

theorem Entry.writesText : Entry.codec.WritesText fun e => [e.file] := by
  have hkind : ContainerKind.codec.WritesText fun _ => [] := writesText_of_ok fun _ => rfl
  apply Record.writesText_codec
  · exact .cons writesText_path (.cons Language.writesText (.cons writesText_string
      (.cons hkind (.cons writesText_string
        (.cons Member.writesText.list Fields.writesText_nil)))))
  · intro e
    simp [Entry.record]

theorem Report.writesText :
    Report.codec.WritesText fun r => r.entries.map (·.file) ++ r.skipped := by
  apply Record.writesText_codec
  · exact .cons Entry.writesText.list_map (.cons writesText_path.list Fields.writesText_nil)
  · intro r
    simp [Report.record]

theorem Source.writesText : Source.codec.WritesText fun s => [s.path] := by
  apply Record.writesText_codec
  · exact .cons writesText_path (.cons Language.writesText Fields.writesText_nil)
  · intro s
    simp [Source.record]

theorem Manifest.writesText :
    Manifest.codec.WritesText fun m => m.sources.map (·.path) ++ m.docDirs := by
  apply Record.writesText_codec
  · exact .cons Source.writesText.list_map (.cons writesText_path.list Fields.writesText_nil)
  · intro m
    simp [Manifest.record]

theorem Document.writesText : Document.codec.WritesText fun d => [d.path] := by
  have hkind : DocumentKind.codec.WritesText fun _ => [] := writesText_of_ok fun _ => rfl
  apply Record.writesText_codec
  · exact .cons writesText_path (.cons hkind Fields.writesText_nil)
  · intro d
    simp [Document.record]

theorem Settings.writesText : Settings.codec.WritesText fun s =>
    s.root?.toList ++ s.docsRoot?.toList ++ s.template?.toList := by
  have hcollision : Collision.codec.WritesText fun _ => [] := writesText_of_ok fun _ => rfl
  have hbool : Codec.bool.WritesText fun _ => [] := writesText_of_ok fun _ => rfl
  apply Record.writesText_codec
  · exact .cons writesText_path.option (.cons writesText_path.option
      (.cons writesText_path.option (.cons writesText_string.list
        (.cons hcollision.option (.cons hbool Fields.writesText_nil)))))
  · intro s
    simp [Settings.record]

end

/-- Decoding undoes encoding for every type on the wire. -/
theorem wire_roundTrips :
    Member.codec.RoundTrips (fun _ => []) ∧
      Entry.codec.RoundTrips (fun e => [e.file]) ∧
      (Codec.list Entry.codec).RoundTrips (fun entries => entries.map (·.file)) ∧
      Source.codec.RoundTrips (fun s => [s.path]) ∧
      Manifest.codec.RoundTrips (fun m => m.sources.map (·.path) ++ m.docDirs) ∧
      Document.codec.RoundTrips (fun d => [d.path]) ∧
      Report.codec.RoundTrips (fun r => r.entries.map (·.file) ++ r.skipped) ∧
      Settings.codec.RoundTrips
        (fun s => s.root?.toList ++ s.docsRoot?.toList ++ s.template?.toList) := by
  exact ⟨.of Member.writesText (Member.readsBack 125), .of Entry.writesText (Entry.readsBack 123),
    .of Entry.writesText.list_map (Entry.readsBack_list 122),
    .of Source.writesText (Source.readsBack 126), .of Manifest.writesText (Manifest.readsBack 124),
    .of Document.writesText (Document.readsBack 126), .of Report.writesText (Report.readsBack 121),
    .of Settings.writesText (Settings.readsBack 125)⟩

end ApiAtlas
