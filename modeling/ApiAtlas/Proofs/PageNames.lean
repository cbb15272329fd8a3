import ApiAtlas.Pages
import ApiAtlas.Proofs.Path
import Mathlib.Data.List.Nodup
import Mathlib.Data.List.Perm.Subperm

/-!
The names of pages. Among the candidates for a name one is free, so under `disambiguate` no name is
given twice, whatever the origins are; and every name is one that a directory can hold.
-/
namespace ApiAtlas

namespace Collision

theorem repr_injective : Function.Injective Nat.repr := by
  intro m n h
  have hdigits : Nat.toDigits 10 m = Nat.toDigits 10 n := by
    rw [← Nat.toList_repr, ← Nat.toList_repr, h]
  have hread := congrArg (Nat.ofDigitChars 10 · 0) hdigits
  simpa only [Nat.ofDigitChars_ten_toDigits] using hread

theorem append_injective (front : String) : Function.Injective (front ++ ·) := by
  intro a b h
  have hlists : front.toList ++ a.toList = front.toList ++ b.toList := by
    simpa using congrArg String.toList h
  exact String.toList_inj.1 (List.append_cancel_left hlists)

theorem nodup_candidates (stem : String) (taken : Nat) : (candidates stem taken).Nodup := by
  unfold candidates
  rw [List.nodup_cons]
  constructor
  · intro hmem
    obtain ⟨i, _, hi⟩ := List.mem_map.1 hmem
    have hlength := congrArg (List.length ∘ String.toList) hi
    simp at hlength
  · apply List.Nodup.map ?_ List.nodup_range
    intro i j h
    have hrepr := append_injective (stem ++ "-") h
    have hij := repr_injective hrepr
    omega

theorem exists_free_candidate (stem : String) (taken : List String) :
    ∃ name ∈ candidates stem taken.length, name ∉ taken := by
  by_contra hnone
  have hsubset : candidates stem taken.length ⊆ taken := by
    intro name hname
    by_contra hfree
    exact hnone ⟨name, hname, hfree⟩
  have hlength := ((nodup_candidates stem taken.length).subperm hsubset).length_le
  simp only [candidates, List.length_cons, List.length_map, List.length_range] at hlength
  omega

theorem find?_candidates (stem : String) (taken : List String) :
    (candidates stem taken.length).find? (· ∉ taken) = some (firstFree stem taken) := by
  obtain ⟨free, hmem, hfree⟩ := exists_free_candidate stem taken
  have hsome : ((candidates stem taken.length).find? (· ∉ taken)).isSome :=
    List.find?_isSome.2 ⟨free, hmem, by simpa using hfree⟩
  obtain ⟨name, hname⟩ := Option.isSome_iff_exists.1 hsome
  unfold firstFree
  rw [hname, Option.getD_some]

theorem firstFree_spec (stem : String) (taken : List String) :
    firstFree stem taken ∈ candidates stem taken.length ∧ firstFree stem taken ∉ taken := by
  have hfind := find?_candidates stem taken
  exact ⟨List.mem_of_find?_eq_some hfind, by simpa using List.find?_some hfind⟩

theorem nextName_notMem (origin : Entry → String) (taken : List String) (e : Entry) :
    nextName .disambiguate origin taken e ∉ taken := by
  unfold nextName
  simp only
  split
  · assumption
  · exact (firstFree_spec _ taken).2

theorem nodup_namesFrom (origin : Entry → String) (entries : List Entry) (taken : List String) :
    (namesFrom .disambiguate origin taken entries).Nodup ∧
      ∀ name ∈ namesFrom .disambiguate origin taken entries, name ∉ taken := by
  induction entries generalizing taken with
  | nil => simp [namesFrom]
  | cons e rest ih =>
    unfold namesFrom
    simp only [List.nodup_cons, List.mem_cons, forall_eq_or_imp]
    obtain ⟨hnodup, hnew⟩ := ih (nextName .disambiguate origin taken e :: taken)
    refine ⟨⟨?_, hnodup⟩, nextName_notMem origin taken e, ?_⟩
    · exact fun hmem => hnew _ hmem List.mem_cons_self
    · exact fun name hmem htaken => hnew name hmem (List.mem_cons_of_mem _ htaken)

theorem nodup_names (origin : Entry → String) (entries : List Entry) :
    (names .disambiguate origin entries).Nodup :=
  (nodup_namesFrom origin entries []).1

theorem getElem?_namesFrom (policy : Collision) (origin : Entry → String) {entries : List Entry}
    {i : Nat} {e : Entry} (h : entries[i]? = some e) (taken : List String) :
    (namesFrom policy origin taken entries)[i]? =
      some (policy.nextName origin
        (((namesFrom policy origin taken entries).take i).reverse ++ taken) e) := by
  induction entries generalizing i taken with
  | nil => simp at h
  | cons first rest ih =>
    unfold namesFrom
    cases i with
    | zero =>
      rw [List.getElem?_cons_zero] at h
      rw [Option.some.inj h]
      rfl
    | succ i =>
      rw [List.getElem?_cons_succ] at h ⊢
      rw [ih h, List.take_succ_cons, List.reverse_cons, List.append_assoc, List.singleton_append]

theorem namesFrom_take (policy : Collision) (origin : Entry → String) (i : Nat)
    (entries : List Entry) (taken : List String) :
    policy.namesFrom origin taken (entries.take i) =
      (policy.namesFrom origin taken entries).take i := by
  induction entries generalizing i taken with
  | nil => simp [namesFrom]
  | cons e rest ih =>
    cases i with
    | zero => rfl
    | succ i =>
      rw [List.take_succ_cons, namesFrom, namesFrom, List.take_succ_cons, ih]

end Collision

theorem notMem_fileBase (container : String) {c : Char} (hc : c ∈ [' ', '/', '\\']) :
    c ∉ (fileBase container).toList := by
  unfold fileBase
  rw [String.toList_ofList]
  intro hmem
  obtain ⟨old, -, hold⟩ := List.mem_map.1 hmem
  split at hold
  · rw [← hold] at hc
    exact absurd hc (by decide)
  · rename_i hkept
    exact hkept (hold ▸ hc)

theorem Origins.isAlphanum_text (origins : Origins) (e : Entry) {c : Char}
    (h : c ∈ (origins.text e).toList) : c.isAlphanum := by
  have hhex : "0123456789abcdef".toList.all Char.isAlphanum = true := by decide
  exact List.all_eq_true.1 hhex c (origins.isHex_text e c h)

namespace Collision

theorem isAlphanum_repr {n : Nat} {c : Char} (h : c ∈ (Nat.repr n).toList) : c.isAlphanum := by
  rw [Nat.toList_repr] at h
  unfold Char.isAlphanum
  rw [Nat.isDigit_of_mem_toDigits (by decide) (by decide) h, Bool.or_true]

theorem mem_candidates {stem name : String} {taken : Nat} (h : name ∈ candidates stem taken)
    {c : Char} (hc : c ∈ name.toList) : c ∈ stem.toList ∨ c = '-' ∨ c.isAlphanum := by
  unfold candidates at h
  rcases List.mem_cons.1 h with rfl | h
  · exact .inl hc
  · obtain ⟨i, _, rfl⟩ := List.mem_map.1 h
    rw [String.toList_append, String.toList_append, List.mem_append, List.mem_append] at hc
    rcases hc with (hstem | hdash) | hdigit
    · exact .inl hstem
    · exact .inr (.inl (by simpa using hdash))
    · exact .inr (.inr (isAlphanum_repr hdigit))

/-- What a page name has beyond its container's are dashes and digits, some of them hexadecimal. -/
theorem mem_nextName {policy : Collision} {origins : Origins} {taken : List String} {e : Entry}
    {c : Char} (h : c ∈ (policy.nextName origins.text taken e).toList) :
    c ∈ (fileBase e.container).toList ∨ c = '-' ∨ c.isAlphanum := by
  unfold nextName at h
  simp only at h
  split at h
  · exact .inl h
  · cases policy with
    | overwrite => exact .inl h
    | disambiguate =>
      rcases mem_candidates (firstFree_spec _ taken).1 h with hstem | hend
      · rw [String.toList_append, String.toList_append, List.mem_append, List.mem_append] at hstem
        rcases hstem with (hbase | hdash) | hhex
        · exact .inl hbase
        · exact .inr (.inl (by simpa using hdash))
        · exact .inr (.inr (origins.isAlphanum_text e hhex))
      · exact .inr hend

theorem exists_nextName_of_mem_names {policy : Collision} {origin : Entry → String}
    {entries : List Entry} {name : String} (h : name ∈ policy.names origin entries) :
    ∃ e ∈ entries, ∃ taken, name = policy.nextName origin taken e := by
  unfold names at h
  generalize [] = taken at h
  induction entries generalizing taken with
  | nil => simp [namesFrom] at h
  | cons e rest ih =>
    unfold namesFrom at h
    rcases List.mem_cons.1 h with rfl | h
    · exact ⟨e, List.mem_cons_self, taken, rfl⟩
    · obtain ⟨other, hother, hname⟩ := ih _ h
      exact ⟨other, List.mem_cons_of_mem e hother, hname⟩

theorem notMem_nextName (policy : Collision) (origins : Origins) (taken : List String) (e : Entry)
    {c : Char} (hc : c ∈ [' ', '/', '\\']) : c ∉ (policy.nextName origins.text taken e).toList := by
  have hadded : ∀ c ∈ [' ', '/', '\\'], c ≠ '-' ∧ ¬ c.isAlphanum := by
    simp only [List.forall_mem_cons]
    exact ⟨by decide, by decide, by decide, List.forall_mem_nil _⟩
  intro h
  rcases mem_nextName h with hbase | hdash | halphanum
  · exact notMem_fileBase e.container hc hbase
  · exact (hadded c hc).1 hdash
  · exact (hadded c hc).2 halphanum

theorem noSlash_nextName (policy : Collision) (origins : Origins) (taken : List String)
    (e : Entry) : '/' ∉ (policy.nextName origins.text taken e).toList :=
  notMem_nextName policy origins taken e (by decide)

theorem notMem_names {policy : Collision} {origins : Origins} {entries : List Entry}
    {name : String} (h : name ∈ policy.names origins.text entries) {c : Char}
    (hc : c ∈ [' ', '/', '\\']) : c ∉ name.toList := by
  obtain ⟨e, _, taken, rfl⟩ := exists_nextName_of_mem_names h
  exact notMem_nextName policy origins taken e hc

theorem noSlash_names {policy : Collision} {origins : Origins} {entries : List Entry}
    {name : String} (h : name ∈ policy.names origins.text entries) : '/' ∉ name.toList :=
  notMem_names h (by decide)

end Collision

def pageName (name : String) : Bytes := Bytes.ofString (name ++ ".md")

theorem pageName_eq (name : String) :
    pageName name = Bytes.ofString name ++ [Path.dot, 0x6D, 0x64] := by
  unfold pageName Bytes.ofString
  rw [String.toList_append, Utf8.encode_append]
  congr 1

theorem pageName_injective : Function.Injective pageName := by
  intro a b h
  rw [pageName_eq, pageName_eq] at h
  have hencode : Utf8.encode a.toList = Utf8.encode b.toList := List.append_cancel_right h
  exact String.toList_inj.1 (Utf8.encode_injective hencode)

theorem mem_ofString {b : UInt8} (hb : b.toNat < 0x80) {s : String} (h : b ∈ Bytes.ofString s) :
    ∃ c ∈ s.toList, c.toNat = b.toNat := by
  obtain ⟨c, hc, hbyte⟩ := List.mem_flatMap.1 h
  exact ⟨c, hc, (Utf8.mem_encodeChar hb).1 hbyte⟩

theorem notMem_pageName {name : String} {c : Char} {b : UInt8} (hb : b.toNat < 0x80)
    (hcode : c.toNat = b.toNat) (hend : b ∉ [Path.dot, 0x6D, 0x64]) (h : c ∉ name.toList) :
    b ∉ pageName name := by
  rw [pageName_eq, List.mem_append, not_or]
  refine ⟨fun hmem => ?_, hend⟩
  obtain ⟨other, hother, hsame⟩ := mem_ofString hb hmem
  exact h (Char.toNat_inj.1 (hcode.trans hsame.symm) ▸ hother)

theorem isName_pageName {name : String} (h : '/' ∉ name.toList) : Path.IsName (pageName name) := by
  have hslash : Path.slash ∉ pageName name := notMem_pageName (by decide) rfl (by decide) h
  rw [pageName_eq] at hslash ⊢
  refine ⟨by simp, hslash, ?_, ?_⟩
  · intro he
    simpa using congrArg List.length he
  · intro he
    simpa using congrArg List.length he

end ApiAtlas
