import ApiAtlas.Proofs.PageNames

/-!
How a page gets its name under `disambiguate`. The name of the container comes first, then it with
the origin behind it, then with the least number that makes it free; the search for that number makes
at most one attempt more than there are names given.
-/
namespace ApiAtlas

namespace Collision

def numbered (stem : String) (n : Nat) : String := stem ++ "-" ++ Nat.repr n

/-- A search without a bound. From an attempt at `name`, with `n` for the number to go on with, it
comes to `found` in `count` attempts. -/
inductive Search (stem : String) (taken : List String) : String → Nat → String → Nat → Prop where
  | free {name : String} {n : Nat} (h : name ∉ taken) : Search stem taken name n name 1
  | retry {name found : String} {n count : Nat} (h : name ∈ taken)
      (next : Search stem taken (numbered stem n) (n + 1) found count) :
      Search stem taken name n found (count + 1)

/-- The name for an entry after others were given: `base` if it is free, else with `hash` behind it,
else with the least number from 2 on behind that. -/
inductive LeastFree (base hash : String) (given : List String) : String → Prop where
  | plain (h : base ∉ given) : LeastFree base hash given base
  | hashed (h : base ∈ given) (hfree : base ++ "-" ++ hash ∉ given) :
      LeastFree base hash given (base ++ "-" ++ hash)
  | numbered (h : base ∈ given) (hhash : base ++ "-" ++ hash ∈ given) {n : Nat} (hn : 2 ≤ n)
      (hfree : numbered (base ++ "-" ++ hash) n ∉ given)
      (hleast : ∀ m, 2 ≤ m → m < n → numbered (base ++ "-" ++ hash) m ∈ given) :
      LeastFree base hash given (numbered (base ++ "-" ++ hash) n)

def attempt (stem : String) : Nat → String
  | 0 => stem
  | i + 1 => numbered stem (i + 2)

theorem candidates_eq (stem : String) (taken : Nat) :
    candidates stem taken = (List.range (taken + 1)).map (attempt stem) := by
  rw [List.range_succ_eq_map, List.map_cons, List.map_map]
  rfl

section

variable (stem : String) (taken : List String)

theorem exists_attempt :
    ∃ j ≤ taken.length, firstFree stem taken = attempt stem j ∧ attempt stem j ∉ taken ∧
      ∀ i < j, attempt stem i ∈ taken := by
  have hfind := find?_candidates stem taken
  rw [candidates_eq, List.find?_map, Option.map_eq_some_iff] at hfind
  obtain ⟨j, hj, hfirst⟩ := hfind
  rw [List.find?_range_eq_some] at hj
  obtain ⟨hfree, hle, hbefore⟩ := hj
  refine ⟨j, ?_, hfirst.symm, ?_, ?_⟩
  · exact Nat.le_of_lt_succ (List.mem_range.mp hle)
  · simpa using hfree
  · intro i hi
    simpa using hbefore i hi

theorem search_attempt {i j : Nat} (hij : i ≤ j) (hfree : attempt stem j ∉ taken)
    (hbefore : ∀ i < j, attempt stem i ∈ taken) :
    Search stem taken (attempt stem i) (i + 2) (attempt stem j) (j - i + 1) := by
  induction hsteps : j - i generalizing i with
  | zero =>
    obtain rfl : i = j := by omega
    exact .free hfree
  | succ steps ih => exact .retry (hbefore i (by omega)) (ih (i := i + 1) (by omega) (by omega))

/-- The first free candidate is what a search without a bound comes to. -/
theorem search_firstFree :
    ∃ count ≤ taken.length + 1, Search stem taken stem 2 (firstFree stem taken) count := by
  obtain ⟨j, hj, hfirst, hfree, hbefore⟩ := exists_attempt stem taken
  rw [hfirst]
  exact ⟨j + 1, Nat.succ_le_succ hj, search_attempt stem taken (Nat.zero_le j) hfree hbefore⟩

end

theorem leastFree_nextName (origin : Entry → String) (taken : List String) (e : Entry) :
    LeastFree (fileBase e.container) (origin e) taken
      (nextName .disambiguate origin taken e) := by
  unfold nextName
  simp only
  split
  · rename_i hbase
    exact .plain hbase
  · rename_i hbase
    rw [not_not] at hbase
    obtain ⟨j, -, hfirst, hfree, hbefore⟩ :=
      exists_attempt (fileBase e.container ++ "-" ++ origin e) taken
    rw [hfirst]
    cases j with
    | zero => exact .hashed hbase hfree
    | succ j =>
      refine .numbered hbase (hbefore 0 (by omega)) (by omega) hfree ?_
      intro m hm hless
      obtain ⟨i, rfl⟩ : ∃ i, m = i + 2 := ⟨m - 2, by omega⟩
      exact hbefore (i + 1) (by omega)

theorem search_nextName (origin : Entry → String) {taken : List String} {e : Entry}
    (h : fileBase e.container ∈ taken) :
    ∃ count ≤ taken.length + 1, Search (fileBase e.container ++ "-" ++ origin e) taken
      (fileBase e.container ++ "-" ++ origin e) 2 (nextName .disambiguate origin taken e)
      count := by
  unfold nextName
  simp only
  rw [if_neg (not_not_intro h)]
  exact search_firstFree _ taken

theorem nextName_reverse (policy : Collision) (origin : Entry → String) (taken : List String)
    (e : Entry) : nextName policy origin taken.reverse e = nextName policy origin taken e := by
  simp [nextName, firstFree]

theorem getElem?_names (policy : Collision) (origin : Entry → String) {entries : List Entry}
    {k : Nat} {e : Entry} (h : entries[k]? = some e) :
    (names policy origin entries)[k]? =
      some (policy.nextName origin ((names policy origin entries).take k) e) := by
  have hname := getElem?_namesFrom policy origin h []
  rw [List.append_nil, nextName_reverse] at hname
  exact hname

theorem take_names (policy : Collision) (origin : Entry → String) (front rest : List Entry) :
    (names policy origin (front ++ rest)).take front.length = names policy origin front := by
  unfold names
  rw [← namesFrom_take, List.take_left]

theorem namesFrom_of_nodup (policy : Collision) (origin : Entry → String) {entries : List Entry}
    (hnodup : (entries.map (fileBase ·.container)).Nodup) {taken : List String}
    (hnew : ∀ e ∈ entries, fileBase e.container ∉ taken) :
    namesFrom policy origin taken entries = entries.map (fileBase ·.container) := by
  induction entries generalizing taken with
  | nil => rfl
  | cons e rest ih =>
    rw [List.map_cons, List.nodup_cons] at hnodup
    rw [List.forall_mem_cons] at hnew
    have hname : nextName policy origin taken e = fileBase e.container := by
      unfold nextName
      exact if_pos hnew.1
    rw [namesFrom, hname, List.map_cons, ih hnodup.2]
    intro later hlater hmem
    rcases List.mem_cons.mp hmem with heq | hmem
    · exact hnodup.1 (heq ▸ List.mem_map_of_mem hlater)
    · exact hnew.2 later hlater hmem

theorem names_of_nodup (policy : Collision) (origin : Entry → String) {entries : List Entry}
    (h : (entries.map (fileBase ·.container)).Nodup) :
    names policy origin entries = entries.map (fileBase ·.container) :=
  namesFrom_of_nodup policy origin h fun _ _ => List.not_mem_nil

/-- Every entry gets the least free name after those given before it, found in at most one attempt
more than there are such names; the names of the first entries do not depend on the rest; and where
no two containers have one name the policies agree. -/
theorem names_least_free (origin : Entry → String) (entries : List Entry) :
    (∀ k e, entries[k]? = some e →
      ∃ given name, given = (names .disambiguate origin entries).take k ∧
        (names .disambiguate origin entries)[k]? = some name ∧
        LeastFree (fileBase e.container) (origin e) given name ∧
        (fileBase e.container ∈ given → ∃ count ≤ given.length + 1,
          Search (fileBase e.container ++ "-" ++ origin e) given
            (fileBase e.container ++ "-" ++ origin e) 2 name count)) ∧
    (∀ policy front rest, entries = front ++ rest →
      (names policy origin entries).take front.length = names policy origin front) ∧
    ((entries.map (fileBase ·.container)).Nodup →
      names .overwrite origin entries = names .disambiguate origin entries) := by
  refine ⟨?_, ?_, ?_⟩
  · intro k e he
    exact ⟨_, _, rfl, getElem?_names .disambiguate origin he, leastFree_nextName origin _ e,
      search_nextName origin⟩
  · rintro policy front rest rfl
    exact take_names policy origin front rest
  · intro hnodup
    rw [names_of_nodup .overwrite origin hnodup, names_of_nodup .disambiguate origin hnodup]

def crowded : List Entry :=
  [{ container := "a b" }, { container := "a/b" }, { container := "a_b-00000000-2" },
    { container := "a\\b" }]

theorem names_least_free_crowded :
    names .disambiguate (fun _ => "00000000") crowded =
        ["a_b", "a_b-00000000", "a_b-00000000-2", "a_b-00000000-3"] ∧
      (∃ count ≤ 4, Search "a_b-00000000" ["a_b", "a_b-00000000", "a_b-00000000-2"]
        "a_b-00000000" 2 "a_b-00000000-3" count) ∧
      names .disambiguate (fun _ => "00000000") (crowded.take 2) = ["a_b", "a_b-00000000"] ∧
      names .overwrite (fun _ => "00000000") (crowded.drop 2) =
        names .disambiguate (fun _ => "00000000") (crowded.drop 2) := by
  have hnames : names .disambiguate (fun _ => "00000000") crowded =
      ["a_b", "a_b-00000000", "a_b-00000000-2", "a_b-00000000-3"] := by decide
  obtain ⟨hleast, hfront, -⟩ := names_least_free (fun _ => "00000000") crowded
  obtain ⟨given, name, rfl, hname, -, hsearch⟩ := hleast 3 { container := "a\\b" } rfl
  rw [hnames] at hname hsearch
  obtain rfl := Option.some.inj hname
  refine ⟨hnames, hsearch (by decide), ?_, ?_⟩
  · rw [← hfront .disambiguate (crowded.take 2) (crowded.drop 2) rfl, hnames]
    rfl
  · exact (names_least_free (fun _ => "00000000") (crowded.drop 2)).2.2 (by decide)

end Collision

end ApiAtlas
