import ApiAtlas.Extraction
import Mathlib.Logic.Function.Iterate
import Mathlib.Data.List.Nodup

/-!
Workers that take turns. A step never changes what a worker will have reported in the end, and it
brings the end nearer, so any schedule that lets every worker step often enough gives the reports the
groups have one by one.
-/
namespace ApiAtlas

@[simp] theorem Report.concat_nil : concat [] = {} := rfl

namespace Scanner

@[simp] theorem report_nil (t : FileTree) (s : Scanner) : s.report t [] = {} := rfl

theorem report_cons (t : FileTree) (s : Scanner) (path : Path) (files : List Path) :
    s.report t (path :: files) = s.reportFile t path ++ s.report t files := rfl

end Scanner

namespace Worker

def heldReport (w : Worker) : Report :=
  match w.scanner, w.held with
  | .grammar g, some (path, text) => { entries := g.scan path text }
  | _, _ => {}

/-- What a worker will have reported in the end. -/
def outcome (t : FileTree) (w : Worker) : Report :=
  w.report ++ (w.heldReport ++ w.scanner.report t w.pending)

def remaining (w : Worker) : Nat :=
  2 * w.pending.length + if w.held.isSome then 1 else 0

theorem outcome_step (t : FileTree) (w : Worker) : (w.step t).outcome t = w.outcome t := by
  obtain ⟨scanner, pending, held, report⟩ := w
  cases held with
  | some file =>
    cases scanner with
    | grammar g => simp [step, outcome, heldReport, Report.append_assoc]
    | stub l => simp [step, outcome, heldReport]
  | none =>
    cases pending with
    | nil => rfl
    | cons path pending =>
      cases scanner with
      | stub l =>
        simp [step, outcome, heldReport, Scanner.report_cons, Scanner.reportFile, Report.append_assoc]
      | grammar g =>
        cases hread : t.readText path with
        | ok text =>
          simp [step, outcome, heldReport, hread, Scanner.report_cons, Scanner.reportFile]
        | error e =>
          simp [step, outcome, heldReport, hread, Scanner.report_cons, Scanner.reportFile,
            Report.append_assoc]

theorem remaining_step (t : FileTree) (w : Worker) :
    (w.step t).remaining ≤ w.remaining - 1 := by
  obtain ⟨scanner, pending, held, report⟩ := w
  cases held with
  | some file => cases scanner <;> simp [step, remaining]
  | none =>
    cases pending with
    | nil => simp [step, remaining]
    | cons path pending =>
      cases scanner with
      | stub l =>
        simp [step, remaining]
        omega
      | grammar g =>
        cases hread : t.readText path <;> simp [step, remaining, hread] <;> omega

theorem report_of_remaining (t : FileTree) (w : Worker) (h : w.remaining = 0) :
    w.report = w.outcome t := by
  obtain ⟨scanner, pending, held, report⟩ := w
  have hpending : pending = [] := by
    apply List.eq_nil_of_length_eq_zero
    simp only [remaining] at h
    omega
  have hheld : held = none := by
    cases held with
    | none => rfl
    | some file => simp [remaining] at h
  subst hpending hheld
  cases scanner <;> simp [outcome, heldReport]

theorem outcome_iterate (t : FileTree) (n : Nat) (w : Worker) :
    ((step t)^[n] w).outcome t = w.outcome t := by
  induction n generalizing w with
  | zero => rfl
  | succ n ih => rw [Function.iterate_succ_apply, ih, outcome_step]

theorem remaining_iterate (t : FileTree) (n : Nat) (w : Worker) :
    ((step t)^[n] w).remaining ≤ w.remaining - n := by
  induction n generalizing w with
  | zero => simp
  | succ n ih =>
    rw [Function.iterate_succ_apply]
    have hrest := ih (w.step t)
    have hstep := remaining_step t w
    omega

theorem getElem?_runSchedule (t : FileTree) (workers : List Worker) (schedule : List Nat)
    (i : Nat) :
    (runSchedule t workers schedule)[i]? = workers[i]?.map ((step t)^[schedule.count i]) := by
  induction schedule generalizing workers with
  | nil => simp [runSchedule]
  | cons j schedule ih =>
    have hrun : runSchedule t workers (j :: schedule) =
        runSchedule t (workers.modify j (step t)) schedule := rfl
    rw [hrun, ih, List.getElem?_modify, List.count_cons]
    by_cases h : j = i
    · subst h
      simp [Function.iterate_succ, Function.comp_def]
    · simp [h]

/-- Any order of steps will do, as long as every worker gets to its end. -/
theorem reports_runSchedule (t : FileTree) (workers : List Worker) (schedule : List Nat)
    (henough : ∀ i w, workers[i]? = some w → w.remaining ≤ schedule.count i) :
    (runSchedule t workers schedule).map (·.report) = workers.map (outcome t) := by
  apply List.ext_getElem?
  intro i
  rw [List.getElem?_map, List.getElem?_map, getElem?_runSchedule, Option.map_map]
  cases hw : workers[i]? with
  | none => rfl
  | some w =>
    have hdone : ((step t)^[schedule.count i] w).remaining = 0 := by
      have hleft := remaining_iterate t (schedule.count i) w
      have hcount := henough i w hw
      omega
    simp only [Option.map_some, Function.comp_apply, report_of_remaining t _ hdone,
      outcome_iterate]

theorem le_foldl_max (ns : List Nat) (k n : Nat) (h : n ≤ k ∨ n ∈ ns) : n ≤ ns.foldl max k := by
  induction ns generalizing k with
  | nil => simpa using h
  | cons x ns ih =>
    apply ih
    rcases h with h | h
    · left; omega
    · rcases List.mem_cons.mp h with rfl | h
      · left; omega
      · right; exact h

theorem count_rounds (workers : List Worker) (i : Nat) (hi : i < workers.length) :
    (rounds workers).count i = 2 * (workers.map (·.pending.length)).foldl max 0 := by
  have hround : (List.range workers.length).count i = 1 :=
    List.count_eq_one_of_mem List.nodup_range (List.mem_range.mpr hi)
  simp [rounds, List.count_flatten, hround]

end Worker

namespace Registry

theorem outcome_hire (r : Registry) (t : FileTree) (groups : List Group) :
    (r.hire groups).map (Worker.outcome t) = groups.map (r.reportGroup t) := by
  unfold hire
  rw [List.map_map]
  apply List.map_congr_left
  intro g _
  cases h : r.resolve g.language <;>
    simp [Worker.outcome, Worker.heldReport, reportGroup, h]

theorem reportAtOnce_eq (r : Registry) (t : FileTree) (groups : List Group) :
    r.reportAtOnce t groups = r.reportInTurn t groups := by
  simp only [reportAtOnce, reportInTurn]
  rw [Worker.reports_runSchedule t (r.hire groups), outcome_hire]
  intro i w hw
  have hi : i < (r.hire groups).length := (List.getElem?_eq_some_iff.mp hw).1
  rw [Worker.count_rounds (r.hire groups) i hi]
  have hmem : w ∈ r.hire groups := List.mem_of_getElem? hw
  have hheld : w.held = none := by
    obtain ⟨g, -, rfl⟩ := List.mem_map.mp hmem
    rfl
  have hlongest := Worker.le_foldl_max ((r.hire groups).map (·.pending.length)) 0 w.pending.length
    (.inr (List.mem_map.mpr ⟨w, hmem, rfl⟩))
  simp only [Worker.remaining, hheld, Option.isSome_none, Bool.false_eq_true, if_false]
  omega

end Registry

end ApiAtlas
