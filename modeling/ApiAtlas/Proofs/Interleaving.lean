import ApiAtlas.Proofs.Extraction
import ApiAtlas.Service
import Mathlib

/-!
A crew that is left to itself. It hires a worker for each group, and once all are hired it collects
their reports in the order of the groups, each when its worker is done; workers step in any order
from when they are hired. Every run comes to an end, none gets stuck before, and whatever the order
was, the reports collected are those of the groups one by one.
-/
namespace ApiAtlas

def Worker.IsDone (w : Worker) : Prop := w.pending = [] ∧ w.held = none

theorem Worker.isDone_iff (w : Worker) : w.IsDone ↔ w.remaining = 0 := by
  unfold IsDone remaining
  rw [← List.length_eq_zero_iff]
  cases w.held with
  | none =>
    simp only [Option.isSome_none, Bool.false_eq_true, if_false, and_true]
    omega
  | some file => simp

def Registry.worker (r : Registry) (g : Group) : Worker where
  scanner := r.resolve g.language
  pending := g.files

@[simp] theorem Registry.outcome_worker (r : Registry) (t : FileTree) (g : Group) :
    (r.worker g).outcome t = r.reportGroup t g := by
  have hhire := r.outcome_hire t [g]
  exact (List.cons.inj hhire).1

@[simp] theorem Registry.remaining_worker (r : Registry) (g : Group) :
    (r.worker g).remaining = 2 * g.files.length := rfl

/-- Groups that have no worker yet, the workers in the order they were hired in, and the reports
collected so far. -/
structure Crew where
  waiting : List Group
  workers : List Worker := []
  collected : List Report := []

namespace Crew

/-- What may happen next in a crew. -/
inductive Step (r : Registry) (t : FileTree) : Crew → Crew → Prop where
  | hire (g : Group) (waiting : List Group) (workers : List Worker) :
      Step r t ⟨g :: waiting, workers, []⟩ ⟨waiting, workers ++ [r.worker g], []⟩
  | work (waiting : List Group) (front : List Worker) (w : Worker) (back : List Worker)
      (collected : List Report) (hbusy : ¬ w.IsDone) :
      Step r t ⟨waiting, front ++ w :: back, collected⟩
        ⟨waiting, front ++ w.step t :: back, collected⟩
  | collect (front : List Worker) (w : Worker) (back : List Worker) (collected : List Report)
      (hnext : collected.length = front.length) (hdone : w.IsDone) :
      Step r t ⟨[], front ++ w :: back, collected⟩
        ⟨[], front ++ w :: back, collected ++ [w.report]⟩

abbrev Runs (r : Registry) (t : FileTree) : Crew → Crew → Prop :=
  Relation.ReflTransGen (Step r t)

def IsFinished (crew : Crew) : Prop :=
  crew.waiting = [] ∧ crew.collected.length = crew.workers.length

/-- What every step keeps: the workers' outcomes and the groups that wait add up to the reports of
all groups, and what is collected are the first of the outcomes. -/
structure Accounts (r : Registry) (t : FileTree) (groups : List Group) (crew : Crew) : Prop where
  total : crew.workers.map (Worker.outcome t) ++ crew.waiting.map (r.reportGroup t) =
    groups.map (r.reportGroup t)
  collected : crew.collected <+: crew.workers.map (Worker.outcome t)
  inOrder : crew.waiting = [] ∨ crew.collected = []

variable {r : Registry} {t : FileTree} {groups : List Group} {crew later : Crew}

theorem accounts_start (r : Registry) (t : FileTree) (groups : List Group) :
    Accounts r t groups { waiting := groups } where
  total := rfl
  collected := List.nil_prefix
  inOrder := .inr rfl

theorem Accounts.step (h : Accounts r t groups crew) (hstep : Step r t crew later) :
    Accounts r t groups later := by
  cases hstep with
  | hire g waiting workers =>
    refine ⟨?_, List.nil_prefix, .inr rfl⟩
    rw [← h.total]
    simp
  | work waiting front w back collected hbusy =>
    have houtcomes : (front ++ w.step t :: back).map (Worker.outcome t) =
        (front ++ w :: back).map (Worker.outcome t) := by
      simp [Worker.outcome_step]
    refine ⟨?_, ?_, h.inOrder⟩
    · rw [← h.total, houtcomes]
    · rw [houtcomes]
      exact h.collected
  | collect front w back collected hnext hdone =>
    refine ⟨h.total, ?_, .inl rfl⟩
    have hreport := Worker.report_of_remaining t w (w.isDone_iff.mp hdone)
    -- As many are collected as there are workers in front, so these are exactly theirs.
    have hfront : collected = front.map (Worker.outcome t) := by
      have htake := List.prefix_iff_eq_take.mp h.collected
      simpa [hnext] using htake
    rw [hfront, hreport]
    simp

theorem Accounts.runs (h : Accounts r t groups crew) (hruns : Runs r t crew later) :
    Accounts r t groups later := by
  induction hruns with
  | refl => exact h
  | tail _ hstep ih => exact ih.step hstep

theorem Accounts.collected_eq (h : Accounts r t groups crew) (hfinished : crew.IsFinished) :
    crew.collected = groups.map (r.reportGroup t) := by
  obtain ⟨hwaiting, hlength⟩ := hfinished
  have htotal := h.total
  rw [hwaiting, List.map_nil, List.append_nil] at htotal
  rw [← htotal]
  exact h.collected.eq_of_length (by simpa using hlength)

/-- A crew that is not finished can go on: the next report is waited for, and its worker is done or
can work. -/
theorem Accounts.exists_step (h : Accounts r t groups crew) (hopen : ¬ crew.IsFinished) :
    ∃ later, Step r t crew later := by
  obtain ⟨waiting, workers, collected⟩ := crew
  cases waiting with
  | cons g waiting =>
    have hnone : collected = [] := h.inOrder.resolve_left (List.cons_ne_nil g waiting)
    subst hnone
    exact ⟨_, .hire g waiting workers⟩
  | nil =>
    have hle : collected.length ≤ workers.length := by simpa using h.collected.length_le
    have hne : collected.length ≠ workers.length := fun heq => hopen ⟨rfl, heq⟩
    have hlt : collected.length < workers.length := by omega
    have hsplit := List.take_append_drop collected.length workers
    rw [List.drop_eq_getElem_cons hlt] at hsplit
    have hfront : collected.length = (workers.take collected.length).length := by simp [hle]
    rw [← hsplit]
    by_cases hdone : (workers[collected.length]).IsDone
    · exact ⟨_, .collect _ _ _ collected hfront hdone⟩
    · exact ⟨_, .work [] _ _ _ collected hdone⟩

/-- Steps that are left: one to hire and one to collect for each group, and the workers' own. -/
def toGo (crew : Crew) : Nat :=
  (crew.waiting.map fun g => 2 * g.files.length + 2).sum +
    (crew.workers.map Worker.remaining).sum + (crew.workers.length - crew.collected.length)

theorem toGo_step (hstep : Step r t crew later) : later.toGo < crew.toGo := by
  cases hstep with
  | hire g waiting workers =>
    simp only [toGo, List.map_append, List.map_cons, List.map_nil, Registry.remaining_worker,
      List.sum_append, List.sum_cons, List.sum_nil, List.length_append, List.length_cons,
      List.length_nil]
    omega
  | work waiting front w back collected hbusy =>
    have hstep := Worker.remaining_step t w
    have hleft : w.remaining ≠ 0 := fun hzero => hbusy (w.isDone_iff.mpr hzero)
    simp only [toGo, List.map_append, List.map_cons, List.sum_append, List.sum_cons,
      List.length_append, List.length_cons]
    omega
  | collect front w back collected hnext hdone =>
    simp only [toGo, List.length_append, List.length_cons, List.length_nil]
    omega

theorem wellFounded_step (r : Registry) (t : FileTree) :
    WellFounded fun later crew => Step r t crew later :=
  Subrelation.wf (fun hstep => toGo_step hstep) (measure toGo).wf

theorem Accounts.exists_finished (h : Accounts r t groups crew) :
    ∃ last, Runs r t crew last ∧ last.IsFinished := by
  induction crew using (wellFounded_step r t).induction with
  | _ crew ih =>
    by_cases hfinished : crew.IsFinished
    · exact ⟨crew, .refl, hfinished⟩
    · obtain ⟨later, hstep⟩ := h.exists_step hfinished
      obtain ⟨last, hruns, hlast⟩ := ih later hstep (h.step hstep)
      exact ⟨last, .head hstep hruns, hlast⟩

end Crew

theorem Settings.report_parallel (s : Settings) (t : FileTree) (parallel : Bool)
    (p : ExtractParams) :
    ({ s with parallel := parallel } : Settings).report t p = s.report t p := by
  unfold Settings.report
  rw [Registry.extract_eq_concat, Registry.extract_eq_concat]
  rfl

/-- Workers make no difference. However their steps interleave and in whatever order they are done,
a run of the crew can always be brought to its end and always comes to it, with the report of the
groups in turn; so neither a report nor an answer tells whether there were workers. -/
theorem Registry.interleaving_eq_inTurn (r : Registry) (t : FileTree) (m : Manifest) :
    (∀ crew, Crew.Runs r t { waiting := m.groups } crew →
      (crew.IsFinished → Report.concat crew.collected = r.extract t false m) ∧
      ∃ last, Crew.Runs r t crew last ∧ last.IsFinished) ∧
    (WellFounded fun later crew => Crew.Step r t crew later) ∧
    r.extract t true m = r.extract t false m ∧
    ∀ (s : Settings) (parallel : Bool) (tool : Tool) (params : Option Json),
      ({ s with parallel := parallel } : Settings).handle t tool params =
        s.handle t tool params := by
  refine ⟨?_, Crew.wellFounded_step r t, ?_, ?_⟩
  · intro crew hruns
    have haccounts := (Crew.accounts_start r t m.groups).runs hruns
    refine ⟨fun hfinished => ?_, haccounts.exists_finished⟩
    rw [haccounts.collected_eq hfinished, extract_eq_concat]
    rfl
  · rw [extract_eq_concat, extract_eq_concat]
  · intro s parallel tool params
    cases tool with
    | extractApi =>
      unfold Settings.handle
      simp only [Settings.report_parallel]
    | buildManifest => rfl
    | scanDocs => rfl
    | renderApiDocs => rfl

end ApiAtlas
