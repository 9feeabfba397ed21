import LintPatrol.Database.Operations
import LintPatrol.Proofs.Store.History

/-!
# LintPatrol.Proofs.Database.Undamaged

A database file without damaged cells behaves like its store: every call is
answered alike, and leaves the file of the store that it leaves there.  So what
is proved of all runs of a store holds of all runs of such a file.

## Main statements

* `Database.perform_ofStore`: one call.
* `Database.events_ofStore`, `Database.after_ofStore`: a run.
* `Database.listFindings_ofStore`, `Database.linterStats_ofStore`: the lists for
  those who judge findings; neither fails.
-/

namespace LintPatrol

open Time

/-- A store that refuses a call is left as it was. -/
theorem Store.eq_of_refused {s : Store} {c : StoreCall} {e : StoreError}
    (hc : c.isRegistry = false) (h : (c.perform s).1 = .refused e) : (c.perform s).2 = s := by
  have hchange := s.change_perform c
  rw [h] at hchange
  generalize (c.perform s).2 = s' at hchange
  cases hchange with
  | registered _ hr =>
    rw [hc] at hr
    cases hr
  | refused => rfl

namespace Database

variable {α : Type} (s : Store)

/-! ## No damage -/

@[simp] theorem store_ofStore : (ofStore s).store = s := rfl

/-- No cell of it is damaged. -/
@[simp] theorem isDamaged_ofStore (row : RowRef) (columns : List String) :
    (ofStore s).isDamaged row columns = false := rfl

@[simp] theorem taskDamaged_ofStore (columns : List String) (t : TaskRow) :
    (ofStore s).taskDamaged columns t = false := rfl

@[simp] theorem mend_ofStore (row : RowRef) (columns : List String) :
    (ofStore s).mend row columns = ofStore s := rfl

@[simp] theorem forget_ofStore (row : RowRef) : (ofStore s).forget row = ofStore s := rfl

/-- Nothing is at fault with the cells that a row is read from. -/
@[simp] theorem read_ofStore (outer : String) (checks : List Check) (value : α) :
    (ofStore s).read outer checks value = .ok value := by
  have hf : checks.findSome? (·.fault? (ofStore s)) = none :=
    List.findSome?_eq_none_iff.mpr fun k _ => rfl
  rw [read, hf]

/-- No task is out of reach. -/
theorem without_ofStore (aside : TaskRow → Bool) (h : ∀ t, aside t = false)
    (op : Store → α × Store) :
    (ofStore s).without aside op = ((op s).1, ofStore (op s).2) := by
  have hp : (ofStore s).store.tasks.partition aside = ([], s.tasks) := by
    rw [List.partition_eq_filter_filter, List.filter_eq_nil_iff.mpr (by simp [h]),
      List.filter_eq_self.mpr (by simp [h])]
    rfl
  simp only [without, hp, List.nil_append]
  rfl

/-! ## Calls -/

/-- A task is added as to the store. -/
theorem tryAdd_ofStore (t : Task) (now : Instant) :
    (ofStore s).tryAdd t now = ((s.tryAdd t now).1, ofStore (s.tryAdd t now).2) := by
  unfold tryAdd
  simp only [without_ofStore s _ (taskDamaged_ofStore s _)]
  cases hr : (s.tryAdd t now).1 with
  | ok => simp
  | error e => rfl

/-- A task is taken as from the store. -/
theorem tryTake_ofStore (horizon now : Instant) :
    (ofStore s).tryTake horizon now =
      ((s.tryTake horizon now).1, ofStore (s.tryTake horizon now).2) := by
  have haged := without_ofStore s
    (fun t => (ofStore s).taskDamaged ["lint_status", "locked_at"] t ||
      (ofStore s).taskDamaged ["created_at"] t) (fun _ => rfl) (Store.tryTake horizon now)
  have hall := without_ofStore s ((ofStore s).taskDamaged ["lint_status", "locked_at"])
    (fun _ => rfl) (Store.tryTake horizon now)
  unfold tryTake
  simp only [haged]
  cases hr : (s.tryTake horizon now).1 with
  | error e =>
    have hs : (s.tryTake horizon now).2 = s :=
      Store.eq_of_refused (c := .tryTake horizon now) rfl (congrArg StoreAnswer.ofTaken hr)
    rw [hr, hs] at hall
    rw [hs]
    cases e <;> simp [hall]
  | ok t =>
    simp only [read_ofStore]
    split <;> rfl

/-- A result is recorded as in the store. -/
theorem set_ofStore (t : Task) (r : TaskResult) (completedAt : Instant) :
    (ofStore s).set t r completedAt =
      ((s.set t r completedAt).1, ofStore (s.set t r completedAt).2) := by
  have hunlocked : ({ ofStore s with
      store :=
        { (ofStore s).store with
          tasks := (ofStore s).store.tasks.map fun u =>
            if (ofStore s).taskDamaged ["locked_at"] u then { u with lockedAt := none } else u } } :
      Database) = ofStore s := by
    simp only [taskDamaged_ofStore, Bool.false_eq_true, if_false, List.map_id']
  have hapart := without_ofStore s ((ofStore s).taskDamaged ["lint_id", "lint_status"])
    (fun _ => rfl) (Store.set t r completedAt)
  unfold set
  simp only [hunlocked, hapart]
  cases hr : (s.set t r completedAt).1 with
  | ok => simp
  | error e =>
    have hs : (s.set t r completedAt).2 = s :=
      Store.eq_of_refused (c := .set t r completedAt) rfl (congrArg StoreAnswer.ofOutcome hr)
    rw [hs]
    cases e <;> simp

theorem putRepo_ofStore (repo : Repo) :
    (ofStore s).putRepo repo = ofStore (s.putRepo repo) := by
  unfold putRepo
  simp only [isDamaged_ofStore, Bool.false_eq_true, if_false, mend_ofStore]
  rfl

theorem deleteRepo_ofStore (id : String) :
    (ofStore s).deleteRepo id = ((s.deleteRepo id).1, ofStore (s.deleteRepo id).2) := by
  simp [deleteRepo, ofStore, forget, isDamaged]

theorem putLinter_ofStore (linter : Linter) :
    (ofStore s).putLinter linter = ofStore (s.putLinter linter) := by
  simp [putLinter, ofStore, mend]

theorem deleteLinter_ofStore (id : String) :
    (ofStore s).deleteLinter id = ((s.deleteLinter id).1, ofStore (s.deleteLinter id).2) := by
  simp [deleteLinter, ofStore, forget, isDamaged]

section Hits

variable {l : List α} {p : α → Bool}

/-- As many places of a list are hit as elements. -/
theorem length_hits : (l.zipIdx.filter fun q => p q.1).length = l.countP p :=
  calc
    _ = l.zipIdx.countP (p ∘ Prod.fst) := List.countP_eq_length_filter.symm
    _ = (l.zipIdx.map Prod.fst).countP p := List.countP_map.symm
    _ = l.countP p := by rw [List.zipIdx_map_fst]

/-- A place is hit just if its element is. -/
theorem contains_hits {q : α × Nat} (hq : q ∈ l.zipIdx) :
    ((l.zipIdx.filter fun q => p q.1).map Prod.snd).contains q.2 = p q.1 := by
  rw [Bool.eq_iff_iff, List.contains_iff_mem, List.mem_map]
  constructor
  · rintro ⟨q', hq', hi⟩
    obtain ⟨hm, hp⟩ := List.mem_filter.mp hq'
    have h := (List.mem_zipIdx_iff_getElem?.mp hm).symm.trans
      (hi ▸ List.mem_zipIdx_iff_getElem?.mp hq)
    rwa [← Option.some.inj h]
  · exact fun hp => ⟨q, List.mem_filter.mpr ⟨hq, hp⟩, rfl⟩

/-- The elements at the places that are hit are those that are hit. -/
theorem map_hits (f : α → α) :
    (l.zipIdx.map fun q =>
      if ((l.zipIdx.filter fun q => p q.1).map Prod.snd).contains q.2 then f q.1 else q.1) =
      l.map fun x => if p x then f x else x :=
  calc
    _ = l.zipIdx.map ((fun x => if p x then f x else x) ∘ Prod.fst) :=
      List.map_congr_left fun q hq => by rw [contains_hits hq]; rfl
    _ = (l.zipIdx.map Prod.fst).map fun x => if p x then f x else x := List.map_map.symm
    _ = l.map fun x => if p x then f x else x := by rw [List.zipIdx_map_fst]

end Hits

/-- A verdict is given as in the store. -/
theorem moderate_ofStore (taskId path : String) (startLine endLine : UInt64) (m : Moderation) :
    (ofStore s).moderate taskId path startLine endLine m =
      ((s.moderate taskId path startLine endLine m).1,
        ofStore (s.moderate taskId path startLine endLine m).2) := by
  have hmend : ∀ hits : List Nat,
      hits.foldl
        (fun d i =>
          d.mend (.finding i)
            ["moderation_status", "moderator", "moderated_at", "moderation_comment"])
        (ofStore s) = ofStore s := by
    intro hits
    induction hits with
    | nil => rfl
    | cons i hits ih => simpa using ih
  have hcount := length_hits (l := s.findings) (p := (·.isAt taskId path startLine endLine))
  have hmap := map_hits (l := s.findings) (p := (·.isAt taskId path startLine endLine))
    (FindingRow.judge m)
  unfold moderate Store.moderate
  simp only [hmend, isDamaged_ofStore, Bool.not_false, Bool.and_true, List.length_map]
  exact Prod.ext hcount (congrArg (fun findings => ofStore { s with findings }) hmap)

/-! ## Lists -/

/-- Nothing is at fault with the rows of a list. -/
theorem mapM_read_ofStore {β : Type} (outer : String) (checks : α → List Check) (value : α → β)
    (rows : List α) :
    (rows.mapM fun r => (ofStore s).read outer (checks r) (value r)) =
      .ok (rows.map value) := by
  simp only [read_ofStore]
  exact List.mapM_pure

theorem listLinters_ofStore : (ofStore s).listLinters = .ok s.listLinters :=
  mapM_read_ofStore s "Failed to read linter row" linterChecks LinterRow.read s.linterRows

/-- A finding that is reported without its place in the order of findings. -/
theorem map_reported_ofStore :
    (ofStore s).reported.map (fun x => (x.1, x.2.1)) = s.reported := by
  let found (r : FindingRow) : Option (TaskRow × FindingRow) :=
    (s.tasks.find? (·.id = r.taskId)).map (·, r)
  calc
    _ = s.findings.zipIdx.filterMap (found ∘ Prod.fst) := by
      simp [reported, List.map_filterMap, found, Function.comp_def]
    _ = (s.findings.zipIdx.map Prod.fst).filterMap found := List.filterMap_map.symm
    _ = s.reported := by rw [List.zipIdx_map_fst, Store.reported]

/-- No task is without an age. -/
theorem partition_ofStore (columns : List String) (l : List (TaskRow × α)) :
    l.partition (fun x => (ofStore s).taskDamaged columns x.1) = ([], l) := by
  simp [List.partition_eq_filter_filter]

/-- Findings are listed as those of the store. -/
theorem listFindings_ofStore (q : FindingFilter) :
    (ofStore s).listFindings q = .ok (s.listFindings q) := by
  have hsorted : ((ofStore s).reported.mergeSort
        (fun a b => a.1.createdAt ≤ b.1.createdAt)).map (fun x => (x.1, x.2.1)) =
      s.reportedByAge := by
    rw [Store.reportedByAge, ← map_reported_ofStore]
    exact List.map_mergeSort fun _ _ _ _ => rfl
  simp only [listFindings, partition_ofStore, List.append_nil, mapM_read_ofStore]
  simp only [Store.listFindings, ← hsorted]
  simp only [admits, taskDamaged_ofStore, Bool.and_false, Bool.not_false, Bool.and_true,
    bind_pure_comp, List.filter_map, Function.comp_def, List.map_map]
  rfl

/-- So are the statistics. -/
theorem linterStats_ofStore : (ofStore s).linterStats = .ok s.linterStats := by
  simp only [linterStats, listLinters_ofStore, mapM_read_ofStore]
  rfl

/-! ## Runs -/

/-- Carries out the call on a file: its answer, and the file that it leaves. -/
def perform (c : StoreCall) (d : Database) : StoreAnswer × Database :=
  match c with
  | .tryAdd t now => (.ofOutcome (d.tryAdd t now).1, (d.tryAdd t now).2)
  | .tryTake horizon now => (.ofTaken (d.tryTake horizon now).1, (d.tryTake horizon now).2)
  | .set held r completedAt =>
    (.ofOutcome (d.set held r completedAt).1, (d.set held r completedAt).2)
  | .moderate taskId path startLine endLine m =>
    (.judged (d.moderate taskId path startLine endLine m).1,
      (d.moderate taskId path startLine endLine m).2)
  | .putRepo repo => (.done, d.putRepo repo)
  | .deleteRepo id => (.existed (d.deleteRepo id).1, (d.deleteRepo id).2)
  | .putLinter linter => (.done, d.putLinter linter)
  | .deleteLinter id => (.existed (d.deleteLinter id).1, (d.deleteLinter id).2)

/-- The file that calls leave. -/
def after (d : Database) : List StoreCall → Database
  | [] => d
  | c :: cs => (d.perform c).2.after cs

/-- The calls with their answers. -/
def events (d : Database) : List StoreCall → List StoreEvent
  | [] => []
  | c :: cs => ⟨c, (d.perform c).1⟩ :: (d.perform c).2.events cs

/-- **A call is answered alike**, and leaves the file of the store that it
leaves there. -/
theorem perform_ofStore (c : StoreCall) :
    (ofStore s).perform c = ((c.perform s).1, ofStore (c.perform s).2) := by
  cases c with
  | tryAdd t now => rw [perform, tryAdd_ofStore]; rfl
  | tryTake horizon now => rw [perform, tryTake_ofStore]; rfl
  | set held r completedAt => rw [perform, set_ofStore]; rfl
  | moderate taskId path startLine endLine m => rw [perform, moderate_ofStore]; rfl
  | putRepo repo => rw [perform, putRepo_ofStore]; rfl
  | deleteRepo id => rw [perform, deleteRepo_ofStore]; rfl
  | putLinter linter => rw [perform, putLinter_ofStore]; rfl
  | deleteLinter id => rw [perform, deleteLinter_ofStore]; rfl

/-- **A run leaves the file of the store that it leaves there.** -/
theorem after_ofStore (cs : List StoreCall) :
    (ofStore s).after cs = ofStore (s.after cs) := by
  induction cs generalizing s with
  | nil => rfl
  | cons c cs ih =>
    rw [after, perform_ofStore]
    exact ih _

/-- **The calls of a run are answered alike.** -/
theorem events_ofStore (cs : List StoreCall) :
    (ofStore s).events cs = s.events cs := by
  induction cs generalizing s with
  | nil => rfl
  | cons c cs ih =>
    rw [events, perform_ofStore]
    exact congrArg _ (ih _)

end Database

end LintPatrol
