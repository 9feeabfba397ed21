import Mathlib.Data.List.Nodup
import LintPatrol.Proofs.Store.History
import LintPatrol.Role.World
import LintPatrol.Role.Scheduler

/-!
# LintPatrol.Proofs.Store.Enqueue

Asking for a task again and again is as good as asking once.  A task is known
by its fingerprint, whatever name it is given, wherever its revision is fetched
from and however far it has come:

* `tryAdd_cases` says all that adding a task can come to;
* `Change.fingerprints` says that every call leaves the fingerprints in their
  order, behind which an added task puts its own; so those that were reported
  as added are, in order, those that are stored;
* no fingerprint is stored twice, and none is ever forgotten.

Schedulers share a store with all others who call it.  A `QueueStep` is a call
of anybody, or a scheduler that asks for a task; the latter is one call as well
(`QueueStep.toCall`), so what holds of all lists of calls holds of all
interleavings of any number of schedulers.
-/

namespace LintPatrol

open Time

/-! ## Known fingerprints -/

/-- The fingerprint of a linter run on a revision. -/
def Fingerprint.ofPair (repo : RepoRevision) (linter : LinterImage) : Fingerprint :=
  ⟨repo.commit, linter.id, linter.digest⟩

/-- The fingerprint that a call added, going by its answer. -/
def StoreEvent.added? (e : StoreEvent) : Option Fingerprint :=
  match e.call, e.answer with
  | .tryAdd t _, .done => some t.fingerprint
  | _, _ => none

namespace Store

variable {s s' : Store} {t : Task} {f : Fingerprint}

/-- A task with that fingerprint is stored. -/
def Knows (s : Store) (f : Fingerprint) : Prop := ∃ u ∈ s.tasks, u.fingerprint = f

theorem knows_iff_mem : s.Knows f ↔ f ∈ s.tasks.map TaskRow.fingerprint := List.mem_map.symm

theorem getTask_eq_none_iff {id : String} : s.getTask id = none ↔ ∀ u ∈ s.tasks, u.id ≠ id := by
  simp [getTask]

/-! ## What adding a task comes to -/

theorem any_fingerprint : s.tasks.any (·.fingerprint = f) = true ↔ s.Knows f := by
  simp [Knows]

/-- A task with a known fingerprint is a duplicate; a new one is refused if its
name is in use, and else added as one that nobody has taken yet. -/
theorem tryAdd_cases (s : Store) (t : Task) (now : Instant) :
    (s.Knows t.fingerprint ∧ s.tryAdd t now = (.error (.duplicateTask t.fingerprint), s)) ∨
      (¬s.Knows t.fingerprint ∧ (¬∀ u ∈ s.tasks, u.id ≠ t.id) ∧
        s.tryAdd t now = (.error (.database nameInUse), s)) ∨
      (¬s.Knows t.fingerprint ∧ (∀ u ∈ s.tasks, u.id ≠ t.id) ∧
        s.tryAdd t now = (.ok (), { s with tasks := s.tasks ++ [TaskRow.fresh t now] })) := by
  have hnamed : s.tasks.any (·.id = t.id) = true ↔ ¬∀ u ∈ s.tasks, u.id ≠ t.id := by simp
  by_cases hprint : s.Knows t.fingerprint
  · exact .inl ⟨hprint, by rw [tryAdd, if_pos (any_fingerprint.mpr hprint)]⟩
  · rw [tryAdd, if_neg (mt any_fingerprint.mp hprint)]
    by_cases hid : ∀ u ∈ s.tasks, u.id ≠ t.id
    · exact .inr (.inr ⟨hprint, hid, by rw [if_neg fun h => hnamed.mp h hid]⟩)
    · exact .inr (.inl ⟨hprint, hid, by rw [if_pos (hnamed.mpr hid)]⟩)

/-- The answer is that of a duplicate just if the fingerprint is known. -/
theorem tryAdd_duplicate_iff (now : Instant) :
    (s.tryAdd t now).1 = .error (.duplicateTask f) ↔ s.Knows f ∧ t.fingerprint = f := by
  rcases s.tryAdd_cases t now with ⟨h, heq⟩ | ⟨h, -, heq⟩ | ⟨h, -, heq⟩
  · rw [heq]
    constructor
    · rintro ⟨⟩
      exact ⟨h, rfl⟩
    · rintro ⟨-, rfl⟩
      rfl
  · have hnot : ¬(s.Knows f ∧ t.fingerprint = f) := fun ⟨hf, hprint⟩ => h (hprint ▸ hf)
    simp [heq, hnot]
  · have hnot : ¬(s.Knows f ∧ t.fingerprint = f) := fun ⟨hf, hprint⟩ => h (hprint ▸ hf)
    simp [heq, hnot]

/-- The task is added just if neither its fingerprint nor its name is stored. -/
theorem tryAdd_ok_iff (now : Instant) :
    (s.tryAdd t now).1 = .ok () ↔ ¬s.Knows t.fingerprint ∧ ∀ u ∈ s.tasks, u.id ≠ t.id := by
  rcases s.tryAdd_cases t now with ⟨h, heq⟩ | ⟨h, hid, heq⟩ | ⟨h, hid, heq⟩
  · simp [heq, h]
  · have hnot : ¬(¬s.Knows t.fingerprint ∧ ∀ u ∈ s.tasks, u.id ≠ t.id) := fun hnew => hid hnew.2
    simp only [heq, reduceCtorEq, hnot]
  · simp only [heq, h, true_iff, not_false_eq_true, true_and]
    exact hid

/-- A task that is not added leaves the store alone. -/
theorem tryAdd_not_ok {now : Instant} (h : (s.tryAdd t now).1 ≠ .ok ()) :
    (s.tryAdd t now).2 = s := by
  rcases s.tryAdd_cases t now with ⟨-, heq⟩ | ⟨-, -, heq⟩ | ⟨-, -, heq⟩
  · rw [heq]
  · rw [heq]
  · rw [heq] at h
    contradiction

/-- A task that is added is put behind all others. -/
theorem tryAdd_ok {now : Instant} (h : (s.tryAdd t now).1 = .ok ()) :
    (s.tryAdd t now).2 = { s with tasks := s.tasks ++ [TaskRow.fresh t now] } := by
  rcases s.tryAdd_cases t now with ⟨-, heq⟩ | ⟨-, -, heq⟩ | ⟨-, -, heq⟩
  · rw [heq] at h
    cases h
  · rw [heq] at h
    cases h
  · rw [heq]

/-- An added task is read back as a fresh one, created now; of what else is
said of it nothing is kept. -/
theorem getTask_tryAdd {now : Instant} (h : (s.tryAdd t now).1 = .ok ()) (id : String) :
    (s.tryAdd t now).2.getTask id =
      if id = t.id then some (Task.fresh t.id t.linter t.repo (Instant.ofMillis now.millis))
      else s.getTask id := by
  obtain ⟨-, hid⟩ := (tryAdd_ok_iff now).mp h
  rw [tryAdd_ok h]
  split
  · next heq =>
    have hnone : s.tasks.find? (·.id = t.id) = none :=
      List.find?_eq_none.mpr fun u hu => by simpa using hid u hu
    simp [getTask, List.find?_append, heq, hnone, TaskRow.fresh, TaskRow.read, Task.fresh]
  · next hne =>
    simp [getTask, List.find?_append, TaskRow.fresh, Ne.symm hne]

/-! ## Calls -/

/-- Every call leaves the fingerprints in their order, and puts behind them the
one that it adds. -/
theorem Change.fingerprints {e : StoreEvent} (h : Change s e s') :
    s'.tasks.map TaskRow.fingerprint =
      s.tasks.map TaskRow.fingerprint ++ e.added?.toList := by
  cases h with
  | added t now hid hprint => exact List.map_append
  | taken horizon now u hnext =>
    have hprints := map_updateTask s u.id TaskRow.fingerprint fun t =>
      (rfl : (t.lease now).fingerprint = t.fingerprint)
    exact hprints.trans (List.append_nil _).symm
  | recorded held r completedAt u hu hlease hr =>
    have hprints := map_updateTask s held.id TaskRow.fingerprint fun t =>
      (rfl : (t.finish r completedAt).fingerprint = t.fingerprint)
    exact hprints.trans (List.append_nil _).symm
  | judged => exact (List.append_nil _).symm
  | registered c hc a s' htasks hfindings =>
    have hnone : StoreEvent.added? ⟨c, a⟩ = none := by
      cases c <;> first | rfl | contradiction
    rw [htasks, hnone]
    exact (List.append_nil _).symm
  | refused c e =>
    have hnone : StoreEvent.added? ⟨c, .refused e⟩ = none := by cases c <;> rfl
    rw [hnone]
    exact (List.append_nil _).symm

/-- No call stores a fingerprint a second time. -/
theorem Change.fingerprints_nodup {e : StoreEvent} (h : Change s e s')
    (hs : (s.tasks.map TaskRow.fingerprint).Nodup) :
    (s'.tasks.map TaskRow.fingerprint).Nodup := by
  rw [h.fingerprints]
  cases he : e.added? with
  | none => simpa using hs
  | some f =>
    have hnew : f ∉ s.tasks.map TaskRow.fingerprint := by
      cases h with
      | added t now hid hprint =>
        intro hmem
        obtain ⟨u, hu, hprint'⟩ := List.mem_map.mp hmem
        exact hprint u hu (hprint'.trans (Option.some.inj he).symm)
      | taken | recorded | judged => cases he
      | registered c hc => cases c <;> first | cases he | cases hc
      | refused c => cases c <;> cases he
    rw [Option.toList_some, ← List.concat_eq_append]
    exact hs.concat hnew

/-! ## Runs of calls -/

/-- The fingerprints that a run reports as added are put behind those that were
stored. -/
theorem fingerprints_after (s : Store) (cs : List StoreCall) :
    (s.after cs).tasks.map TaskRow.fingerprint =
      s.tasks.map TaskRow.fingerprint ++ (s.events cs).filterMap StoreEvent.added? := by
  induction cs generalizing s with
  | nil => simp
  | cons c cs ih =>
    have hcons : (s.events (c :: cs)).filterMap StoreEvent.added? =
        (StoreEvent.added? ⟨c, (c.perform s).1⟩).toList ++
          ((c.perform s).2.events cs).filterMap StoreEvent.added? := by
      rw [events, List.filterMap_cons]
      cases StoreEvent.added? ⟨c, (c.perform s).1⟩ <;> rfl
    rw [after, ih, (s.change_perform c).fingerprints, hcons, List.append_assoc]

/-- Whatever is called, no fingerprint is stored twice. -/
theorem fingerprints_after_nodup {s : Store} (hs : (s.tasks.map TaskRow.fingerprint).Nodup)
    (cs : List StoreCall) : ((s.after cs).tasks.map TaskRow.fingerprint).Nodup := by
  induction cs generalizing s with
  | nil => exact hs
  | cons c cs ih => exact ih ((s.change_perform c).fingerprints_nodup hs)

/-- Whatever is called, no fingerprint is forgotten. -/
theorem Knows.after (h : s.Knows f) (cs : List StoreCall) : (s.after cs).Knows f := by
  rw [knows_iff_mem, fingerprints_after]
  exact List.mem_append_left _ (knows_iff_mem.mp h)

end Store

/-! ## Schedulers -/

namespace Services

variable {ε : Type} {sv : Services Store ε}

/-- The task that a scheduler asks for. -/
def wanted (sv : Services Store ε) (repo : RepoRevision) (linter : LinterImage)
    (w : World Store ε) : Task :=
  Task.fresh (sv.taskName w.named) linter repo (sv.clock w.time)

/-- What a scheduler makes of the answer to its request for a task. -/
def scheduledOf (taskId : String) : Except StoreError Unit → Except StoreError Scheduled
  | .ok () => .ok (.added taskId)
  | .error (.duplicateTask _) => .ok .duplicate
  | .error e => .error e

/-- To ask for a task is to try to add it, whoever keeps the store. -/
theorem schedule_answer (sv : Services Store ε) (repo : RepoRevision) (linter : LinterImage)
    (w : World Store ε) :
    sv.schedule repo linter w =
      (scheduledOf (sv.taskName w.named)
          (sv.keeper.tryAdd (sv.wanted repo linter w) (sv.clock w.time) w.data).1,
        { w with
          data := (sv.keeper.tryAdd (sv.wanted repo linter w) (sv.clock w.time) w.data).2
          named := w.named + 1 }) := by
  cases h : sv.keeper.tryAdd (sv.wanted repo linter w) (sv.clock w.time) w.data with
  | mk a data =>
    rw [wanted] at h
    simp only [schedule, h]
    cases a with
    | ok => rfl
    | error e => cases e <;> rfl

/-- A request to the store of the program is answered as the store does. -/
theorem schedule_eq (hkeeper : sv.keeper.tryAdd = Store.keeper.tryAdd) (repo : RepoRevision)
    (linter : LinterImage) (w : World Store ε) :
    sv.schedule repo linter w =
      (scheduledOf (sv.taskName w.named)
          (w.data.tryAdd (sv.wanted repo linter w) (sv.clock w.time)).1,
        { w with
          data := (w.data.tryAdd (sv.wanted repo linter w) (sv.clock w.time)).2
          named := w.named + 1 }) := by
  rw [schedule_answer, hkeeper]
  rfl

/-- A scheduler is told of a duplicate just if adding a task is answered so. -/
theorem scheduledOf_duplicate_iff {id : String} {a : Except StoreError Unit} :
    scheduledOf id a = .ok .duplicate ↔ ∃ f, a = .error (.duplicateTask f) := by
  cases a with
  | ok => simp [scheduledOf]
  | error e => cases e <;> simp [scheduledOf]

/-- A scheduler is told of an added task just if one has been added. -/
theorem scheduledOf_added_iff {id : String} {a : Except StoreError Unit} :
    (∃ id', scheduledOf id a = .ok (.added id')) ↔ a = .ok () := by
  cases a with
  | ok => simp [scheduledOf]
  | error e => cases e <;> simp [scheduledOf]

/-- A scheduler is told of a duplicate just if the fingerprint is known. -/
theorem schedule_duplicate_iff (hkeeper : sv.keeper = Store.keeper) (repo : RepoRevision)
    (linter : LinterImage) (w : World Store ε) :
    (sv.schedule repo linter w).1 = .ok .duplicate ↔ w.data.Knows (.ofPair repo linter) := by
  rw [schedule_eq (congrArg Keeper.tryAdd hkeeper), scheduledOf_duplicate_iff]
  constructor
  · rintro ⟨f, hf⟩
    obtain ⟨hknown, hprint⟩ := (Store.tryAdd_duplicate_iff _).mp hf
    exact (show Fingerprint.ofPair repo linter = f from hprint) ▸ hknown
  · exact fun hknown => ⟨_, (Store.tryAdd_duplicate_iff _).mpr ⟨hknown, rfl⟩⟩

/-- A scheduler is told of an added task just if neither its fingerprint nor
its name was stored. -/
theorem schedule_added_iff (hkeeper : sv.keeper = Store.keeper) (repo : RepoRevision)
    (linter : LinterImage) (w : World Store ε) :
    (∃ id, (sv.schedule repo linter w).1 = .ok (.added id)) ↔
      ¬w.data.Knows (.ofPair repo linter) ∧ ∀ u ∈ w.data.tasks, u.id ≠ sv.taskName w.named := by
  rw [schedule_eq (congrArg Keeper.tryAdd hkeeper), scheduledOf_added_iff]
  exact Store.tryAdd_ok_iff _

end Services

/-- What may happen next to a store that schedulers share with others: somebody calls
it, or a scheduler asks for a task, whose world is its own but for the store. -/
inductive QueueStep (ε : Type) where
  | call (c : StoreCall)
  | ask (sv : Services Store ε) (hkeeper : sv.keeper = Store.keeper) (repo : RepoRevision)
      (linter : LinterImage) (w : World Store ε)

namespace QueueStep

variable {ε : Type}

/-- The store once the step has been made. -/
def leave : QueueStep ε → Store → Store
  | call c, s => (c.perform s).2
  | ask sv _ repo linter w, s => (sv.schedule repo linter { w with data := s }).2.data

/-- The fingerprint that the step is reported to have added. -/
def added? : QueueStep ε → Store → Option Fingerprint
  | call c, s => StoreEvent.added? ⟨c, (c.perform s).1⟩
  | ask sv _ repo linter w, s =>
    match (sv.schedule repo linter { w with data := s }).1 with
    | .ok (.added _) => some (.ofPair repo linter)
    | _ => none

/-- The store that steps leave. -/
def after (s : Store) : List (QueueStep ε) → Store
  | [] => s
  | q :: qs => after (q.leave s) qs

/-- The fingerprints that steps are reported to have added, in order. -/
def added (s : Store) : List (QueueStep ε) → List Fingerprint
  | [] => []
  | q :: qs => (q.added? s).toList ++ added (q.leave s) qs

/-- The call that a step is. -/
def toCall : QueueStep ε → StoreCall
  | call c => c
  | ask sv _ repo linter w => .tryAdd (sv.wanted repo linter w) (sv.clock w.time)

/-- A step leaves the store as the call that it amounts to. -/
theorem leave_eq (q : QueueStep ε) (s : Store) : q.leave s = (q.toCall.perform s).2 := by
  cases q with
  | call c => rfl
  | ask sv hkeeper repo linter w =>
    rw [leave, Services.schedule_eq (congrArg Keeper.tryAdd hkeeper)]
    rfl

/-- It has added what that call has. -/
theorem added?_eq (q : QueueStep ε) (s : Store) :
    q.added? s = StoreEvent.added? ⟨q.toCall, (q.toCall.perform s).1⟩ := by
  cases q with
  | call c => rfl
  | ask sv hkeeper repo linter w =>
    rw [added?, Services.schedule_eq (congrArg Keeper.tryAdd hkeeper)]
    change (match Services.scheduledOf (sv.taskName w.named)
      (s.tryAdd (sv.wanted repo linter w) (sv.clock w.time)).1 with
      | .ok (.added _) => some (Fingerprint.ofPair repo linter)
      | _ => none) =
        StoreEvent.added? ⟨.tryAdd (sv.wanted repo linter w) (sv.clock w.time),
          .ofOutcome (s.tryAdd (sv.wanted repo linter w) (sv.clock w.time)).1⟩
    cases (s.tryAdd (sv.wanted repo linter w) (sv.clock w.time)).1 with
    | ok => rfl
    | error e => cases e <;> rfl

/-- Steps leave the store that their calls leave. -/
theorem after_eq (s : Store) (qs : List (QueueStep ε)) : after s qs = s.after (qs.map toCall) := by
  induction qs generalizing s with
  | nil => rfl
  | cons q qs ih => rw [after, ih, leave_eq]; rfl

/-- Steps are reported to have added what their calls have. -/
theorem added_eq (s : Store) (qs : List (QueueStep ε)) :
    added s qs = (s.events (qs.map toCall)).filterMap StoreEvent.added? := by
  induction qs generalizing s with
  | nil => rfl
  | cons q qs ih =>
    rw [added, ih, leave_eq, added?_eq, List.map_cons, Store.events, List.filterMap_cons]
    cases StoreEvent.added? ⟨q.toCall, (q.toCall.perform s).1⟩ <;> rfl

/-- The fingerprints reported as added are put behind those that were stored. -/
theorem fingerprints_after (s : Store) (qs : List (QueueStep ε)) :
    (after s qs).tasks.map TaskRow.fingerprint = s.tasks.map TaskRow.fingerprint ++ added s qs := by
  rw [after_eq, added_eq, Store.fingerprints_after]

/-- Whatever schedulers and others do, no fingerprint is stored twice. -/
theorem fingerprints_after_nodup (qs : List (QueueStep ε)) :
    ((after .empty qs).tasks.map TaskRow.fingerprint).Nodup := by
  rw [after_eq]
  exact Store.fingerprints_after_nodup (s := .empty) List.nodup_nil _

/-- A fingerprint that is known is not reported as added any more. -/
theorem not_mem_added {s : Store} (hs : (s.tasks.map TaskRow.fingerprint).Nodup) {f : Fingerprint}
    (hf : s.Knows f) (qs : List (QueueStep ε)) : f ∉ added s qs := by
  have hnodup := Store.fingerprints_after_nodup hs (qs.map toCall)
  rw [← after_eq, fingerprints_after] at hnodup
  intro hadded
  exact (List.nodup_append.mp hnodup).2.2 f (Store.knows_iff_mem.mp hf) f hadded rfl

/-- **Asking again changes nothing**, whoever has done what before: calls of
any kind, and schedulers that asked for tasks.  No two tasks have one
fingerprint, and each was reported as added once.  Adding a task is answered
with a duplicate just if its fingerprint is stored, and accepted just if
neither its fingerprint nor its name is; then it is read back as a fresh task
created now, and no other task has changed.  A scheduler is told the same.  And
once stored, a fingerprint is known for ever, and never reported as added
again. -/
theorem enqueueing_idempotent (qs : List (QueueStep ε)) :
    let s := after .empty qs
    (s.tasks.map TaskRow.fingerprint).Nodup ∧
      added .empty qs = s.tasks.map TaskRow.fingerprint ∧
      (∀ (t : Task) (now : Instant),
        let added := s.tryAdd t now
        (∀ f, added.1 = .error (.duplicateTask f) ↔ s.Knows f ∧ t.fingerprint = f) ∧
          (added.1 = .ok () ↔ ¬s.Knows t.fingerprint ∧ s.getTask t.id = none) ∧
          (added.1 = .ok () → ∀ id, added.2.getTask id =
            if id = t.id then some (Task.fresh t.id t.linter t.repo (Instant.ofMillis now.millis))
            else s.getTask id) ∧
          (added.1 ≠ .ok () → added.2 = s)) ∧
      (∀ (sv : Services Store ε) (repo : RepoRevision) (linter : LinterImage) (w : World Store ε),
        sv.keeper = Store.keeper → w.data = s →
          ((sv.schedule repo linter w).1 = .ok .duplicate ↔ s.Knows (.ofPair repo linter)) ∧
          ((∃ id, (sv.schedule repo linter w).1 = .ok (.added id)) ↔
            ¬s.Knows (.ofPair repo linter) ∧ s.getTask (sv.taskName w.named) = none)) ∧
      ∀ f, s.Knows f → ∀ rs : List (QueueStep ε), (after s rs).Knows f ∧ f ∉ added s rs := by
  intro s
  have hnodup : (s.tasks.map TaskRow.fingerprint).Nodup := fingerprints_after_nodup qs
  refine ⟨hnodup, (fingerprints_after .empty qs).symm, fun t now => ⟨?_, ?_, ?_, ?_⟩,
    fun sv repo linter w hkeeper hdata => ⟨?_, ?_⟩, fun f hf rs => ⟨?_, ?_⟩⟩
  · exact fun f => Store.tryAdd_duplicate_iff now
  · rw [Store.getTask_eq_none_iff]
    exact Store.tryAdd_ok_iff now
  · exact fun hok id => Store.getTask_tryAdd hok id
  · exact Store.tryAdd_not_ok
  · rw [← hdata]
    exact Services.schedule_duplicate_iff hkeeper repo linter w
  · rw [← hdata, Store.getTask_eq_none_iff]
    exact Services.schedule_added_iff hkeeper repo linter w
  · rw [after_eq]
    exact hf.after _
  · exact not_mem_added hnodup hf rs

/-- A scheduler that has handed out some names asks for one linter to be run on
one commit, which it fetches from a place of its own. -/
def asking (url : String) (named : Nat) : QueueStep Unit :=
  .ask (.isolated Store.keeper "socket" .epoch) rfl ⟨"r", url, "commit"⟩ ⟨"l", "image", "digest"⟩
    ⟨.start, .empty, .empty, named, ()⟩

/-- Of two schedulers the second one is too late, though the task has been taken
in between. -/
theorem enqueueing_idempotent_race :
    let qs := [asking "here" 0, .call (.tryTake .epoch .epoch)]
    added .empty qs = [⟨"commit", "l", "digest"⟩] ∧
      ⟨"commit", "l", "digest"⟩ ∉ added (after .empty qs) [asking "there" 1] := by
  intro qs
  have hadded : added .empty qs = [⟨"commit", "l", "digest"⟩] := by decide
  obtain ⟨-, hstored, -, -, hlater⟩ := enqueueing_idempotent qs
  refine ⟨hadded, (hlater _ ?_ _).2⟩
  rw [Store.knows_iff_mem, ← hstored, hadded]
  exact List.mem_singleton_self _

end QueueStep

end LintPatrol
