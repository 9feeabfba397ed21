import LintPatrol.Proofs.Config.Limits
import LintPatrol.Proofs.Role.Alone
import LintPatrol.Proofs.Role.Timely
import LintPatrol.Proofs.Store.Finality
import LintPatrol.Proofs.Store.Order
import LintPatrol.Proofs.Time.Shift
import LintPatrol.Role.World
import LintPatrol.Role.Worker

/-!
# LintPatrol.Proofs.Role.Iteration

One iteration of a worker that has the store to itself and is on time comes to
exactly one of three things (`Worker.iteration_does_one`):

* what stopped containers hold could not be freed, and that is all
  (`Worker.NotCleaned`);
* no task can be taken, and that is all (`Worker.NothingToDo`);
* the first task that can be taken is run, and only its row and its findings
  change (`Worker.TaskRun`).

The worlds between the stages have names (`cleaned`, `taking`, `linting`,
`recording`), so that each stage is one equation from one of them to the next.
What the row of the task says then is `TaskRow.ran`.
-/

namespace LintPatrol

open Time

/-! ## What is recorded of a run -/

namespace LintOutcome

/-- The status that the task gets. -/
def status (o : LintOutcome) : TaskStatus :=
  match o.result with
  | .ok _ => .succeeded
  | .error .skipped => .skipped
  | .error (.fatal _) => .failed
  | .error (.temporary _) => .pending

/-- What is said about it: the text of the failure, if there was one. -/
def comment? (o : LintOutcome) : Option String :=
  match o.result with
  | .ok _ | .error .skipped => none
  | .error e@(.fatal _) | .error e@(.temporary _) => some e.message

/-- What was found. -/
def findings (o : LintOutcome) : List Finding :=
  match o.result with
  | .ok findings => findings
  | .error _ => []

/-- The run needs nobody's attention. -/
def IsWell (o : LintOutcome) : Prop := o.status = .succeeded ∨ o.status = .skipped

theorem findings_toResult (o : LintOutcome) : o.toResult.findings = o.findings := by
  obtain ⟨result, duration⟩ := o
  cases result <;> rfl

/-- A run that is to be made again has no findings to record. -/
theorem toResult_valid (o : LintOutcome) :
    ¬(o.toResult.status = .pending ∧ o.toResult.findings ≠ []) := by
  unfold toResult
  split <;> simp

end LintOutcome

/-- The row of a task that was taken at one time, and whose run was recorded at
another one. -/
def TaskRow.ran (takenAt : Instant) (o : LintOutcome) (recordedAt : Instant) (t : TaskRow) :
    TaskRow :=
  { t with
    status := o.status
    comment := o.comment?
    durationMs := some (storedMillis o.duration)
    lockedAt := some takenAt.millis
    lintedAt := some recordedAt.millis }

/-- A task that is taken and whose result is recorded has been run. -/
theorem TaskRow.finish_lease (takenAt : Instant) (o : LintOutcome) (recordedAt : Instant)
    (t : TaskRow) :
    (t.lease takenAt).finish o.toResult recordedAt = t.ran takenAt o recordedAt := by
  obtain ⟨result, duration⟩ := o
  cases result with
  | ok findings => rfl
  | error e => cases e <;> rfl

namespace Store

/-- The store once a task has been run: its row says what came of the run, and
what was found is stored behind all else. -/
def ran (t : TaskRow) (takenAt : Instant) (o : LintOutcome) (recordedAt : Instant) (s : Store) :
    Store :=
  { s with
    tasks := s.tasks.map fun u => if u.id = t.id then t.ran takenAt o recordedAt else u
    findings := s.findings ++ o.findings.map (FindingRow.fresh t.id) }

/-! ## A store that one worker uses -/

/-- What a run may rely on: names are unique, and nothing was found for tasks
that are to be run. -/
structure Intact (s : Store) : Prop where
  keyed : (s.tasks.map TaskRow.id).Nodup
  unfound : ∀ t ∈ s.tasks, t.status = .pending → s.findingsOf t.id = []

/-- Every store that calls lead to is intact. -/
theorem intact_after (cs : List StoreCall) : (empty.after cs).Intact where
  keyed := (history_after cs).keyed
  unfound t ht hpending := (isPending_or_of_settled ((history_after cs).settled t ht) hpending).2

/-- The findings of a task that has been run are those of the run. -/
theorem Intact.findingsOf_ran {s : Store} (h : s.Intact) {t : TaskRow} (ht : t ∈ s.tasks)
    (hpending : t.status = .pending) (takenAt : Instant) (o : LintOutcome) (recordedAt : Instant) :
    (s.ran t takenAt o recordedAt).findingsOf t.id = o.findings.map (FindingRow.fresh t.id) := by
  have hold : s.findings.filter (·.taskId = t.id) = [] := h.unfound t ht hpending
  rw [findingsOf, ran, List.filter_append, hold, List.nil_append]
  refine List.filter_eq_self.mpr fun q hq => ?_
  obtain ⟨f, -, rfl⟩ := List.mem_map.mp hq
  exact decide_eq_true rfl

theorem updateTask_updateTask (s : Store) (id : String) {f : TaskRow → TaskRow}
    (hf : ∀ t, (f t).id = t.id) (g : TaskRow → TaskRow) :
    (s.updateTask id f).updateTask id g = s.updateTask id fun t => g (f t) := by
  have hrow : ∀ t, (if (if t.id = id then f t else t).id = id then g (if t.id = id then f t else t)
      else if t.id = id then f t else t) = if t.id = id then g (f t) else t := by
    intro t
    by_cases hid : t.id = id <;> simp [hid, hf]
  simp only [updateTask, List.map_map]
  congr 1
  exact List.map_congr_left fun t _ => hrow t

/-- A task that was taken, and that nobody else has called for since, has its
outcome recorded. -/
theorem set_taken {s : Store} (hkeyed : (s.tasks.map TaskRow.id).Nodup) {horizon : Int}
    {t : TaskRow} (hnext : s.next? horizon = some t) (takenAt : Instant) (o : LintOutcome)
    (recordedAt : Instant) :
    (s.updateTask t.id (·.lease takenAt)).set (t.lease takenAt).read o.toResult recordedAt =
      (.ok (), s.ran t takenAt o recordedAt) := by
  obtain ⟨ht, hclaim, -⟩ := next?_first hnext
  have hheld : (t.lease takenAt).isLeasedAs (t.lease takenAt).read = true := by
    simp [TaskRow.isLeasedAs, TaskRow.read, TaskRow.lease, hclaim.pending]
  have hany : (s.updateTask t.id (·.lease takenAt)).tasks.any
      (·.isLeasedAs (t.lease takenAt).read) = true :=
    List.any_eq_true.mpr ⟨_, mem_updateTask.mpr (.inl ⟨t, ht, rfl, rfl⟩), hheld⟩
  have hrows : ((s.updateTask t.id (·.lease takenAt)).updateTask t.id
      (·.finish o.toResult recordedAt)).tasks = (s.ran t takenAt o recordedAt).tasks := by
    rw [updateTask_updateTask s t.id fun u => (rfl : (u.lease takenAt).id = u.id)]
    refine List.map_congr_left fun u hu => ?_
    split
    · next hid =>
      rw [eq_of_id_eq hkeyed hu ht hid]
      exact t.finish_lease takenAt o recordedAt
    · rfl
  rw [set, if_neg o.toResult_valid, if_pos hany]
  simp only [show (t.lease takenAt).read.id = t.id from rfl, hrows, o.findings_toResult]
  rfl

end Store

/-! ## The stages -/

namespace Services

variable {ε : Type} {sv : Services Store ε} {s : Scope} {w : World Store ε}

/-- A clean-up that fails ends the iteration. -/
theorem cleanUp_of_error {e : SandboxError} (h : (sv.cleanup s w).1 = .error e) :
    sv.cleanUp s () w =
      (.failed (e.failure.within "Sandbox cleanup failed"), (sv.cleanup s w).2) := by
  unfold cleanUp
  generalize sv.cleanup s w = answer at h ⊢
  obtain ⟨result, w'⟩ := answer
  cases h
  rfl

/-- After one that succeeds the next stage begins. -/
theorem cleanUp_of_ok {r : CleanupReport} (h : (sv.cleanup s w).1 = .ok r) :
    sv.cleanUp s () w = (.produced [()], (sv.cleanup s w).2) := by
  unfold cleanUp
  generalize sv.cleanup s w = answer at h ⊢
  obtain ⟨result, w'⟩ := answer
  cases h
  rfl

theorem time_takeTask (sv : Services Store ε) (lock : Duration) (s : Scope) (w : World Store ε) :
    (sv.takeTask lock s () w).2.time = w.time := by
  simp only [takeTask]
  split
  · rfl
  · split
    · rfl
    · next horizon hhorizon =>
      split <;> next hcall => exact World.time_of_call hcall

/-- What taking a task within its time is: a horizon that can be had is one
that is understood. -/
theorem takeTask_eq (hkeeper : sv.keeper = Store.keeper) {lock : Duration} {horizon : Instant}
    (hhorizon : (sv.clock w.time).before? lock = some horizon)
    (hlive : w.time.isExpired s = false) :
    sv.takeTask lock s () w =
      match w.data.next? horizon.millis with
      | none => (.produced [], w)
      | some t => (.produced [(t.lease (sv.clock w.time)).read],
        { w with data := w.data.updateTask t.id (·.lease (sv.clock w.time)) }) := by
  have hlock : ¬maxLock < lock.nanos := by
    have hnanos := Instant.nanos_le_of_before? hhorizon
    simp only [maxLock, nanosPerMilli, nanosPerSecond, minSeconds, maxSeconds] at *
    omega
  simp only [takeTask, if_neg hlock, hhorizon, World.call_of_live hlive, hkeeper, Store.keeper,
    Store.tryTake]
  cases w.data.next? horizon.millis <;> rfl

theorem time_persist (sv : Services Store ε) (s : Scope) (done : Task × LintOutcome)
    (w : World Store ε) : (sv.persist s done w).2.time = w.time := by
  obtain ⟨t, o⟩ := done
  simp only [persist]
  split
  · next hcall => exact World.time_of_call hcall
  · next hcall => exact World.time_of_call hcall
  · next hcall => split <;> exact World.time_of_call hcall

/-- Recording an outcome within its time.  It is reported as a failure unless it
is well. -/
theorem persist_eq (hkeeper : sv.keeper = Store.keeper) {t : Task} {o : LintOutcome} {d : Store}
    (hlive : w.time.isExpired s = false)
    (hset : w.data.set t o.toResult (sv.clock w.time) = (.ok (), d)) :
    (o.IsWell ∧ sv.persist s (t, o) w = (.produced [], { w with data := d })) ∨
      (¬o.IsWell ∧ ∃ f, sv.persist s (t, o) w = (.failed f, { w with data := d })) := by
  have hcall : w.call s (sv.keeper.set t o.toResult (sv.clock w.time)) =
      (some (.ok ()), { w with data := d }) := by
    rw [World.call_of_live hlive, hkeeper]
    simp only [Store.keeper, hset]
  obtain ⟨result, duration⟩ := o
  simp only [persist, hcall]
  cases result with
  | ok findings => exact .inl ⟨.inl rfl, rfl⟩
  | error e =>
    cases e with
    | skipped => exact .inl ⟨.inr rfl, rfl⟩
    | temporary reason => exact .inr ⟨by simp [LintOutcome.IsWell, LintOutcome.status], _, rfl⟩
    | fatal reason => exact .inr ⟨by simp [LintOutcome.IsWell, LintOutcome.status], _, rfl⟩

end Services

/-! ## The worlds between the stages -/

namespace Worker

variable {ε : Type}

/-- The last stage of an iteration. -/
def persistStage (c : WorkerConfig) (sv : Services Store ε) :
    TimedChain Store ε (Task × LintOutcome) :=
  .step "persist" (.ofSeconds c.updateTimeoutSecs) sv.persist .done

/-- The stages from the running of the linter on. -/
def lintStage (c : WorkerConfig) (scratch : String) (sv : Services Store ε) :
    TimedChain Store ε Task :=
  .step "lint" (.ofSeconds c.lintTimeoutSecs) (sv.lintTask scratch c.mountPath) (persistStage c sv)

/-- The stages from the taking of a task on. -/
def takeStage (c : WorkerConfig) (scratch : String) (sv : Services Store ε) :
    TimedChain Store ε Unit :=
  .step "take" (.ofSeconds c.takeTimeoutSecs) (sv.takeTask (.ofSeconds c.lockDurationSecs))
    (lintStage c scratch sv)

/-- An iteration, with what it takes to be on time. -/
def timed (c : WorkerConfig) (scratch : String) (sv : Services Store ε) : TimedChain Store ε Unit :=
  .step "cleanup" (.ofSeconds c.cleanupTimeoutSecs) sv.cleanUp (takeStage c scratch sv)

/-- What is on time is an iteration itself. -/
theorem rest_timed (c : WorkerConfig) (scratch : String) (sv : Services Store ε) :
    (timed c scratch sv).rest = iteration c scratch sv := rfl

section Worlds

variable (c : WorkerConfig) (scratch : String) (sv : Services Store ε) (s : Scope)
  (w : World Store ε)

/-- What came of freeing what stopped containers hold, and the world then. -/
def cleaned : Except SandboxError CleanupReport × World Store ε :=
  sv.cleanup (w.stageScope s (.ofSeconds c.cleanupTimeoutSecs))
    (w.atStage s (.ofSeconds c.cleanupTimeoutSecs))

def taking : World Store ε := (cleaned c sv s w).2.atStage s (.ofSeconds c.takeTimeoutSecs)

def takenAt : Instant := sv.clock (taking c sv s w).time

/-- The world once a task has been taken. -/
def taken (t : TaskRow) : World Store ε :=
  { taking c sv s w with
    data := (taking c sv s w).data.updateTask t.id (·.lease (takenAt c sv s w)) }

/-- The world in which its linter begins to run. -/
def linting (t : TaskRow) : World Store ε :=
  (taken c sv s w t).atStage s (.ofSeconds c.lintTimeoutSecs)

/-- What the linter comes to, and the world then. -/
def linted (t : TaskRow) : Except LintFailure (List Finding) × World Store ε :=
  sv.lint scratch c.mountPath ((taken c sv s w t).stageScope s (.ofSeconds c.lintTimeoutSecs))
    t.repo t.linter (linting c sv s w t)

/-- The outcome of the run. -/
def outcome (t : TaskRow) : LintOutcome :=
  ⟨(linted c scratch sv s w t).1,
    (Duration.ofNanos? ((linted c scratch sv s w t).2.time.now -
      (linting c sv s w t).time.now)).getD .max⟩

/-- The world in which the outcome is recorded. -/
def recording (t : TaskRow) : World Store ε :=
  (linted c scratch sv s w t).2.atStage s (.ofSeconds c.updateTimeoutSecs)

def recordedAt (t : TaskRow) : Instant := sv.clock (recording c scratch sv s w t).time

/-! ## What an iteration comes to -/

/-- What stopped containers hold could not be freed, and that was all. -/
structure NotCleaned (report : Option Report) (left : World Store ε) : Prop where
  cleanup_failed : ∃ e, (cleaned c sv s w).1 = .error e
  left_eq : left = (cleaned c sv s w).2
  data_eq : left.data = w.data
  failed : report.isSome

/-- There was no task that can be taken, and that was all. -/
structure NothingToDo (horizon : Instant) (report : Option Report) (left : World Store ε) :
    Prop where
  cleanup_ok : ∃ r, (cleaned c sv s w).1 = .ok r
  none_claimable : ∀ t ∈ w.data.tasks, ¬t.Claimable horizon.millis
  left_eq : left = taking c sv s w
  data_eq : left.data = w.data
  succeeded : report = none

/-- A task was run. -/
structure TaskRun (horizon : Instant) (t : TaskRow) (report : Option Report)
    (left : World Store ε) : Prop where
  cleanup_ok : ∃ r, (cleaned c sv s w).1 = .ok r
  mem : t ∈ w.data.tasks
  claimable : t.Claimable horizon.millis
  first : ∀ u ∈ w.data.tasks, u.Claimable horizon.millis → t.Precedes u
  data_eq : left.data = w.data.ran t (takenAt c sv s w) (outcome c scratch sv s w t)
    (recordedAt c scratch sv s w t)
  findings_eq : left.data.findingsOf t.id =
    (outcome c scratch sv s w t).findings.map (FindingRow.fresh t.id)
  succeeded_iff : report = none ↔ (outcome c scratch sv s w t).IsWell

end Worlds

section Cases

variable {c : WorkerConfig} {scratch : String} {sv : Services Store ε} {s : Scope}
  {w : World Store ε} {horizon : Instant}

/-- Before a task is asked for, nothing that is stored has changed. -/
theorem data_taking (halone : sv.Alone) : (taking c sv s w).data = w.data := halone.cleanup _ _

/-- An iteration whose cleanup fails ends with it. -/
theorem notCleaned_of_error (halone : sv.Alone) {e : SandboxError}
    (herror : (cleaned c sv s w).1 = .error e) :
    NotCleaned c sv s w (iteration c scratch sv s () w).1 (iteration c scratch sv s () w).2 := by
  obtain ⟨hfailed, hleft⟩ := World.step_of_failed (Services.cleanUp_of_error herror)
  exact ⟨⟨e, herror⟩, hleft, hleft ▸ halone.cleanup _ _, hfailed⟩

/-- An iteration whose cleanup does not fail goes on to take a task. -/
theorem timed_cleaned (honTime : (timed c scratch sv).isOnTime s () w = true) {r : CleanupReport}
    (hok : (cleaned c sv s w).1 = .ok r) :
    iteration c scratch sv s () w = (takeStage c scratch sv).rest s () (cleaned c sv s w).2 ∧
      (takeStage c scratch sv).isOnTime s () (cleaned c sv s w).2 = true := by
  have hbody : sv.cleanUp (w.stageScope s (.ofSeconds c.cleanupTimeoutSecs)) ()
      (w.atStage s (.ofSeconds c.cleanupTimeoutSecs)) = (.produced [()], (cleaned c sv s w).2) :=
    Services.cleanUp_of_ok hok
  exact TimedChain.one_of_isOnTime honTime hbody

/-- What the stage that takes a task does. -/
theorem takeTask_taking (hkeeper : sv.keeper = Store.keeper)
    (hhorizon : (takenAt c sv s w).before? (.ofSeconds c.lockDurationSecs) = some horizon)
    (honTime : (takeStage c scratch sv).isOnTime s () (cleaned c sv s w).2 = true) :
    sv.takeTask (.ofSeconds c.lockDurationSecs)
        ((cleaned c sv s w).2.stageScope s (.ofSeconds c.takeTimeoutSecs)) () (taking c sv s w) =
      match (taking c sv s w).data.next? horizon.millis with
      | none => (.produced [], taking c sv s w)
      | some t => (.produced [(t.lease (takenAt c sv s w)).read], taken c sv s w t) := by
  have hlive := TimedChain.live_of_isOnTime honTime
  rw [Services.time_takeTask] at hlive
  exact Services.takeTask_eq hkeeper hhorizon hlive

/-- An iteration that finds no task ends with that. -/
theorem nothingToDo_of_none (hkeeper : sv.keeper = Store.keeper) (halone : sv.Alone)
    (hhorizon : (takenAt c sv s w).before? (.ofSeconds c.lockDurationSecs) = some horizon)
    (honTime : (timed c scratch sv).isOnTime s () w = true) {r : CleanupReport}
    (hok : (cleaned c sv s w).1 = .ok r) (hnext : w.data.next? horizon.millis = none) :
    NothingToDo c sv s w horizon (iteration c scratch sv s () w).1
      (iteration c scratch sv s () w).2 := by
  obtain ⟨hrun, honTake⟩ := timed_cleaned honTime hok
  have htake := takeTask_taking hkeeper hhorizon honTake
  rw [data_taking halone, hnext] at htake
  rw [hrun.trans (World.step_of_nothing htake)]
  exact ⟨⟨r, hok⟩, Store.next?_eq_none_iff.mp hnext, rfl, data_taking halone, rfl⟩

/-- An iteration that finds a task runs it, and comes to the recording of what
came of it. -/
theorem timed_next (hkeeper : sv.keeper = Store.keeper) (halone : sv.Alone)
    (hhorizon : (takenAt c sv s w).before? (.ofSeconds c.lockDurationSecs) = some horizon)
    (honTime : (timed c scratch sv).isOnTime s () w = true) {r : CleanupReport}
    (hok : (cleaned c sv s w).1 = .ok r) {t : TaskRow}
    (hnext : w.data.next? horizon.millis = some t) :
    iteration c scratch sv s () w = (persistStage c sv).rest s
        ((t.lease (takenAt c sv s w)).read, outcome c scratch sv s w t)
        (linted c scratch sv s w t).2 ∧
      (persistStage c sv).isOnTime s
        ((t.lease (takenAt c sv s w)).read, outcome c scratch sv s w t)
        (linted c scratch sv s w t).2 = true := by
  obtain ⟨hcleaned, honTake⟩ := timed_cleaned honTime hok
  have htake := takeTask_taking hkeeper hhorizon honTake
  rw [data_taking halone, hnext] at htake
  obtain ⟨htaken, honLint⟩ := TimedChain.one_of_isOnTime honTake htake
  -- Whatever the linter comes to, the stage hands it on.
  have hlint : sv.lintTask scratch c.mountPath
      ((taken c sv s w t).stageScope s (.ofSeconds c.lintTimeoutSecs))
      (t.lease (takenAt c sv s w)).read
      ((taken c sv s w t).atStage s (.ofSeconds c.lintTimeoutSecs)) =
        (.produced [((t.lease (takenAt c sv s w)).read, outcome c scratch sv s w t)],
          (linted c scratch sv s w t).2) := rfl
  obtain ⟨hlinted, honPersist⟩ := TimedChain.one_of_isOnTime honLint hlint
  exact ⟨hcleaned.trans (htaken.trans hlinted), honPersist⟩

/-- The world in which the outcome is recorded still has the task as it was
taken. -/
theorem data_recording (halone : sv.Alone) (t : TaskRow) :
    (recording c scratch sv s w t).data = w.data.updateTask t.id (·.lease (takenAt c sv s w)) :=
  calc (recording c scratch sv s w t).data
      = (linting c sv s w t).data := Services.data_lint halone _ _ _ _ _ _
    _ = (taking c sv s w).data.updateTask t.id (·.lease (takenAt c sv s w)) := rfl
    _ = w.data.updateTask t.id (·.lease (takenAt c sv s w)) := by rw [data_taking halone]

/-- What the last stage leaves and reports of a run. -/
theorem persisted (hkeeper : sv.keeper = Store.keeper) {t : Task} {o : LintOutcome} {d : Store}
    (honTime : (persistStage c sv).isOnTime s (t, o) w = true)
    (hset : w.data.set t o.toResult
      (sv.clock (w.atStage s (.ofSeconds c.updateTimeoutSecs)).time) = (.ok (), d)) :
    ((persistStage c sv).rest s (t, o) w).2.data = d ∧
      (((persistStage c sv).rest s (t, o) w).1 = none ↔ o.IsWell) := by
  have hlive := TimedChain.live_of_isOnTime honTime
  rw [Services.time_persist] at hlive
  rcases Services.persist_eq hkeeper hlive hset with ⟨hwell, hbody⟩ | ⟨hill, f, hbody⟩
  · have hdone : (persistStage c sv).rest s (t, o) w = (none, _) := World.step_of_nothing hbody
    rw [hdone]
    exact ⟨rfl, fun _ => hwell, fun _ => rfl⟩
  · have hfailed : ((persistStage c sv).rest s (t, o) w).1.isSome ∧
        ((persistStage c sv).rest s (t, o) w).2 = _ := World.step_of_failed hbody
    refine ⟨congrArg World.data hfailed.2, fun hnone => ?_, fun hwell => absurd hwell hill⟩
    exact absurd hnone (Option.ne_none_iff_isSome.mpr hfailed.1)

/-- An iteration that finds a task ends with what came of it. -/
theorem taskRun_of_next (hkeeper : sv.keeper = Store.keeper) (halone : sv.Alone)
    (hintact : w.data.Intact)
    (hhorizon : (takenAt c sv s w).before? (.ofSeconds c.lockDurationSecs) = some horizon)
    (honTime : (timed c scratch sv).isOnTime s () w = true) {r : CleanupReport}
    (hok : (cleaned c sv s w).1 = .ok r) {t : TaskRow}
    (hnext : w.data.next? horizon.millis = some t) :
    TaskRun c scratch sv s w horizon t (iteration c scratch sv s () w).1
      (iteration c scratch sv s () w).2 := by
  obtain ⟨hrun, honTime⟩ := timed_next hkeeper halone hhorizon honTime hok hnext
  obtain ⟨ht, hclaim, hfirst⟩ := Store.next?_first hnext
  have hset : (recording c scratch sv s w t).data.set (t.lease (takenAt c sv s w)).read
      (outcome c scratch sv s w t).toResult (recordedAt c scratch sv s w t) =
        (.ok (), w.data.ran t (takenAt c sv s w) (outcome c scratch sv s w t)
          (recordedAt c scratch sv s w t)) := by
    rw [data_recording halone, Store.set_taken hintact.keyed hnext]
  obtain ⟨hdata, hreport⟩ := persisted hkeeper honTime hset
  rw [hrun]
  refine ⟨⟨r, hok⟩, ht, hclaim, hfirst, hdata, ?_, hreport⟩
  rw [hdata, hintact.findingsOf_ran ht hclaim.pending]

/-- **An iteration comes to exactly one of three things**, if the worker has the
store to itself and its stages are on time: cleaning up failed and that was all;
or there was no task to take and that was all; or the first task that can be
taken was run, and its row and its findings alone have changed. -/
theorem iteration_does_one (hkeeper : sv.keeper = Store.keeper) (halone : sv.Alone)
    (hintact : w.data.Intact)
    (hhorizon : (takenAt c sv s w).before? (.ofSeconds c.lockDurationSecs) = some horizon)
    (honTime : (timed c scratch sv).isOnTime s () w = true) :
    let report := (iteration c scratch sv s () w).1
    let left := (iteration c scratch sv s () w).2
    let notCleaned := NotCleaned c sv s w report left
    let nothingToDo := NothingToDo c sv s w horizon report left
    let taskRun := ∃ t, TaskRun c scratch sv s w horizon t report left
    (notCleaned ∨ nothingToDo ∨ taskRun) ∧
      ¬(notCleaned ∧ nothingToDo) ∧ ¬(notCleaned ∧ taskRun) ∧ ¬(nothingToDo ∧ taskRun) := by
  refine ⟨?_, ?_, ?_, ?_⟩
  · cases hcleanup : (cleaned c sv s w).1 with
    | error e => exact .inl (notCleaned_of_error halone hcleanup)
    | ok r =>
      cases hnext : w.data.next? horizon.millis with
      | none =>
        exact .inr (.inl (nothingToDo_of_none hkeeper halone hhorizon honTime hcleanup hnext))
      | some t =>
        exact .inr (.inr ⟨t,
          taskRun_of_next hkeeper halone hintact hhorizon honTime hcleanup hnext⟩)
  · rintro ⟨⟨⟨e, herror⟩, -⟩, ⟨r, hok⟩, -⟩
    cases herror.symm.trans hok
  · rintro ⟨⟨⟨e, herror⟩, -⟩, t, ⟨r, hok⟩, -⟩
    cases herror.symm.trans hok
  · rintro ⟨hnothing, t, hrun⟩
    exact hnothing.none_claimable t hrun.mem hrun.claimable

end Cases

/-! ## A task that is run -/

/-- Services of a host on which a linter finds something in every revision. -/
def obliging : Services Store Unit :=
  { Services.isolated Store.keeper "socket" .epoch with
    fetch := fun _ _ _ dir w =>
      (.ok "commit", { w with files := w.files.put (Tree.placeOf dir ++ ["main.go"]) [120] })
    exec := fun _ _ _ _ w => (.ok ["::warning file=main.go,line=1::unused"], w)
    cleanup := fun _ w => (.ok ⟨0, 0, 0, 0, []⟩, w) }

def lintOf (id commit : String) : Task :=
  Task.fresh id ⟨"l", "image", "digest"⟩ ⟨"r", "url", commit⟩ .epoch

/-- The world of a worker that meets two tasks, of which the one with the smaller
name is the younger one. -/
def queued : World Store Unit :=
  ⟨.start, .empty,
    Store.empty.after [.tryAdd (lintOf "b" "first") .epoch,
      .tryAdd (lintOf "a" "second") (.ofMillis 1)], 0, ()⟩

/-- The older task is run, and what was found in its revision is stored. -/
theorem iteration_does_one_oldest :
    let after := iteration {} "/scratch" obliging ⟨[0], none⟩ () queued
    (∃ horizon t, t.id = "b" ∧
        TaskRun {} "/scratch" obliging ⟨[0], none⟩ queued horizon t after.1 after.2) ∧
      after.1.isNone ∧ (after.2.data.findingsOf "b").length = 1 := by
  intro after
  refine ⟨?_, by decide +kernel, by decide +kernel⟩
  have hvalid : ({} : Config).validate = .ok () := by decide +kernel
  have hexists : ∃ horizon, (takenAt {} obliging ⟨[0], none⟩ queued).before?
      (.ofSeconds ({} : WorkerConfig).lockDurationSecs) = some horizon :=
    Config.exists_horizon hvalid (by decide)
  obtain ⟨horizon, hhorizon⟩ := hexists
  have halone : obliging.Alone := ⟨fun _ _ _ _ _ => rfl, fun _ _ _ _ _ => rfl, fun _ _ => rfl⟩
  have honTime : (timed {} "/scratch" obliging).isOnTime ⟨[0], none⟩ () queued = true := by
    decide +kernel
  have hrows : queued.data.tasks =
      [.fresh (lintOf "b" "first") .epoch, .fresh (lintOf "a" "second") (.ofMillis 1)] := by decide
  have hclaim : (TaskRow.fresh (lintOf "b" "first") .epoch).Claimable horizon.millis :=
    ⟨rfl, fun l hl => by cases hl⟩
  have hone := iteration_does_one rfl halone (Store.intact_after _) hhorizon honTime
  rcases hone.1 with h | h | ⟨t, h⟩
  · obtain ⟨e, he⟩ := h.cleanup_failed
    cases he
  · exact absurd hclaim (h.none_claimable _ (by simp [hrows]))
  · refine ⟨horizon, t, ?_, h⟩
    have hfirst := h.first _ (by simp [hrows]) hclaim
    have hmem := h.mem
    rw [hrows] at hmem
    rcases List.mem_pair.mp hmem with rfl | rfl
    · rfl
    · rcases hfirst with hlt | ⟨heq, -⟩
      · exact absurd hlt (by decide)
      · exact absurd heq (by decide)

end Worker

end LintPatrol
