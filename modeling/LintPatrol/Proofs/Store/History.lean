import LintPatrol.Store.Moderation

/-!
# LintPatrol.Proofs.Store.History

What happens to a store.  Every operation that may change it is a
`StoreCall`, and takes place at once; so whatever schedulers, workers and
people do at the same time, the store sees a list of calls, and a statement
about all lists of calls is one about all interleavings of all callers.

* `after` is the store that a list of calls leaves, `events` are the calls
  with their answers;
* `Change` says all that one call can do, with the conditions under which it
  does it, and `change_perform` that nothing else happens.

Statements about runs are proved by induction on the list of calls, from its
end, and a case distinction on `Change` at each call.
-/

namespace LintPatrol

open Time

/-! ## Calls -/

/-- An operation that may change the store, with its arguments. -/
inductive StoreCall where
  | tryAdd (t : Task) (now : Instant)
  | tryTake (horizon now : Instant)
  | set (held : Task) (r : TaskResult) (completedAt : Instant)
  | moderate (taskId path : String) (startLine endLine : UInt64) (m : Moderation)
  | putRepo (repo : Repo)
  | deleteRepo (id : String)
  | putLinter (linter : Linter)
  | deleteLinter (id : String)
deriving Repr, DecidableEq

/-- What a call is answered. -/
inductive StoreAnswer where
  | done
  | task (t : Task)
  | refused (e : StoreError)
  | judged (n : Nat)
  | existed (b : Bool)
deriving Repr, DecidableEq

namespace StoreAnswer

/-- The answer that an outcome without a value is. -/
def ofOutcome : Except StoreError Unit → StoreAnswer
  | .ok () => done
  | .error e => refused e

/-- The answer that a taken task, or the lack of one, is. -/
def ofTaken : Except StoreError Task → StoreAnswer
  | .ok t => task t
  | .error e => refused e

end StoreAnswer

namespace StoreCall

/-- Carries out the call: its answer, and the store that it leaves. -/
def perform (c : StoreCall) (s : Store) : StoreAnswer × Store :=
  match c with
  | tryAdd t now => (.ofOutcome (s.tryAdd t now).1, (s.tryAdd t now).2)
  | tryTake horizon now => (.ofTaken (s.tryTake horizon now).1, (s.tryTake horizon now).2)
  | set held r completedAt =>
    (.ofOutcome (s.set held r completedAt).1, (s.set held r completedAt).2)
  | moderate taskId path startLine endLine m =>
    (.judged (s.moderate taskId path startLine endLine m).1,
      (s.moderate taskId path startLine endLine m).2)
  | putRepo repo => (.done, s.putRepo repo)
  | deleteRepo id => (.existed (s.deleteRepo id).1, (s.deleteRepo id).2)
  | putLinter linter => (.done, s.putLinter linter)
  | deleteLinter id => (.existed (s.deleteLinter id).1, (s.deleteLinter id).2)

/-- Does the call concern the register of repositories and linters only? -/
def isRegistry : StoreCall → Bool
  | putRepo _ | deleteRepo _ | putLinter _ | deleteLinter _ => true
  | _ => false

end StoreCall

/-- A call that was carried out. -/
structure StoreEvent where
  call : StoreCall
  answer : StoreAnswer
deriving Repr, DecidableEq

/-! ## The oldest task -/

/-- The oldest of some tasks is one of them. -/
theorem mem_of_oldest? {ts : List TaskRow} {t : TaskRow} (h : oldest? ts = some t) : t ∈ ts := by
  induction ts generalizing t with
  | nil => contradiction
  | cons u us ih =>
    rw [oldest?] at h
    cases ho : oldest? us with
    | none =>
      rw [ho] at h
      cases h
      exact List.mem_cons_self
    | some v =>
      simp only [ho] at h
      split at h <;> cases h
      · exact List.mem_cons_of_mem _ (ih ho)
      · exact List.mem_cons_self

namespace Store

/-! ## Runs -/

/-- The store that calls leave. -/
def after (s : Store) : List StoreCall → Store
  | [] => s
  | c :: cs => (c.perform s).2.after cs

/-- The calls with their answers. -/
def events (s : Store) : List StoreCall → List StoreEvent
  | [] => []
  | c :: cs => ⟨c, (c.perform s).1⟩ :: (c.perform s).2.events cs

@[simp] theorem after_nil (s : Store) : s.after [] = s := rfl

@[simp] theorem events_nil (s : Store) : s.events [] = [] := rfl

theorem after_append (s : Store) (cs ds : List StoreCall) :
    s.after (cs ++ ds) = (s.after cs).after ds := by
  induction cs generalizing s with
  | nil => rfl
  | cons c cs ih => exact ih _

theorem events_append (s : Store) (cs ds : List StoreCall) :
    s.events (cs ++ ds) = s.events cs ++ (s.after cs).events ds := by
  induction cs generalizing s with
  | nil => rfl
  | cons c cs ih => exact congrArg (_ :: ·) (ih _)

/-- The store after one more call. -/
theorem after_concat (s : Store) (cs : List StoreCall) (c : StoreCall) :
    s.after (cs ++ [c]) = (c.perform (s.after cs)).2 := s.after_append cs [c]

/-- The events of one more call. -/
theorem events_concat (s : Store) (cs : List StoreCall) (c : StoreCall) :
    s.events (cs ++ [c]) = s.events cs ++ [⟨c, (c.perform (s.after cs)).1⟩] :=
  s.events_append cs [c]

/-! ## Rows of tasks that are updated -/

section Rows

variable {s : Store} {id : String} {f : TaskRow → TaskRow}

/-- Every row of an updated store is a row as it was, or one of the task that
was updated. -/
theorem mem_updateTask {u : TaskRow} :
    u ∈ (s.updateTask id f).tasks ↔
      (∃ t ∈ s.tasks, t.id = id ∧ u = f t) ∨ (u ∈ s.tasks ∧ u.id ≠ id) := by
  simp only [updateTask, List.mem_map]
  constructor
  · rintro ⟨t, ht, rfl⟩
    by_cases hid : t.id = id
    · exact .inl ⟨t, ht, hid, by rw [if_pos hid]⟩
    · rw [if_neg hid]
      exact .inr ⟨ht, hid⟩
  · rintro (⟨t, ht, hid, rfl⟩ | ⟨hu, hid⟩)
    · exact ⟨t, ht, by rw [if_pos hid]⟩
    · exact ⟨u, hu, by rw [if_neg hid]⟩

/-- What an update leaves alone in a row, it leaves alone in all rows. -/
theorem map_updateTask {β : Type} (s : Store) (id : String) (g : TaskRow → β)
    (hf : ∀ t, g (f t) = g t) : (s.updateTask id f).tasks.map g = s.tasks.map g := by
  simp only [updateTask, List.map_map]
  apply List.map_congr_left
  intro t _
  by_cases hid : t.id = id <;> simp [hid, hf]

/-- An update that leaves names alone leaves all names as they were. -/
theorem map_id_updateTask (s : Store) (id : String) (hf : ∀ t, (f t).id = t.id) :
    (s.updateTask id f).tasks.map TaskRow.id = s.tasks.map TaskRow.id :=
  map_updateTask s id TaskRow.id hf

end Rows

/-! ## What a call can do -/

/-- The task that is taken next is stored, and can be taken. -/
theorem mem_of_next? {s : Store} {horizon : Int} {t : TaskRow} (h : s.next? horizon = some t) :
    t ∈ s.tasks ∧ t.isClaimable horizon = true := List.mem_filter.mp (mem_of_oldest? h)

/-- All that one call can do to a store: its answer and the store that it
leaves, with the conditions under which it is so. -/
inductive Change (s : Store) : StoreEvent → Store → Prop where
  | added (t : Task) (now : Instant) (hid : ∀ u ∈ s.tasks, u.id ≠ t.id)
      (hprint : ∀ u ∈ s.tasks, u.fingerprint ≠ t.fingerprint) :
      Change s ⟨.tryAdd t now, .done⟩ { s with tasks := s.tasks ++ [TaskRow.fresh t now] }
  | taken (horizon now : Instant) (u : TaskRow) (hnext : s.next? horizon.millis = some u) :
      Change s ⟨.tryTake horizon now, .task (u.lease now).read⟩ (s.updateTask u.id (·.lease now))
  | recorded (held : Task) (r : TaskResult) (completedAt : Instant) (u : TaskRow)
      (hu : u ∈ s.tasks) (hlease : u.isLeasedAs held = true)
      (hr : ¬(r.status = .pending ∧ r.findings ≠ [])) :
      Change s ⟨.set held r completedAt, .done⟩
        { s.updateTask held.id (·.finish r completedAt) with
          findings := s.findings ++ r.findings.map (FindingRow.fresh held.id) }
  | judged (taskId path : String) (startLine endLine : UInt64) (m : Moderation) (n : Nat) :
      Change s ⟨.moderate taskId path startLine endLine m, .judged n⟩
        { s with
          findings := s.findings.map fun r =>
            if r.isAt taskId path startLine endLine then r.judge m else r }
  | registered (c : StoreCall) (hc : c.isRegistry = true) (a : StoreAnswer) (s' : Store)
      (htasks : s'.tasks = s.tasks) (hfindings : s'.findings = s.findings) : Change s ⟨c, a⟩ s'
  | refused (c : StoreCall) (e : StoreError) : Change s ⟨c, .refused e⟩ s

/-- What adding a task may do. -/
theorem change_tryAdd (s : Store) (t : Task) (now : Instant) :
    Change s ⟨.tryAdd t now, ((StoreCall.tryAdd t now).perform s).1⟩
      ((StoreCall.tryAdd t now).perform s).2 := by
  simp only [StoreCall.perform, tryAdd]
  split
  · exact .refused _ _
  · next hprint =>
    split
    · exact .refused _ _
    · next hid => exact .added t now (by simpa using hid) (by simpa using hprint)

/-- What taking one may do. -/
theorem change_tryTake (s : Store) (horizon now : Instant) :
    Change s ⟨.tryTake horizon now, ((StoreCall.tryTake horizon now).perform s).1⟩
      ((StoreCall.tryTake horizon now).perform s).2 := by
  simp only [StoreCall.perform, tryTake]
  split
  · exact .refused _ _
  · next u hu => exact .taken horizon now u hu

/-- What recording a result may do. -/
theorem change_set (s : Store) (held : Task) (r : TaskResult) (completedAt : Instant) :
    Change s ⟨.set held r completedAt, ((StoreCall.set held r completedAt).perform s).1⟩
      ((StoreCall.set held r completedAt).perform s).2 := by
  simp only [StoreCall.perform, set]
  split
  · exact .refused _ _
  · next hr =>
    split
    · next hlease =>
      obtain ⟨u, hu, hleased⟩ := List.any_eq_true.mp hlease
      exact .recorded held r completedAt u hu hleased hr
    · split
      · exact .refused _ _
      · exact .refused _ _

/-- Whatever a call does is one of the changes. -/
theorem change_perform (s : Store) (c : StoreCall) :
    Change s ⟨c, (c.perform s).1⟩ (c.perform s).2 := by
  cases c with
  | tryAdd t now => exact s.change_tryAdd t now
  | tryTake horizon now => exact s.change_tryTake horizon now
  | set held r completedAt => exact s.change_set held r completedAt
  | moderate taskId path startLine endLine m =>
    exact .judged taskId path startLine endLine m _
  | putRepo repo => exact .registered _ rfl _ _ rfl rfl
  | deleteRepo id => exact .registered _ rfl _ _ rfl rfl
  | putLinter linter => exact .registered _ rfl _ _ rfl rfl
  | deleteLinter id => exact .registered _ rfl _ _ rfl rfl

end Store

end LintPatrol
