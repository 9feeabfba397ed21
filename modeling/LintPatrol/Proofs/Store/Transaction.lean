import LintPatrol.Proofs.Database.Undamaged
import LintPatrol.Proofs.Store.Finality

/-!
# LintPatrol.Proofs.Store.Transaction

What the statements of a call leave when one of them fails.  A call is a
`Script` of statements; before each of them the database may fail, and where a
script gives up, what its statements have done so far stays, unless it is a
transaction, which is undone.  Recording a result takes several statements: one
that finishes the task, one that finds out why no task was finished, and one for
each finding.

* `Computes`: a script has one answer, and leaves one store, except that a
  failure of the database may end it before.  There is a rule for each way to
  build a script, and `script_computes` puts them together: what a call does is
  what the store does in one step.
* `IsAtomic`: a script that fails leaves the store as it was (`script_atomic`).
* `refusals_truthful`: so it is with all calls, whatever fails; and a result
  that is not recorded is refused for the reason there is.
-/

namespace LintPatrol

open Time

/-! ## Scripts -/

/-- The store as statements find it, and the failures that the next of them are
going to meet; behind the end of the list there are none. -/
structure Connection where
  store : Store
  /-- The failures to come, one place for each statement. -/
  faults : List (Option Failure)

/-- Statements one after the other: an answer or an error, and the connection
that they leave. -/
abbrev Script (α : Type) : Type := EStateM StoreError Connection α

namespace Script

variable {α β : Type}

/-- A single statement: it is carried out, or the database fails and nothing is
done. -/
def statement (context : String) (op : Store → α × Store) : Script α := fun c =>
  match c.faults.head?.join with
  | some f => .error (.database (f.within context)) { c with faults := c.faults.tail }
  | none => .ok (op c.store).1 ⟨(op c.store).2, c.faults.tail⟩

/-- A single statement whose answer may be an error. -/
def single (context : String) (op : Store → Except StoreError α × Store) : Script α := do
  match ← statement context op with
  | .ok a => pure a
  | .error e => throw e

/-- A script that is undone if it fails. -/
def undone (x : Script α) : Script α := fun c =>
  match x c with
  | .ok a c' => .ok a c'
  | .error e c' => .error e { c' with store := c.store }

/-- Statements that take effect together, or not at all. -/
def transaction (closing : String) (x : Script α) : Script α := do
  statement "Failed to begin transaction" fun s => ((), s)
  undone do
    let a ← x
    statement closing fun s => ((), s)
    pure a

end Script

/-! ## Recording in several statements -/

namespace Store

/-- Finishes the task that is held; says how many rows there are of it. -/
def finishLeased (held : Task) (r : TaskResult) (completedAt : Instant) (s : Store) : Nat × Store :=
  (s.tasks.countP (·.isLeasedAs held),
    { s with
      tasks := s.tasks.map fun u => if u.isLeasedAs held then u.finish r completedAt else u })

/-- How far the task of that name has come. -/
def statusOf (id : String) (s : Store) : Option TaskStatus :=
  (s.tasks.find? (·.id = id)).map (·.status)

def addFinding (id : String) (f : Finding) (s : Store) : Store :=
  { s with findings := s.findings ++ [.fresh id f] }

end Store

namespace Script

/-- Stores findings one by one. -/
def addFindings (id : String) : List Finding → Script Unit
  | [] => pure ()
  | f :: fs => do
    statement "Failed to insert lint highlight" fun s => ((), s.addFinding id f)
    addFindings id fs

/-- What is done within the transaction that records a result. -/
def recording (held : Task) (r : TaskResult) (completedAt : Instant) : Script Unit := do
  let count ← statement "Failed to update lint task" (Store.finishLeased held r completedAt)
  if count = 0 then
    let status ← statement "Failed to read lint task status" fun s => (s.statusOf held.id, s)
    throw (if status = some .pending then .leaseLost held.id else .notPending held.id)
  else
    statement "Failed to prepare highlight insert" fun s => ((), s)
    addFindings held.id r.findings

/-- Records the result of a task that has been taken. -/
def record (held : Task) (r : TaskResult) (completedAt : Instant) : Script Unit :=
  if r.status = .pending ∧ r.findings ≠ [] then
    throw (.database (.plain
      ("Pending result for task " ++ held.id ++ " cannot carry highlights")))
  else transaction "Failed to commit lint result" (recording held r completedAt)

end Script

open Script in
/-- The statements of a call. -/
def StoreCall.script : StoreCall → Script StoreAnswer
  | tryAdd t now => do
    single "Failed to insert lint task" (Store.tryAdd t now)
    pure .done
  | tryTake horizon now => do
    let t ← single "Failed to lease lint task" (Store.tryTake horizon now)
    pure (.task t)
  | set held r completedAt => do
    record held r completedAt
    pure .done
  | moderate taskId path startLine endLine m => do
    let n ← statement "Failed to moderate highlight"
      (Store.moderate taskId path startLine endLine m)
    pure (.judged n)
  | putRepo repo => do
    statement "Failed to upsert repo" fun s => ((), s.putRepo repo)
    pure .done
  | deleteRepo id => do
    let b ← statement "Failed to delete repo" (Store.deleteRepo id)
    pure (.existed b)
  | putLinter linter => do
    statement "Failed to upsert linter" fun s => ((), s.putLinter linter)
    pure .done
  | deleteLinter id => do
    let b ← statement "Failed to delete linter" (Store.deleteLinter id)
    pure (.existed b)

/-- The answer that a script ends with, or with the error it fails with. -/
def StoreAnswer.ofResult : Except StoreError StoreAnswer → StoreAnswer
  | .ok a => a
  | .error e => refused e

/-- Carries out the call statement by statement: its answer, and the store that
it leaves. -/
def StoreCall.attempt (c : StoreCall) (faults : List (Option Failure)) (s : Store) :
    StoreAnswer × Store :=
  match c.script ⟨s, faults⟩ with
  | .ok a d => (a, d.store)
  | .error e d => (.refused e, d.store)

/-- The store that calls leave, each of them with the failures that it meets. -/
def Store.afterAttempts (s : Store) : List (StoreCall × List (Option Failure)) → Store
  | [] => s
  | (c, faults) :: cs => (c.attempt faults s).2.afterAttempts cs

namespace Script

variable {α β : Type} {x : Script α} {s s' s'' : Store}

/-! ## What a script computes -/

/-- How a script ends with an answer or with an error. -/
def ended (r : Except StoreError α) (c : Connection) : EStateM.Result StoreError Connection α :=
  match r with
  | .ok a => .ok a c
  | .error e => .error e c

/-- The database fails while the script is carried out. -/
def Fails (x : Script α) (c : Connection) : Prop := ∃ f d, x c = .error (.database f) d

/-- Started on a store the script ends with an answer, or with an error, and
leaves a store; only a failure of the database can end it before. -/
def Computes (x : Script α) (s : Store) (r : Except StoreError α) (s' : Store) : Prop :=
  x ⟨s, []⟩ = ended r ⟨s', []⟩ ∧
    ∀ faults, x.Fails ⟨s, faults⟩ ∨ ∃ rest, x ⟨s, faults⟩ = ended r ⟨s', rest⟩

theorem computes_pure (a : α) (s : Store) : Computes (pure a) s (.ok a) s :=
  ⟨rfl, fun faults => .inr ⟨faults, rfl⟩⟩

theorem computes_throw (e : StoreError) (s : Store) :
    Computes (throw e : Script α) s (.error e) s :=
  ⟨rfl, fun faults => .inr ⟨faults, rfl⟩⟩

/-- A statement that does not fail does its operation. -/
theorem computes_statement (context : String) (op : Store → α × Store) (s : Store) :
    Computes (statement context op) s (.ok (op s).1) (op s).2 := by
  refine ⟨rfl, fun faults => ?_⟩
  cases hfault : faults.head?.join with
  | some f =>
    refine .inl ⟨f.within context, ⟨s, faults.tail⟩, ?_⟩
    simp only [statement, hfault]
  | none =>
    refine .inr ⟨faults.tail, ?_⟩
    simp only [statement, hfault, ended]

/-- A script goes on from an answer. -/
theorem Computes.bind {a : α} {f : α → Script β} {r : Except StoreError β}
    (hx : Computes x s (.ok a) s') (hf : Computes (f a) s' r s'') :
    Computes (x >>= f) s r s'' := by
  have hrun : ∀ c d, x c = .ok a d → (x >>= f) c = f a d := fun c d h => by
    simp only [Bind.bind, EStateM.bind, h]
  refine ⟨(hrun _ _ hx.1).trans hf.1, fun faults => ?_⟩
  rcases hx.2 faults with ⟨e, d, hfails⟩ | ⟨rest, hx⟩
  · exact .inl ⟨e, d, by simp only [Bind.bind, EStateM.bind, hfails]⟩
  · rw [Fails, hrun _ _ hx]
    exact hf.2 rest

/-- A script that has failed does not go on. -/
theorem Computes.bind_error {e : StoreError} (hx : Computes x s (.error e) s')
    (f : α → Script β) : Computes (x >>= f) s (.error e) s' := by
  have hrun : ∀ c d (e : StoreError), x c = .error e d → (x >>= f) c = .error e d :=
    fun c d e h => by simp only [Bind.bind, EStateM.bind, h]
  refine ⟨hrun _ _ e hx.1, fun faults => ?_⟩
  rcases hx.2 faults with ⟨g, d, hfails⟩ | ⟨rest, hx⟩
  · exact .inl ⟨g, d, hrun _ _ _ hfails⟩
  · exact .inr ⟨rest, hrun _ _ e hx⟩

/-- What is made of the answer in the end. -/
theorem Computes.map {r : Except StoreError α} (hx : Computes x s r s') (f : α → β) :
    Computes (do let a ← x; pure (f a)) s (r.map f) s' := by
  cases r with
  | ok a => exact hx.bind (computes_pure (f a) s')
  | error e => exact hx.bind_error _

/-- A call of a single statement that does not fail is that statement. -/
theorem computes_single (context : String) (op : Store → Except StoreError α × Store) (s : Store) :
    Computes (single context op) s (op s).1 (op s).2 := by
  refine (computes_statement context op s).bind ?_
  cases (op s).1 with
  | ok a => exact computes_pure a _
  | error e => exact computes_throw e _

/-- What is undone leaves the store as it was if it fails. -/
theorem Computes.undone {r : Except StoreError α} (hx : Computes x s r s') :
    Computes (undone x) s r (if r.toBool then s' else s) := by
  have hok : ∀ c d (a : α), x c = .ok a d → x.undone c = .ok a d := fun c d a h => by
    simp only [Script.undone, h]
  have herror : ∀ c d (e : StoreError), x c = .error e d →
      x.undone c = .error e { d with store := c.store } := fun c d e h => by
    simp only [Script.undone, h]
  have hends : ∀ faults rest, x ⟨s, faults⟩ = ended r ⟨s', rest⟩ →
      x.undone ⟨s, faults⟩ = ended r ⟨if r.toBool then s' else s, rest⟩ := fun faults rest h => by
    cases r with
    | ok a => exact hok _ _ a h
    | error e => exact herror _ _ e h
  refine ⟨hends [] [] hx.1, fun faults => ?_⟩
  rcases hx.2 faults with ⟨f, d, hfails⟩ | ⟨rest, hx⟩
  · exact .inl ⟨f, _, herror _ _ _ hfails⟩
  · exact .inr ⟨rest, hends faults rest hx⟩

/-- A transaction that succeeds leaves what its statements do, and one that
fails leaves nothing of it. -/
theorem computes_transaction {r : Except StoreError α} (closing : String)
    (hx : Computes x s r s') :
    Computes (transaction closing x) s r (if r.toBool then s' else s) := by
  refine (computes_statement _ (fun s => ((), s)) s).bind (Computes.undone ?_)
  cases r with
  | ok a =>
    exact hx.bind ((computes_statement closing (fun s => ((), s)) s').bind (computes_pure a s'))
  | error e => exact hx.bind_error _

/-! ## Recording -/

/-- Findings are stored in their order. -/
theorem computes_addFindings (id : String) (fs : List Finding) (s : Store) :
    Computes (addFindings id fs) s (.ok ())
      { s with findings := s.findings ++ fs.map (FindingRow.fresh id) } := by
  induction fs generalizing s with
  | nil =>
    rw [List.map_nil, List.append_nil]
    exact computes_pure () s
  | cons f fs ih =>
    have hrest := ih (s.addFinding id f)
    rw [Store.addFinding, List.append_assoc, List.singleton_append, ← List.map_cons] at hrest
    exact (computes_statement _ (fun s => ((), s.addFinding id f)) s).bind hrest

end Script

namespace Store

variable {s : Store} {held : Task}

/-- Of the names of tasks there is one row each, so the row that is finished is
the one that is leased. -/
theorem finishLeased_eq (hkeyed : (s.tasks.map TaskRow.id).Nodup) {u : TaskRow} (hu : u ∈ s.tasks)
    (hlease : u.isLeasedAs held = true) (r : TaskResult) (completedAt : Instant) :
    (s.finishLeased held r completedAt).2 = s.updateTask held.id (·.finish r completedAt) := by
  have hrow : ∀ v ∈ s.tasks, v.isLeasedAs held = true ↔ v.id = held.id := by
    refine fun v hv => ⟨TaskRow.id_of_isLeasedAs, fun hid => ?_⟩
    rw [eq_of_id_eq hkeyed hv hu (hid.trans (TaskRow.id_of_isLeasedAs hlease).symm)]
    exact hlease
  have hmap : (s.tasks.map fun v => if v.isLeasedAs held then v.finish r completedAt else v) =
      s.tasks.map fun v => if v.id = held.id then v.finish r completedAt else v :=
    List.map_congr_left fun v hv => by simp only [hrow v hv]
  simp only [finishLeased, updateTask, hmap]

/-- A task that nobody holds is not finished. -/
theorem finishLeased_of_none (h : ∀ u ∈ s.tasks, ¬u.isLeasedAs held = true) (r : TaskResult)
    (completedAt : Instant) : s.finishLeased held r completedAt = (0, s) := by
  have hmap : (s.tasks.map fun u => if u.isLeasedAs held then u.finish r completedAt else u) =
      s.tasks := (List.map_congr_left fun u hu => if_neg (h u hu)).trans (List.map_id' s.tasks)
  rw [finishLeased, List.countP_eq_zero.mpr h, hmap]

/-- The status that is looked up is that of the row of that name. -/
theorem statusOf_eq_some_iff (hkeyed : (s.tasks.map TaskRow.id).Nodup) {id : String}
    {status : TaskStatus} :
    s.statusOf id = some status ↔ ∃ u ∈ s.tasks, u.id = id ∧ u.status = status := by
  rw [statusOf, Option.map_eq_some_iff]
  constructor
  · rintro ⟨u, hfind, hstatus⟩
    exact ⟨u, List.mem_of_find?_eq_some hfind, by simpa using List.find?_some hfind, hstatus⟩
  · rintro ⟨u, hu, hid, hstatus⟩
    cases hfind : s.tasks.find? (·.id = id) with
    | none => exact absurd hid (by simpa using List.find?_eq_none.mp hfind u hu)
    | some v =>
      have hvid : v.id = id := by simpa using List.find?_some hfind
      have hvu := eq_of_id_eq hkeyed (List.mem_of_find?_eq_some hfind) hu (hvid.trans hid.symm)
      exact ⟨v, rfl, hvu ▸ hstatus⟩

end Store

namespace Script

variable {s : Store}

/-- A result is recorded statement by statement as it is at once. -/
theorem computes_record (hkeyed : (s.tasks.map TaskRow.id).Nodup) (held : Task) (r : TaskResult)
    (completedAt : Instant) :
    Computes (record held r completedAt) s (s.set held r completedAt).1
      (s.set held r completedAt).2 := by
  unfold record Store.set
  split
  · exact computes_throw _ s
  have hupdate := computes_statement "Failed to update lint task"
    (Store.finishLeased held r completedAt) s
  split
  · next hany =>
    obtain ⟨u, hu, hlease⟩ := List.any_eq_true.mp hany
    have hcount : (s.finishLeased held r completedAt).1 ≠ 0 :=
      Nat.ne_of_gt (List.countP_pos_iff.mpr ⟨u, hu, hlease⟩)
    rw [Store.finishLeased_eq hkeyed hu hlease] at hupdate
    refine computes_transaction _ (hupdate.bind ?_)
    rw [if_neg hcount]
    exact (computes_statement _ (fun s => ((), s)) _).bind (computes_addFindings held.id _ _)
  · next hany =>
    have hnone : ∀ u ∈ s.tasks, ¬u.isLeasedAs held = true := by simpa using hany
    rw [Store.finishLeased_of_none hnone] at hupdate
    have hrefused : Computes (recording held r completedAt) s
        (.error (if s.statusOf held.id = some .pending then .leaseLost held.id
          else .notPending held.id)) s := by
      refine hupdate.bind ?_
      rw [if_pos rfl]
      exact (computes_statement _ (fun s => (s.statusOf held.id, s)) s).bind (computes_throw _ s)
    have hundone := computes_transaction "Failed to commit lint result" hrefused
    have hpending : s.statusOf held.id = some .pending ↔
        (s.tasks.any fun u => u.id = held.id && u.status = .pending) = true := by
      simp [Store.statusOf_eq_some_iff hkeyed]
    simp only [hpending] at hundone
    split
    · next h =>
      rw [if_pos h] at hundone
      exact hundone
    · next h =>
      rw [if_neg h] at hundone
      exact hundone

/-- **What a call does statement by statement is what it does at once.** -/
theorem script_computes (hkeyed : (s.tasks.map TaskRow.id).Nodup) (c : StoreCall) :
    ∃ r, Computes c.script s r (c.perform s).2 ∧ (c.perform s).1 = .ofResult r := by
  cases c with
  | tryAdd t now =>
    refine ⟨_, (computes_single _ (Store.tryAdd t now) s).map _, ?_⟩
    simp only [StoreCall.perform]
    cases (s.tryAdd t now).1 <;> rfl
  | tryTake horizon now =>
    refine ⟨_, (computes_single _ (Store.tryTake horizon now) s).map _, ?_⟩
    simp only [StoreCall.perform]
    cases (s.tryTake horizon now).1 <;> rfl
  | set held r completedAt =>
    refine ⟨_, (computes_record hkeyed held r completedAt).map _, ?_⟩
    simp only [StoreCall.perform]
    cases (s.set held r completedAt).1 <;> rfl
  | moderate taskId path startLine endLine m =>
    exact ⟨_, (computes_statement _ (Store.moderate taskId path startLine endLine m) s).map _, rfl⟩
  | putRepo repo =>
    exact ⟨_, (computes_statement _ (fun s => ((), s.putRepo repo)) s).map _, rfl⟩
  | deleteRepo id => exact ⟨_, (computes_statement _ (Store.deleteRepo id) s).map _, rfl⟩
  | putLinter linter =>
    exact ⟨_, (computes_statement _ (fun s => ((), s.putLinter linter)) s).map _, rfl⟩
  | deleteLinter id => exact ⟨_, (computes_statement _ (Store.deleteLinter id) s).map _, rfl⟩

/-! ## Failing -/

variable {α β : Type} {x : Script α}

/-- A script that fails leaves the store as it was. -/
def IsAtomic (x : Script α) : Prop := ∀ c e d, x c = .error e d → d.store = c.store

/-- A script that leaves the store alone. -/
def Keeps (x : Script α) : Prop := ∀ c a d, x c = .ok a d → d.store = c.store

/-- A statement fails, and changes nothing, or does what it does. -/
theorem statement_cases (context : String) (op : Store → α × Store) (c : Connection) :
    (∃ f, statement context op c = .error (.database f) ⟨c.store, c.faults.tail⟩) ∨
      statement context op c = .ok (op c.store).1 ⟨(op c.store).2, c.faults.tail⟩ := by
  unfold statement
  split
  · exact .inl ⟨_, rfl⟩
  · exact .inr rfl

/-- A statement that fails has changed nothing. -/
theorem isAtomic_statement (context : String) (op : Store → α × Store) :
    (statement context op).IsAtomic := by
  intro c e d h
  rcases statement_cases context op c with ⟨f, hfails⟩ | hdone
  · rw [hfails] at h
    cases h
    rfl
  · rw [hdone] at h
    cases h

theorem keeps_statement (context : String) {op : Store → α × Store} (hop : ∀ s, (op s).2 = s) :
    (statement context op).Keeps := by
  intro c a d h
  rcases statement_cases context op c with ⟨f, hfails⟩ | hdone
  · rw [hfails] at h
    cases h
  · rw [hdone] at h
    cases h
    exact hop c.store

/-- A script may go on as long as the store has not changed. -/
theorem IsAtomic.bind {f : α → Script β} (hx : x.IsAtomic) (hkeeps : x.Keeps)
    (hf : ∀ a, (f a).IsAtomic) : (x >>= f).IsAtomic := by
  intro c e d h
  cases hrun : x c with
  | ok a c' =>
    simp only [Bind.bind, EStateM.bind, hrun] at h
    rw [hf a c' e d h, hkeeps c a c' hrun]
  | error e' d' =>
    simp only [Bind.bind, EStateM.bind, hrun] at h
    cases h
    exact hx c e d hrun

/-- A script may make something of its answer in the end. -/
theorem IsAtomic.map (hx : x.IsAtomic) (f : α → β) : IsAtomic (do let a ← x; pure (f a)) := by
  intro c e d h
  cases hrun : x c with
  | ok a c' =>
    simp only [Bind.bind, EStateM.bind, hrun] at h
    cases h
  | error e' d' =>
    simp only [Bind.bind, EStateM.bind, hrun] at h
    cases h
    exact hx c e d hrun

/-- A single statement that is refused must leave the store as it was. -/
theorem isAtomic_single (context : String) {op : Store → Except StoreError α × Store}
    (hop : ∀ s e, (op s).1 = .error e → (op s).2 = s) : (single context op).IsAtomic := by
  intro c e d h
  rcases statement_cases context op c with ⟨f, hfails⟩ | hdone
  · simp only [single, Bind.bind, EStateM.bind, hfails] at h
    cases h
    rfl
  · simp only [single, Bind.bind, EStateM.bind, hdone] at h
    cases hanswer : (op c.store).1 with
    | ok a =>
      rw [hanswer] at h
      cases h
    | error e' =>
      rw [hanswer] at h
      cases h
      exact hop c.store e hanswer

/-- What is undone when it fails has changed nothing then. -/
theorem isAtomic_undone (x : Script α) : (undone x).IsAtomic := by
  intro c e d h
  simp only [undone] at h
  split at h <;> cases h
  rfl

/-- **A transaction takes effect as a whole, or not at all.** -/
theorem isAtomic_transaction (closing : String) (x : Script α) :
    (transaction closing x).IsAtomic :=
  (isAtomic_statement _ _).bind (keeps_statement _ fun _ => rfl) fun _ => isAtomic_undone _

/-- To record a result changes nothing if it fails. -/
theorem isAtomic_record (held : Task) (r : TaskResult) (completedAt : Instant) :
    (record held r completedAt).IsAtomic := by
  unfold record
  split
  · intro c e d h
    cases h
    rfl
  · exact isAtomic_transaction _ _

/-- **A call that fails leaves the store as it was**, whatever fails. -/
theorem script_atomic (c : StoreCall) : c.script.IsAtomic := by
  cases c with
  | tryAdd t now =>
    refine (isAtomic_single _ fun s e h => ?_).map _
    exact Store.eq_of_refused (c := .tryAdd t now) rfl (congrArg StoreAnswer.ofOutcome h)
  | tryTake horizon now =>
    refine (isAtomic_single _ fun s e h => ?_).map _
    exact Store.eq_of_refused (c := .tryTake horizon now) rfl (congrArg StoreAnswer.ofTaken h)
  | set held r completedAt => exact (isAtomic_record held r completedAt).map _
  | moderate => exact (isAtomic_statement _ _).map _
  | putRepo => exact (isAtomic_statement _ _).map _
  | deleteRepo => exact (isAtomic_statement _ _).map _
  | putLinter => exact (isAtomic_statement _ _).map _
  | deleteLinter => exact (isAtomic_statement _ _).map _

end Script

namespace Store

variable {s : Store}

/-! ## Attempts -/

/-- An attempt is answered with what its script comes to. -/
theorem attempt_of_ended {c : StoreCall} {faults rest : List (Option Failure)}
    {r : Except StoreError StoreAnswer} {s' : Store}
    (h : c.script ⟨s, faults⟩ = Script.ended r ⟨s', rest⟩) :
    c.attempt faults s = (.ofResult r, s') := by
  rw [StoreCall.attempt, h]
  cases r <;> rfl

/-- Where the database does not fail, a call is carried out. -/
theorem attempt_nil (hkeyed : (s.tasks.map TaskRow.id).Nodup) (c : StoreCall) :
    c.attempt [] s = c.perform s := by
  obtain ⟨r, ⟨hruns, -⟩, hanswer⟩ := Script.script_computes hkeyed c
  exact (attempt_of_ended hruns).trans (Prod.ext hanswer.symm rfl)

/-- An attempt does what the call does, or the database fails and nothing is
done. -/
theorem attempt_cases (hkeyed : (s.tasks.map TaskRow.id).Nodup) (c : StoreCall)
    (faults : List (Option Failure)) :
    c.attempt faults s = c.perform s ∨
      ∃ f, c.attempt faults s = (.refused (.database f), s) := by
  obtain ⟨r, ⟨-, hends⟩, hanswer⟩ := Script.script_computes hkeyed c
  rcases hends faults with ⟨f, d, hfails⟩ | ⟨rest, hruns⟩
  · refine .inr ⟨f, ?_⟩
    rw [StoreCall.attempt, hfails]
    exact congrArg _ (Script.script_atomic c _ _ d hfails)
  · exact .inl ((attempt_of_ended hruns).trans (Prod.ext hanswer.symm rfl))

/-- A call that is refused leaves the store as it was. -/
theorem attempt_refused (hkeyed : (s.tasks.map TaskRow.id).Nodup) {c : StoreCall}
    {faults : List (Option Failure)} {e : StoreError} (h : (c.attempt faults s).1 = .refused e) :
    (c.attempt faults s).2 = s := by
  rcases attempt_cases hkeyed c faults with hdone | ⟨f, hfails⟩
  · rw [hdone] at h ⊢
    cases hregistry : c.isRegistry with
    | false => exact eq_of_refused hregistry h
    | true => cases c <;> contradiction
  · rw [hfails]

/-- What attempts leave, calls leave as well: those of them that were carried
out. -/
theorem exists_after_of_attempts (cs : List (StoreCall × List (Option Failure)))
    (hkeyed : (s.tasks.map TaskRow.id).Nodup) :
    ∃ ds : List StoreCall, ds.Sublist (cs.map Prod.fst) ∧ s.afterAttempts cs = s.after ds := by
  induction cs generalizing s with
  | nil => exact ⟨[], .slnil, rfl⟩
  | cons p cs ih =>
    obtain ⟨c, faults⟩ := p
    rcases attempt_cases hkeyed c faults with hdone | ⟨f, hfails⟩
    · obtain ⟨ds, hds, hafter⟩ := ih ((change_perform s c).keyed hkeyed)
      refine ⟨c :: ds, hds.cons_cons c, ?_⟩
      rw [afterAttempts, hdone, hafter, after]
    · obtain ⟨ds, hds, hafter⟩ := ih hkeyed
      refine ⟨ds, hds.cons c, ?_⟩
      rw [afterAttempts, hfails, hafter]

/-- However calls fail, there is one row of each task. -/
theorem keyed_afterAttempts (cs : List (StoreCall × List (Option Failure))) :
    ((empty.afterAttempts cs).tasks.map TaskRow.id).Nodup := by
  obtain ⟨ds, -, hafter⟩ := exists_after_of_attempts cs history_empty.keyed
  rw [hafter]
  exact (history_after ds).keyed

end Store

/-! ## Why a result is not recorded -/

/-- The task has a lease, and the one that it is held under is the same to the
millisecond. -/
def TaskRow.SharesLease (u : TaskRow) (held : Task) : Prop :=
  ∃ l, u.lockedAt = some l ∧ held.stamp = some l

/-- A result is taken of a pending task that still has the lease it was handed out with. -/
theorem TaskRow.isLeasedAs_iff {u : TaskRow} {held : Task} :
    u.isLeasedAs held = true ↔ u.id = held.id ∧ u.status = .pending ∧ u.SharesLease held := by
  simp only [isLeasedAs, SharesLease, Task.stamp, Bool.and_eq_true, decide_eq_true_eq, and_assoc,
    Option.map_eq_some_iff]
  refine and_congr_right fun _ => and_congr_right fun _ => ?_
  cases u.lockedAt <;> cases held.lockedAt <;> simp [eq_comm]

namespace Store

variable {s : Store} {held : Task} {r : TaskResult}

/-- What does not belong to a task that is to be run again is not recorded. -/
theorem set_eq_database (hr : r.status = .pending ∧ r.findings ≠ []) (completedAt : Instant) :
    ∃ f, (s.set held r completedAt).1 = .error (.database f) := by
  rw [set, if_pos hr]
  exact ⟨_, rfl⟩

/-- A result is recorded, or refused since the lease is lost, or since the task
is not pending. -/
theorem set_cases (hr : ¬(r.status = .pending ∧ r.findings ≠ [])) (completedAt : Instant) :
    ((s.set held r completedAt).1 = .ok () ∧
        ∃ u ∈ s.tasks, u.id = held.id ∧ u.status = .pending ∧ u.SharesLease held) ∨
      ((s.set held r completedAt).1 = .error (.leaseLost held.id) ∧
        (∀ u ∈ s.tasks, u.isLeasedAs held = false) ∧
          ∃ u ∈ s.tasks, u.id = held.id ∧ u.status = .pending) ∨
      ((s.set held r completedAt).1 = .error (.notPending held.id) ∧
        ∀ u ∈ s.tasks, u.id = held.id → u.status ≠ .pending) := by
  rw [set, if_neg hr]
  split
  · next h =>
    obtain ⟨u, hu, hlease⟩ := List.any_eq_true.mp h
    exact .inl ⟨rfl, u, hu, TaskRow.isLeasedAs_iff.mp hlease⟩
  · next hnone =>
    split
    · next h => exact .inr (.inl ⟨rfl, by simpa using hnone, by simpa using h⟩)
    · next h => exact .inr (.inr ⟨rfl, by simpa using h⟩)

/-- A result is recorded just if the task is pending under the lease that it is
held under. -/
theorem set_eq_ok_iff (hr : ¬(r.status = .pending ∧ r.findings ≠ [])) (completedAt : Instant) :
    (s.set held r completedAt).1 = .ok () ↔
      ∃ u ∈ s.tasks, u.id = held.id ∧ u.status = .pending ∧ u.SharesLease held := by
  rcases set_cases (s := s) hr completedAt with ⟨ha, h⟩ | ⟨ha, hnone, -⟩ | ⟨ha, hnone⟩ <;> rw [ha]
  · exact iff_of_true rfl h
  · refine iff_of_false (by simp) ?_
    rintro ⟨u, hu, hlease⟩
    simpa [hnone u hu] using TaskRow.isLeasedAs_iff.mpr hlease
  · refine iff_of_false (by simp) ?_
    rintro ⟨u, hu, hid, hpending, -⟩
    exact hnone u hu hid hpending

/-- A result is refused since the lease is lost just if the task is pending
under another lease, or under none. -/
theorem set_eq_leaseLost_iff (hkeyed : (s.tasks.map TaskRow.id).Nodup)
    (hr : ¬(r.status = .pending ∧ r.findings ≠ [])) (completedAt : Instant) :
    (s.set held r completedAt).1 = .error (.leaseLost held.id) ↔
      ∃ u ∈ s.tasks, u.id = held.id ∧ u.status = .pending ∧ ¬u.SharesLease held := by
  rcases set_cases (s := s) hr completedAt with
    ⟨ha, u, hu, hid, -, hshares⟩ | ⟨ha, hnone, u, hu, hid, hpending⟩ | ⟨ha, hnone⟩ <;> rw [ha]
  · refine iff_of_false (by simp) ?_
    rintro ⟨v, hv, hvid, -, hv'⟩
    exact hv' (eq_of_id_eq hkeyed hv hu (hvid.trans hid.symm) ▸ hshares)
  · refine iff_of_true rfl ⟨u, hu, hid, hpending, fun hshares => ?_⟩
    simpa [hnone u hu] using TaskRow.isLeasedAs_iff.mpr ⟨hid, hpending, hshares⟩
  · refine iff_of_false (by simp) ?_
    rintro ⟨u, hu, hid, hpending, -⟩
    exact hnone u hu hid hpending

/-- A result is refused since the task is not pending just if it is not, or if
there is no such task. -/
theorem set_eq_notPending_iff (hr : ¬(r.status = .pending ∧ r.findings ≠ []))
    (completedAt : Instant) :
    (s.set held r completedAt).1 = .error (.notPending held.id) ↔
      ∀ u ∈ s.tasks, u.id = held.id → u.status ≠ .pending := by
  rcases set_cases (s := s) hr completedAt with
    ⟨ha, u, hu, hid, hpending, -⟩ | ⟨ha, -, u, hu, hid, hpending⟩ | ⟨ha, hnone⟩ <;> rw [ha]
  · exact iff_of_false (by simp) fun hnone => hnone u hu hid hpending
  · exact iff_of_false (by simp) fun hnone => hnone u hu hid hpending
  · exact iff_of_true rfl hnone

/-- **Refusals tell the truth**, in every store that calls leave, whatever
failures of the database they met.  A call that is refused changes nothing; the
failures that it meets can make it fail, and do nothing else.  A result is
recorded just if the task is pending under the lease that it is held under, and
is else refused for the reason there is. -/
theorem refusals_truthful (cs : List (StoreCall × List (Option Failure))) :
    let s := empty.afterAttempts cs
    (∀ (c : StoreCall) (faults : List (Option Failure)),
        (∀ e, (c.attempt faults s).1 = .refused e → (c.attempt faults s).2 = s) ∧
          (c.attempt faults s = c.perform s ∨
            ∃ f, c.attempt faults s = (.refused (.database f), s)) ∧
          c.attempt [] s = c.perform s) ∧
      ∀ (held : Task) (r : TaskResult) (completedAt : Instant),
        let answer := (s.set held r completedAt).1
        (r.status = .pending ∧ r.findings ≠ [] → ∃ f, answer = .error (.database f)) ∧
          (¬(r.status = .pending ∧ r.findings ≠ []) →
            (answer = .ok () ↔
              ∃ u ∈ s.tasks, u.id = held.id ∧ u.status = .pending ∧ u.SharesLease held) ∧
            (answer = .error (.leaseLost held.id) ↔
              ∃ u ∈ s.tasks, u.id = held.id ∧ u.status = .pending ∧ ¬u.SharesLease held) ∧
            (answer = .error (.notPending held.id) ↔
              ∀ u ∈ s.tasks, u.id = held.id → u.status ≠ .pending)) := by
  intro s
  have hkeyed : (s.tasks.map TaskRow.id).Nodup := keyed_afterAttempts cs
  refine ⟨fun c faults => ⟨fun e h => attempt_refused hkeyed h, attempt_cases hkeyed c faults,
    attempt_nil hkeyed c⟩, fun held r completedAt => ⟨fun hr => set_eq_database hr completedAt, ?_⟩⟩
  intro hr
  exact ⟨set_eq_ok_iff hr completedAt, set_eq_leaseLost_iff hkeyed hr completedAt,
    set_eq_notPending_iff hr completedAt⟩

/-- A task that was taken after ten milliseconds, and two findings in it. -/
def halfwayTask : Task :=
  { Task.fresh "a" ⟨"l", "image", "digest"⟩ ⟨"r", "url", "commit"⟩ .epoch with
    lockedAt := some (.ofMillis 10) }

/-- The result of its run. -/
def halfwayResult : TaskResult :=
  ⟨.succeeded, none, .zero,
    [⟨⟨"x", 1, 1, "first"⟩, ⟨1, 1, ""⟩⟩, ⟨⟨"y", 2, 2, "second"⟩, ⟨2, 2, ""⟩⟩]⟩

/-- It was added, at the second attempt, and taken. -/
def halfwayCalls : List (StoreCall × List (Option Failure)) :=
  [(.tryAdd halfwayTask .epoch, [some (.plain "disk full")]),
    (.tryAdd halfwayTask .epoch, []),
    (.tryTake .epoch (.ofMillis 10), [])]

/-- The disk is full when the second finding is stored, and nothing is left of
the first. -/
theorem refusals_truthful_halfway :
    let s := empty.afterAttempts halfwayCalls
    let call := StoreCall.set halfwayTask halfwayResult (.ofMillis 20)
    let faults := [none, none, none, none, some (.plain "disk full")]
    (call.attempt faults s).1 =
        .refused (.database ⟨"Failed to insert lint highlight", ["disk full"]⟩) ∧
      (call.attempt faults s).2 = s ∧
      (s.set halfwayTask halfwayResult (.ofMillis 20)).1 = .ok () := by
  intro s call faults
  have hrefused : (call.attempt faults s).1 =
      .refused (.database ⟨"Failed to insert lint highlight", ["disk full"]⟩) := by rfl
  have hrow : ∃ u ∈ s.tasks, u.id = "a" ∧ u.status = .pending ∧ u.SharesLease halfwayTask :=
    ⟨(TaskRow.fresh halfwayTask .epoch).lease (.ofMillis 10), .head _, rfl, rfl, 10, rfl, rfl⟩
  have htruth := refusals_truthful halfwayCalls
  exact ⟨hrefused, (htruth.1 call faults).1 _ hrefused,
    ((htruth.2 halfwayTask halfwayResult (.ofMillis 20)).2 (by decide)).1.mpr hrow⟩

end Store

end LintPatrol
