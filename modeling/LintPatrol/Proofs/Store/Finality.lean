import Mathlib.Data.List.Induction
import Mathlib.Data.List.Nodup
import LintPatrol.Proofs.Store.Lease

/-!
# LintPatrol.Proofs.Store.Finality

What is said of a task stays true.  In every store that any calls lead to:

* a row keeps its name, linter, revision and time of creation for ever, and
  all of itself once its task is no longer pending (`Becomes`);
* a task that is pending has no findings, and one that is not has exactly
  those of the one result that made it final (`Settled`): findings are
  recorded all together or not at all;
* a row says nothing of runs that did not take place, and nothing is missing
  of the one that made it final (`Coherent`).

`History` puts these together with what they rest on: names are unique, and
neither findings nor events speak of tasks that are not stored.
-/

namespace LintPatrol

open Time

/-! ## Rows -/

namespace TaskRow

/-- What may become of a row: it keeps what tells it from others, and once
its task is final it does not change at all. -/
structure Becomes (t u : TaskRow) : Prop where
  id_eq : u.id = t.id
  linter_eq : u.linter = t.linter
  repo_eq : u.repo = t.repo
  createdAt_eq : u.createdAt = t.createdAt
  eq_of_final : t.status ≠ .pending → u = t

theorem Becomes.refl (t : TaskRow) : t.Becomes t := ⟨rfl, rfl, rfl, rfl, fun _ => rfl⟩

/-- What a row has become may become something in its turn. -/
theorem Becomes.trans {t u v : TaskRow} (h : t.Becomes u) (h' : u.Becomes v) : t.Becomes v where
  id_eq := h'.id_eq.trans h.id_eq
  linter_eq := h'.linter_eq.trans h.linter_eq
  repo_eq := h'.repo_eq.trans h.repo_eq
  createdAt_eq := h'.createdAt_eq.trans h.createdAt_eq
  eq_of_final hfinal := by
    have hu := h.eq_of_final hfinal
    subst hu
    exact h'.eq_of_final hfinal

/-- A pending row may be leased. -/
theorem Becomes.lease {t : TaskRow} (ht : t.status = .pending) (now : Instant) :
    t.Becomes (t.lease now) := ⟨rfl, rfl, rfl, rfl, fun hfinal => absurd ht hfinal⟩

/-- It may be given a result. -/
theorem Becomes.finish {t : TaskRow} (ht : t.status = .pending) (r : TaskResult)
    (completedAt : Instant) : t.Becomes (t.finish r completedAt) :=
  ⟨rfl, rfl, rfl, rfl, fun hfinal => absurd ht hfinal⟩

/-- The columns of a row fit its status. -/
structure Coherent (t : TaskRow) : Prop where
  run_of_final : t.status ≠ .pending →
    t.lockedAt.isSome ∧ t.durationMs.isSome ∧ t.lintedAt.isSome
  unrun_of_unleased : t.lockedAt = none →
    t.durationMs = none ∧ t.lintedAt = none ∧ t.comment = none
  comment_eq_none : t.status = .succeeded ∨ t.status = .skipped → t.comment = none

/-- The columns of a new row fit together. -/
theorem coherent_fresh (t : Task) (now : Instant) : (TaskRow.fresh t now).Coherent where
  run_of_final h := absurd rfl h
  unrun_of_unleased _ := ⟨rfl, rfl, rfl⟩
  comment_eq_none _ := rfl

theorem isPending_of_isClaimable {horizon : Int} {t : TaskRow} (h : t.isClaimable horizon = true) :
    t.status = .pending := by
  simp only [isClaimable, Bool.and_eq_true, decide_eq_true_eq] at h
  exact h.1

theorem id_of_isLeasedAs {held : Task} {t : TaskRow} (h : t.isLeasedAs held = true) :
    t.id = held.id := by
  simp only [isLeasedAs, Bool.and_eq_true, decide_eq_true_eq] at h
  exact h.1.1

theorem isPending_of_isLeasedAs {held : Task} {t : TaskRow} (h : t.isLeasedAs held = true) :
    t.status = .pending := by
  simp only [isLeasedAs, Bool.and_eq_true, decide_eq_true_eq] at h
  exact h.1.2

theorem isSome_of_isLeasedAs {held : Task} {t : TaskRow} (h : t.isLeasedAs held = true) :
    t.lockedAt.isSome = true := by
  cases hl : t.lockedAt with
  | none => simp [isLeasedAs, hl] at h
  | some l => rfl

/-- They do so when it is leased. -/
theorem Coherent.lease {t : TaskRow} (ht : t.status = .pending) (now : Instant) :
    (t.lease now).Coherent where
  run_of_final h := absurd ht h
  unrun_of_unleased h := by simp [TaskRow.lease] at h
  comment_eq_none h := by simp [TaskRow.lease, ht] at h

/-- They do so when it is given a result. -/
theorem Coherent.finish {t : TaskRow} {held : Task} (h : t.isLeasedAs held = true) (r : TaskResult)
    (completedAt : Instant) : (t.finish r completedAt).Coherent where
  run_of_final _ := by
    have hsome : t.lockedAt.isSome = true := isSome_of_isLeasedAs h
    exact ⟨hsome, rfl, rfl⟩
  unrun_of_unleased hnone := by
    have hsome := isSome_of_isLeasedAs h
    rw [show t.lockedAt = none from hnone] at hsome
    contradiction
  comment_eq_none hstatus := by
    rcases hstatus with hstatus | hstatus <;>
      simp only [TaskRow.finish] at hstatus <;>
      simp only [TaskRow.finish, TaskResult.keptComment, hstatus]

end TaskRow

/-! ## Final results -/

/-- The event records a final result of the task. -/
def StoreEvent.isFinal (id : String) (e : StoreEvent) : Bool :=
  match e.call, e.answer with
  | .set held r _, .done => held.id = id && r.status.isFinal
  | _, _ => false

namespace Store

def findingsOf (s : Store) (id : String) : List FindingRow := s.findings.filter (·.taskId = id)

/-- As long as a task is pending no final result of it was recorded, and
nothing that it found; once it is final there was one such result, and the
row and the findings say what that result says. -/
def Settled (es : List StoreEvent) (s : Store) (t : TaskRow) : Prop :=
  (t.status = .pending ∧ es.filter (·.isFinal t.id) = [] ∧ s.findingsOf t.id = []) ∨
    ∃ (held : Task) (r : TaskResult) (completedAt : Instant),
      t.status ≠ .pending ∧ es.filter (·.isFinal t.id) = [⟨.set held r completedAt, .done⟩] ∧
        (s.findingsOf t.id).map FindingRow.finding = r.findings ∧
        t.status = r.status ∧ t.comment = r.keptComment ∧
        t.durationMs = some (storedMillis r.duration) ∧ t.lintedAt = some completedAt.millis

/-- A pending row has no result, and no findings. -/
theorem isPending_or_of_settled {es : List StoreEvent} {s : Store} {t : TaskRow}
    (h : Settled es s t) (ht : t.status = .pending) :
    es.filter (·.isFinal t.id) = [] ∧ s.findingsOf t.id = [] := by
  rcases h with ⟨-, hes, hfindings⟩ | ⟨_, _, _, hfinal, -⟩
  · exact ⟨hes, hfindings⟩
  · exact absurd ht hfinal

/-- An event that records no final result of a task, and leaves its findings
alone, leaves it settled as it was, whatever the lease. -/
theorem Settled.of_quiet {es : List StoreEvent} {s s' : Store} {t : TaskRow} {e : StoreEvent}
    (h : Settled es s t) (he : e.isFinal t.id = false)
    (hfindings : (s'.findingsOf t.id).map FindingRow.finding =
      (s.findingsOf t.id).map FindingRow.finding) (lockedAt : Option Int) :
    Settled (es ++ [e]) s' { t with lockedAt } := by
  have hfilter : (es ++ [e]).filter (·.isFinal t.id) = es.filter (·.isFinal t.id) := by
    simp [List.filter_append, he]
  rcases h with ⟨ht, hes, hnone⟩ | ⟨held, r, completedAt, ht, hes, hfound, hrow⟩
  · refine .inl ⟨ht, hfilter.trans hes, ?_⟩
    rw [hnone, List.map_nil] at hfindings
    exact List.map_eq_nil_iff.mp hfindings
  · exact .inr ⟨held, r, completedAt, ht, hfilter.trans hes, hfindings.trans hfound, hrow⟩

/-! ## What a call does to the rows -/

/-- Rows of one name are one row. -/
theorem eq_of_id_eq {s : Store} (hkeyed : (s.tasks.map TaskRow.id).Nodup) {t u : TaskRow}
    (ht : t ∈ s.tasks) (hu : u ∈ s.tasks) (hid : t.id = u.id) : t = u :=
  List.inj_on_of_nodup_map hkeyed ht hu hid

/-- Names stay unique. -/
theorem Change.keyed {s s' : Store} {e : StoreEvent} (h : Change s e s')
    (hkeyed : (s.tasks.map TaskRow.id).Nodup) : (s'.tasks.map TaskRow.id).Nodup := by
  cases h with
  | added t now hid hprint =>
    rw [List.map_append, List.map_singleton]
    refine List.nodup_append.mpr ⟨hkeyed, List.nodup_singleton _, ?_⟩
    rintro _ ha _ hb rfl
    obtain ⟨u, hu, huid⟩ := List.mem_map.mp ha
    exact hid u hu (huid.trans (List.mem_singleton.mp hb))
  | taken horizon now u hnext =>
    have hids := map_id_updateTask s u.id fun t => (rfl : (t.lease now).id = t.id)
    exact hids ▸ hkeyed
  | recorded held r completedAt u hu hlease hr =>
    have hids := map_id_updateTask s held.id fun t => (rfl : (t.finish r completedAt).id = t.id)
    exact hids ▸ hkeyed
  | judged => exact hkeyed
  | registered c hc a s' htasks hfindings => rwa [htasks]
  | refused => exact hkeyed

/-- The rows of an updated store are what became of the rows before. -/
theorem becomes_updateTask {s : Store} {id : String} {f : TaskRow → TaskRow} {t : TaskRow}
    (ht : t ∈ s.tasks) (hf : t.id = id → t.Becomes (f t)) :
    ∃ u ∈ (s.updateTask id f).tasks, t.Becomes u := by
  by_cases hid : t.id = id
  · exact ⟨f t, mem_updateTask.mpr (.inl ⟨t, ht, hid, rfl⟩), hf hid⟩
  · exact ⟨t, mem_updateTask.mpr (.inr ⟨ht, hid⟩), .refl t⟩

/-- No call removes a row, or changes what must not change. -/
theorem Change.becomes {s s' : Store} {e : StoreEvent} (h : Change s e s')
    (hkeyed : (s.tasks.map TaskRow.id).Nodup) {t : TaskRow} (ht : t ∈ s.tasks) :
    ∃ u ∈ s'.tasks, t.Becomes u := by
  cases h with
  | added => exact ⟨t, List.mem_append_left _ ht, .refl t⟩
  | taken horizon now u hnext =>
    obtain ⟨hu, hclaim⟩ := mem_of_next? hnext
    refine becomes_updateTask ht fun hid => .lease ?_ now
    rw [eq_of_id_eq hkeyed ht hu hid]
    exact TaskRow.isPending_of_isClaimable hclaim
  | recorded held r completedAt u hu hlease hr =>
    refine becomes_updateTask (s := s) ht fun hid => .finish ?_ r completedAt
    rw [eq_of_id_eq hkeyed ht hu (hid.trans (TaskRow.id_of_isLeasedAs hlease).symm)]
    exact TaskRow.isPending_of_isLeasedAs hlease
  | judged => exact ⟨t, ht, .refl t⟩
  | registered c hc a s' htasks hfindings => exact ⟨t, htasks ▸ ht, .refl t⟩
  | refused => exact ⟨t, ht, .refl t⟩

/-- What is stored stays stored. -/
theorem Change.stored {s s' : Store} {e : StoreEvent} (h : Change s e s')
    (hkeyed : (s.tasks.map TaskRow.id).Nodup) {id : String} (hid : ∃ t ∈ s.tasks, t.id = id) :
    ∃ t ∈ s'.tasks, t.id = id := by
  obtain ⟨t, ht, rfl⟩ := hid
  obtain ⟨u, hu, hbecomes⟩ := h.becomes hkeyed ht
  exact ⟨u, hu, hbecomes.id_eq⟩

/-! ## The invariant -/

/-- The store and its history agree. -/
structure History (es : List StoreEvent) (s : Store) : Prop where
  keyed : (s.tasks.map TaskRow.id).Nodup
  settled : ∀ t ∈ s.tasks, Settled es s t
  coherent : ∀ t ∈ s.tasks, t.Coherent
  leased_iff : ∀ t ∈ s.tasks, t.lockedAt.isSome ↔ ∃ u ∈ leases es, u.id = t.id
  owned : ∀ r ∈ s.findings, ∃ t ∈ s.tasks, t.id = r.taskId
  recorded : ∀ e ∈ es, ∀ id, e.isFinal id = true → ∃ t ∈ s.tasks, t.id = id
  handedOut : ∀ u ∈ leases es, ∃ t ∈ s.tasks, t.id = u.id

/-- The history of an empty store is empty. -/
theorem history_empty : History [] empty where
  keyed := .nil
  settled := by simp [empty]
  coherent := by simp [empty]
  leased_iff := by simp [empty]
  owned := by simp [empty]
  recorded := by simp
  handedOut := by simp [leases]

/-- Final results still belong to tasks once a call has been made that did. -/
theorem History.recorded_concat {es : List StoreEvent} {s s' : Store} {e : StoreEvent}
    (h : History es s) (hchange : Change s e s')
    (he : ∀ id, e.isFinal id = true → ∃ t ∈ s.tasks, t.id = id) :
    ∀ d ∈ es ++ [e], ∀ id, d.isFinal id = true → ∃ t ∈ s'.tasks, t.id = id := by
  intro d hd id hfinal
  refine hchange.stored h.keyed ?_
  rcases List.mem_append.mp hd with hd | hd
  · exact h.recorded d hd id hfinal
  · rw [List.mem_singleton.mp hd] at hfinal
    exact he id hfinal

/-- A task of a new name is settled: nothing has been recorded of it. -/
theorem History.settled_fresh {es : List StoreEvent} {s s' : Store} (h : History es s)
    {e : StoreEvent} {t : Task} (he : e.isFinal t.id = false)
    (hfindings : (s'.findingsOf t.id).map FindingRow.finding =
      (s.findingsOf t.id).map FindingRow.finding)
    (hid : ∀ u ∈ s.tasks, u.id ≠ t.id) (now : Instant) :
    Settled (es ++ [e]) s' (TaskRow.fresh t now) := by
  refine .inl ⟨rfl, ?_, ?_⟩
  · refine List.filter_eq_nil_iff.mpr fun d hd hfinal => ?_
    rcases List.mem_append.mp hd with hd | hd
    · obtain ⟨u, hu, huid⟩ := h.recorded d hd t.id hfinal
      exact hid u hu huid
    · rw [List.mem_singleton.mp hd] at hfinal
      exact absurd (he.symm.trans hfinal) (by decide)
  · have hnone : s.findingsOf t.id = [] := by
      refine List.filter_eq_nil_iff.mpr fun r hr hrid => ?_
      obtain ⟨u, hu, huid⟩ := h.owned r hr
      exact hid u hu (huid.trans (of_decide_eq_true hrid))
    rw [hnone, List.map_nil] at hfindings
    exact List.map_eq_nil_iff.mp hfindings

/-- A call that neither takes a task nor records a result keeps the
invariant. -/
theorem History.of_quiet {es : List StoreEvent} {s s' : Store} {e : StoreEvent} (h : History es s)
    (hchange : Change s e s') (hfinal : ∀ id, e.isFinal id = false) (hlease : leases [e] = [])
    (hrows : ∀ v ∈ s'.tasks, v ∈ s.tasks ∨
      ∃ t now, v = TaskRow.fresh t now ∧ ∀ u ∈ s.tasks, u.id ≠ t.id)
    (hfindings : ∀ id, (s'.findingsOf id).map FindingRow.finding =
      (s.findingsOf id).map FindingRow.finding)
    (howned : ∀ r ∈ s'.findings, ∃ q ∈ s.findings, q.taskId = r.taskId) :
    History (es ++ [e]) s' := by
  have hleases : leases (es ++ [e]) = leases es := by rw [leases_append, hlease, List.append_nil]
  refine ⟨hchange.keyed h.keyed, ?_, ?_, ?_, ?_, ?_, ?_⟩
  · intro v hv
    rcases hrows v hv with hv | ⟨t, now, rfl, hid⟩
    · exact (h.settled v hv).of_quiet (hfinal v.id) (hfindings v.id) v.lockedAt
    · exact h.settled_fresh (hfinal t.id) (hfindings t.id) hid now
  · intro v hv
    rcases hrows v hv with hv | ⟨t, now, rfl, -⟩
    · exact h.coherent v hv
    · exact TaskRow.coherent_fresh t now
  · intro v hv
    rw [hleases]
    rcases hrows v hv with hv | ⟨t, now, rfl, hid⟩
    · exact h.leased_iff v hv
    · refine ⟨fun hsome => by simp [TaskRow.fresh] at hsome, ?_⟩
      rintro ⟨u, hu, huid⟩
      obtain ⟨w, hw, hwid⟩ := h.handedOut u hu
      exact absurd (hwid.trans huid) (hid w hw)
  · intro r hr
    obtain ⟨q, hq, hqid⟩ := howned r hr
    exact hchange.stored h.keyed (hqid ▸ h.owned q hq)
  · exact h.recorded_concat hchange fun id hid => absurd ((hfinal id).symm.trans hid) (by decide)
  · rw [hleases]
    exact fun u hu => hchange.stored h.keyed (h.handedOut u hu)

/-- Taking a task keeps the invariant. -/
theorem History.take {es : List StoreEvent} {s : Store} (h : History es s) {horizon now : Instant}
    {u : TaskRow} (hnext : s.next? horizon.millis = some u) :
    History (es ++ [⟨.tryTake horizon now, .task (u.lease now).read⟩])
      (s.updateTask u.id (·.lease now)) := by
  obtain ⟨hu, hclaim⟩ := mem_of_next? hnext
  have hchange := Change.taken (s := s) horizon now u hnext
  have hleases : leases (es ++ [⟨.tryTake horizon now, .task (u.lease now).read⟩]) =
      leases es ++ [(u.lease now).read] := by rw [leases_append]; rfl
  refine ⟨hchange.keyed h.keyed, ?_, ?_, ?_, ?_, ?_, ?_⟩
  · intro v hv
    rcases mem_updateTask.mp hv with ⟨t, ht, -, rfl⟩ | ⟨hv, -⟩
    · exact (h.settled t ht).of_quiet rfl rfl (some now.millis)
    · exact (h.settled v hv).of_quiet rfl rfl v.lockedAt
  · intro v hv
    rcases mem_updateTask.mp hv with ⟨t, ht, hid, rfl⟩ | ⟨hv, -⟩
    · rw [eq_of_id_eq h.keyed ht hu hid]
      exact .lease (TaskRow.isPending_of_isClaimable hclaim) now
    · exact h.coherent v hv
  · intro v hv
    rw [hleases]
    rcases mem_updateTask.mp hv with ⟨t, ht, hid, rfl⟩ | ⟨hv, hne⟩
    · exact ⟨fun _ => ⟨(u.lease now).read, by simp, hid.symm⟩, fun _ => rfl⟩
    · rw [h.leased_iff v hv]
      constructor
      · rintro ⟨w, hw, hwid⟩
        exact ⟨w, List.mem_append_left _ hw, hwid⟩
      · rintro ⟨w, hw, hwid⟩
        rcases List.mem_append.mp hw with hw | hw
        · exact ⟨w, hw, hwid⟩
        · rw [List.mem_singleton.mp hw] at hwid
          exact absurd hwid.symm hne
  · exact fun r hr => hchange.stored h.keyed (h.owned r hr)
  · exact h.recorded_concat hchange fun id hid => absurd hid (by simp [StoreEvent.isFinal])
  · rw [hleases]
    intro w hw
    rcases List.mem_append.mp hw with hw | hw
    · exact hchange.stored h.keyed (h.handedOut w hw)
    · rw [List.mem_singleton.mp hw]
      exact hchange.stored h.keyed ⟨u, hu, rfl⟩

/-- What a recorded result leaves of the findings of a task. -/
theorem findingsOf_recorded (s : Store) (held : Task) (r : TaskResult) (completedAt : Instant)
    (id : String) :
    { s.updateTask held.id (·.finish r completedAt) with
        findings := s.findings ++ r.findings.map (FindingRow.fresh held.id) }.findingsOf id =
      s.findingsOf id ++
        if held.id = id then r.findings.map (FindingRow.fresh held.id) else [] := by
  rw [findingsOf, List.filter_append, ← findingsOf]
  congr 1
  split
  · next hid =>
    refine List.filter_eq_self.mpr fun q hq => ?_
    obtain ⟨f, -, rfl⟩ := List.mem_map.mp hq
    exact decide_eq_true hid
  · next hid =>
    refine List.filter_eq_nil_iff.mpr fun q hq => ?_
    obtain ⟨f, -, rfl⟩ := List.mem_map.mp hq
    simp [FindingRow.fresh, hid]

/-- The task whose result is recorded is settled then. -/
theorem settled_recorded {es : List StoreEvent} {s : Store} {held : Task} {r : TaskResult}
    {completedAt : Instant} {t : TaskRow} (hsettled : Settled es s t)
    (hlease : t.isLeasedAs held = true) (hr : ¬(r.status = .pending ∧ r.findings ≠ [])) :
    Settled (es ++ [⟨.set held r completedAt, .done⟩])
      { s.updateTask held.id (·.finish r completedAt) with
        findings := s.findings ++ r.findings.map (FindingRow.fresh held.id) }
      (t.finish r completedAt) := by
  have hid : held.id = t.id := (TaskRow.id_of_isLeasedAs hlease).symm
  have hpending := TaskRow.isPending_of_isLeasedAs hlease
  obtain ⟨hes, hnone⟩ := isPending_or_of_settled hsettled hpending
  have hrow : (t.finish r completedAt).id = t.id := rfl
  rw [Settled, hrow, findingsOf_recorded, hnone, if_pos hid, List.nil_append, List.filter_append,
    hes, List.nil_append]
  by_cases hstatus : r.status = .pending
  · have hempty : r.findings = [] := by
      by_contra hne
      exact hr ⟨hstatus, hne⟩
    refine .inl ⟨hstatus, ?_, by rw [hempty, List.map_nil]⟩
    simp [StoreEvent.isFinal, TaskStatus.isFinal, hstatus]
  · refine .inr ⟨held, r, completedAt, hstatus, ?_, ?_, rfl, rfl, rfl, rfl⟩
    · simp [StoreEvent.isFinal, TaskStatus.isFinal, hstatus, hid]
    · rw [List.map_map]
      exact List.map_id _

/-- Recording a result keeps the invariant. -/
theorem History.record {es : List StoreEvent} {s : Store} (h : History es s) {held : Task}
    {r : TaskResult} {completedAt : Instant} {u : TaskRow} (hu : u ∈ s.tasks)
    (hlease : u.isLeasedAs held = true) (hr : ¬(r.status = .pending ∧ r.findings ≠ [])) :
    History (es ++ [⟨.set held r completedAt, .done⟩])
      { s.updateTask held.id (·.finish r completedAt) with
        findings := s.findings ++ r.findings.map (FindingRow.fresh held.id) } := by
  have hchange := Change.recorded (s := s) held r completedAt u hu hlease hr
  have hid := TaskRow.id_of_isLeasedAs hlease
  have hleases : leases (es ++ [⟨.set held r completedAt, .done⟩]) = leases es := by
    rw [leases_append]
    exact List.append_nil _
  have hheld : ∀ t ∈ s.tasks, t.id = held.id → t = u := fun t ht htid =>
    eq_of_id_eq h.keyed ht hu (htid.trans hid.symm)
  refine ⟨hchange.keyed h.keyed, ?_, ?_, ?_, ?_, ?_, ?_⟩
  · intro v hv
    rcases mem_updateTask.mp hv with ⟨t, ht, htid, rfl⟩ | ⟨hv, hne⟩
    · rw [hheld t ht htid]
      exact settled_recorded (h.settled u hu) hlease hr
    · refine (h.settled v hv).of_quiet ?_ ?_ v.lockedAt
      · simp [StoreEvent.isFinal, Ne.symm hne]
      · rw [findingsOf_recorded, if_neg (Ne.symm hne), List.append_nil]
  · intro v hv
    rcases mem_updateTask.mp hv with ⟨t, ht, htid, rfl⟩ | ⟨hv, -⟩
    · rw [hheld t ht htid]
      exact .finish hlease r completedAt
    · exact h.coherent v hv
  · intro v hv
    rw [hleases]
    rcases mem_updateTask.mp hv with ⟨t, ht, -, rfl⟩ | ⟨hv, -⟩
    · exact h.leased_iff t ht
    · exact h.leased_iff v hv
  · intro q hq
    refine hchange.stored h.keyed ?_
    rcases List.mem_append.mp hq with hq | hq
    · exact h.owned q hq
    · obtain ⟨f, -, rfl⟩ := List.mem_map.mp hq
      exact ⟨u, hu, hid⟩
  · refine h.recorded_concat hchange fun id hfinal => ⟨u, hu, hid.trans ?_⟩
    simp only [StoreEvent.isFinal, Bool.and_eq_true, decide_eq_true_eq] at hfinal
    exact hfinal.1
  · rw [hleases]
    exact fun w hw => hchange.stored h.keyed (h.handedOut w hw)

/-- Verdicts change nothing that was found. -/
theorem findingsOf_judged (s : Store) (taskId path : String) (startLine endLine : UInt64)
    (m : Moderation) (id : String) :
    ({ s with
        findings := s.findings.map fun r : FindingRow =>
          if r.isAt taskId path startLine endLine then r.judge m else r }.findingsOf id).map
        FindingRow.finding = (s.findingsOf id).map FindingRow.finding := by
  rw [findingsOf, List.filter_map, List.map_map, findingsOf]
  have hfilter : s.findings.filter ((fun r : FindingRow => decide (r.taskId = id)) ∘
      fun r : FindingRow => if r.isAt taskId path startLine endLine then r.judge m else r) =
      s.findings.filter (·.taskId = id) := by
    refine List.filter_congr fun r _ => ?_
    simp only [Function.comp_apply]
    split <;> rfl
  rw [hfilter]
  refine List.map_congr_left fun r _ => ?_
  simp only [Function.comp_apply]
  split <;> rfl

/-- Every call keeps the invariant. -/
theorem History.step {es : List StoreEvent} {s s' : Store} {e : StoreEvent} (h : History es s)
    (hchange : Change s e s') : History (es ++ [e]) s' := by
  cases hchange with
  | taken horizon now u hnext => exact h.take hnext
  | recorded held r completedAt u hu hlease hr => exact h.record hu hlease hr
  | added t now hid hprint =>
    refine h.of_quiet (.added t now hid hprint) (fun _ => rfl) rfl ?_ (fun _ => rfl)
      fun r hr => ⟨r, hr, rfl⟩
    intro v hv
    rcases List.mem_append.mp hv with hv | hv
    · exact .inl hv
    · exact .inr ⟨t, now, List.mem_singleton.mp hv, hid⟩
  | judged taskId path startLine endLine m n =>
    refine h.of_quiet (.judged taskId path startLine endLine m n) (fun _ => rfl) rfl
      (fun v hv => .inl hv) (findingsOf_judged s taskId path startLine endLine m) ?_
    intro r hr
    obtain ⟨q, hq, rfl⟩ := List.mem_map.mp hr
    refine ⟨q, hq, ?_⟩
    split <;> rfl
  | registered c hc a s' htasks hfindings =>
    have hquiet : (∀ id, StoreEvent.isFinal id ⟨c, a⟩ = false) ∧ leases [⟨c, a⟩] = [] := by
      cases c <;> first | exact ⟨fun _ => rfl, rfl⟩ | contradiction
    refine h.of_quiet (.registered c hc a s' htasks hfindings) hquiet.1 hquiet.2
      (fun v hv => .inl (htasks ▸ hv)) (fun id => ?_) fun r hr => ⟨r, hfindings ▸ hr, rfl⟩
    rw [findingsOf, hfindings, ← findingsOf]
  | refused c e =>
    have hquiet : (∀ id, StoreEvent.isFinal id ⟨c, .refused e⟩ = false) ∧
        leases [⟨c, .refused e⟩] = [] := by
      cases c <;> exact ⟨fun _ => rfl, rfl⟩
    exact h.of_quiet (.refused c e) hquiet.1 hquiet.2 (fun v hv => .inl hv) (fun _ => rfl)
      fun r hr => ⟨r, hr, rfl⟩

/-! ## Runs -/

/-- Whatever is called, the store and its history agree. -/
theorem history_after (cs : List StoreCall) : History (empty.events cs) (empty.after cs) := by
  induction cs using List.reverseRecOn with
  | nil => exact history_empty
  | append_singleton cs c ih =>
    rw [after_concat, events_concat]
    exact ih.step (change_perform _ c)

/-- Whatever is called, rows only become what they may. -/
theorem becomes_after {s : Store} (hkeyed : (s.tasks.map TaskRow.id).Nodup) {t : TaskRow}
    (ht : t ∈ s.tasks) (cs : List StoreCall) : ∃ u ∈ (s.after cs).tasks, t.Becomes u := by
  induction cs generalizing s t with
  | nil => exact ⟨t, ht, .refl t⟩
  | cons c cs ih =>
    have hchange := s.change_perform c
    obtain ⟨u, hu, htu⟩ := hchange.becomes hkeyed ht
    obtain ⟨v, hv, huv⟩ := ih (hchange.keyed hkeyed) hu
    exact ⟨v, hv, htu.trans huv⟩

/-- **Results are final**, whatever is called in whatever order.  In a store
that calls have led to, names are unique and findings belong to stored tasks;
whatever is called later, no row is gone, and what may not change has not
changed; and every task is settled, has columns that fit its status, and has
a lease exactly if it was handed out. -/
theorem results_final (cs ds : List StoreCall) :
    let s := empty.after cs
    let s' := empty.after (cs ++ ds)
    let es := empty.events cs
    (s.tasks.map TaskRow.id).Nodup ∧
      (∀ r ∈ s.findings, ∃ t ∈ s.tasks, t.id = r.taskId) ∧
      ∀ t ∈ s.tasks,
        (∃ u ∈ s'.tasks, t.Becomes u) ∧ Settled es s t ∧ t.Coherent ∧
          (t.lockedAt.isSome ↔ ∃ u ∈ leases es, u.id = t.id) := by
  intro s s' es
  have h : History es s := history_after cs
  refine ⟨h.keyed, h.owned, fun t ht => ⟨?_, h.settled t ht, h.coherent t ht, h.leased_iff t ht⟩⟩
  have hlater := becomes_after h.keyed ht ds
  rwa [← after_append] at hlater

end Store

end LintPatrol
