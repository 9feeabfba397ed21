import LintPatrol.Proofs.Store.Finality
import LintPatrol.Proofs.Store.Lease
import LintPatrol.Proofs.Store.Order
import LintPatrol.Proofs.Time.Shift

/-!
# LintPatrol.Proofs.Store.Drain

Takes that go on until nothing is left.  `Store.due` are the tasks that can be
taken, in the order of tasks; each take hands out the first of them and leaves
the others due (`Due.take`), so that any number of takes hand out that list from
its beginning and are then refused (`Due.drain`), whoever makes them.

A lease is kept by everything but the next take of its task (`lock_after`), and
so a task can be taken again as soon as the lease is as old as leases get
(`TaskRow.claimable_iff_of_before?`).  `queue_drains` puts this together.
-/

namespace LintPatrol

open Time

/-! ## Tasks that are due -/

namespace TaskRow

/-- Tasks that precede each other have the same name. -/
theorem Precedes.id_eq {t u : TaskRow} (h : t.Precedes u) (h' : u.Precedes t) : t.id = u.id := by
  rcases h with h | ⟨htime, hid⟩ <;> rcases h' with h' | ⟨htime', hid'⟩
  · omega
  · omega
  · omega
  · exact String.le_antisymm hid hid'

/-- Of two tasks one precedes the other. -/
theorem Precedes.total (t u : TaskRow) : t.Precedes u ∨ u.Precedes t := by
  cases h : u.isBefore t with
  | false => exact .inl (isBefore_eq_false_iff.mp h)
  | true => exact .inr (precedes_of_isBefore h)

/-- A task that has just been taken cannot be taken. -/
theorem not_claimable_lease {horizon : Int} {now : Instant} (h : horizon < now.millis)
    (t : TaskRow) : ¬(t.lease now).Claimable horizon := by
  intro hclaim
  have hle : now.millis ≤ horizon := hclaim.unlocked now.millis rfl
  omega

/-- The row of a task if tasks of those names have been taken at those times. -/
def lent (handed : List (String × Instant)) (t : TaskRow) : TaskRow :=
  match handed.lookup t.id with
  | some now => t.lease now
  | none => t

end TaskRow

namespace Store

/-- The tasks that can be taken, in the order of tasks. -/
def due (s : Store) (horizon : Int) : List TaskRow :=
  (s.tasks.filter (·.isClaimable horizon)).mergeSort fun t u => !u.isBefore t

/-- The tasks are those that can be taken, each of them once, in the order of
tasks. -/
structure Due (s : Store) (horizon : Int) (ts : List TaskRow) : Prop where
  mem_iff : ∀ t, t ∈ ts ↔ t ∈ s.tasks ∧ t.Claimable horizon
  nodup : (ts.map TaskRow.id).Nodup
  sorted : ts.Pairwise TaskRow.Precedes

variable {s : Store} {horizon : Int} {t : TaskRow} {ts : List TaskRow}

/-- The sorted list of tasks that can be taken is what is due. -/
theorem due_due (hkeyed : (s.tasks.map TaskRow.id).Nodup) (horizon : Int) :
    s.Due horizon (s.due horizon) where
  mem_iff t := by
    rw [due, List.mem_mergeSort, List.mem_filter, TaskRow.isClaimable_iff]
  nodup := by
    have hperm := (List.mergeSort_perm (s.tasks.filter (·.isClaimable horizon))
      fun t u => !u.isBefore t).map TaskRow.id
    exact hperm.nodup_iff.mpr (hkeyed.sublist (List.filter_sublist.map _))
  sorted := by
    have hle : ∀ t u : TaskRow, (!u.isBefore t) = true ↔ t.Precedes u := fun t u => by
      rw [Bool.not_eq_true', TaskRow.isBefore_eq_false_iff]
    have hsorted : (s.due horizon).Pairwise fun t u => (!u.isBefore t) = true := by
      refine List.pairwise_mergeSort (fun t u v h h' => ?_) (fun t u => ?_) _
      · exact (hle t v).mpr (((hle t u).mp h).trans ((hle u v).mp h'))
      · rw [Bool.or_eq_true, hle, hle]
        exact TaskRow.Precedes.total t u
    exact hsorted.imp fun h => (hle _ _).mp h

/-- Where nothing is due nothing is taken. -/
theorem Due.next?_eq_none (h : s.Due horizon []) : s.next? horizon = none :=
  next?_eq_none_iff.mpr fun t ht hclaim => List.not_mem_nil ((h.mem_iff t).mpr ⟨ht, hclaim⟩)

/-- The first task that is due is taken next. -/
theorem Due.next?_eq_some (hkeyed : (s.tasks.map TaskRow.id).Nodup) (h : s.Due horizon (t :: ts)) :
    s.next? horizon = some t := by
  obtain ⟨ht, hclaim⟩ := (h.mem_iff t).mp List.mem_cons_self
  cases hnext : s.next? horizon with
  | none => exact absurd hclaim (next?_eq_none_iff.mp hnext t ht)
  | some u =>
    obtain ⟨hu, huclaim, hfirst⟩ := next?_first hnext
    rcases List.mem_cons.mp ((h.mem_iff u).mpr ⟨hu, huclaim⟩) with rfl | htail
    · rfl
    · have hfront : t.Precedes u := List.rel_of_pairwise_cons h.sorted htail
      rw [eq_of_id_eq hkeyed hu ht ((hfirst t ht hclaim).id_eq hfront)]

/-- Where nothing is due a take is refused. -/
theorem Due.refuse {horizon : Instant} (h : s.Due horizon.millis []) (now : Instant) :
    (StoreCall.tryTake horizon now).perform s = (.refused .noTasksAvailable, s) := by
  rw [StoreCall.perform, tryTake, h.next?_eq_none]
  rfl

/-- A take hands out the first task that is due. -/
theorem Due.handOut {horizon : Instant} (hkeyed : (s.tasks.map TaskRow.id).Nodup)
    (h : s.Due horizon.millis (t :: ts)) (now : Instant) :
    (StoreCall.tryTake horizon now).perform s =
      (.task (t.lease now).read, s.updateTask t.id (·.lease now)) := by
  rw [StoreCall.perform, tryTake, h.next?_eq_some hkeyed]
  rfl

/-- **Once the first task has been taken the others are due.** -/
theorem Due.take (h : s.Due horizon (t :: ts)) {now : Instant} (hlater : horizon < now.millis) :
    (s.updateTask t.id (·.lease now)).Due horizon ts := by
  have hnodup := List.nodup_cons.mp h.nodup
  refine ⟨fun u => ?_, hnodup.2, (List.pairwise_cons.mp h.sorted).2⟩
  rw [mem_updateTask]
  constructor
  · intro hu
    obtain ⟨hstored, hclaim⟩ := (h.mem_iff u).mp (List.mem_cons_of_mem t hu)
    have hne : u.id ≠ t.id := fun hid => hnodup.1 (hid ▸ List.mem_map_of_mem hu)
    exact ⟨.inr ⟨hstored, hne⟩, hclaim⟩
  · rintro ⟨⟨v, -, -, rfl⟩ | ⟨hu, hne⟩, hclaim⟩
    · exact absurd hclaim (TaskRow.not_claimable_lease hlater v)
    · rcases List.mem_cons.mp ((h.mem_iff u).mpr ⟨hu, hclaim⟩) with rfl | htail
      · exact absurd rfl hne
      · exact htail

/-! ## Draining -/

/-- The answers to takes at some times if those tasks are due: the tasks from the
first on, as far as they go, and then refusals. -/
def handedOut (ts : List TaskRow) (nows : List Instant) : List StoreAnswer :=
  ts.zipWith (fun t now => .task (t.lease now).read) nows ++
    List.replicate (nows.length - ts.length) (.refused .noTasksAvailable)

/-- The store once tasks of those names have been taken at those times. -/
def lend (handed : List (String × Instant)) (s : Store) : Store :=
  { s with tasks := s.tasks.map (TaskRow.lent handed) }

theorem lend_nil (s : Store) : s.lend [] = s := by
  have hmap : s.tasks.map (TaskRow.lent []) = s.tasks := List.map_id s.tasks
  rw [lend, hmap]

/-- Tasks are taken one after the other, if all have different names. -/
theorem lend_cons {id : String} {handed : List (String × Instant)}
    (h : id ∉ handed.map Prod.fst) (now : Instant) (s : Store) :
    (s.updateTask id (·.lease now)).lend handed = s.lend ((id, now) :: handed) := by
  have hnone : handed.lookup id = none := by
    refine List.lookup_eq_none_iff.mpr fun p hp => ?_
    simpa using fun hid : id = p.1 => h (hid ▸ List.mem_map_of_mem hp)
  have hrow : ∀ t : TaskRow, TaskRow.lent handed (if t.id = id then t.lease now else t) =
      t.lent ((id, now) :: handed) := by
    intro t
    by_cases hid : t.id = id
    · have hlease : (t.lease now).id = id := hid
      rw [if_pos hid, TaskRow.lent, TaskRow.lent, hlease, hnone, hid, List.lookup_cons_self]
    · have hbeq : (t.id == id) = false := by simpa using hid
      simp only [TaskRow.lent, if_neg hid, List.lookup_cons, hbeq]
  simp only [lend, updateTask, List.map_map, Function.comp_def, hrow]

/-- Takes at some times with one horizon. -/
def takes (horizon : Instant) (nows : List Instant) : List StoreCall :=
  nows.map (StoreCall.tryTake horizon)

/-- Once nothing is due all takes are refused. -/
theorem Due.refuse_all {horizon : Instant} (h : s.Due horizon.millis []) (nows : List Instant) :
    (s.events (takes horizon nows)).map StoreEvent.answer = handedOut [] nows ∧
      s.after (takes horizon nows) = s := by
  induction nows with
  | nil => exact ⟨rfl, rfl⟩
  | cons now nows ih =>
    simp only [takes, List.map_cons, events, after, h.refuse now] at ih ⊢
    refine ⟨?_, ih.2⟩
    rw [ih.1]
    rfl

/-- **Takes hand out what is due**, from the first task on, and change nothing
but the leases of what they hand out. -/
theorem Due.drain {horizon : Instant} (h : s.Due horizon.millis ts)
    (hkeyed : (s.tasks.map TaskRow.id).Nodup) {nows : List Instant}
    (hlater : ∀ now ∈ nows, horizon.millis < now.millis) :
    (s.events (takes horizon nows)).map StoreEvent.answer = handedOut ts nows ∧
      s.after (takes horizon nows) = s.lend ((ts.map TaskRow.id).zip nows) := by
  induction nows generalizing s ts with
  | nil =>
    rw [List.zip_nil_right, lend_nil]
    exact ⟨by simp [takes, handedOut], rfl⟩
  | cons now nows ih =>
    cases ts with
    | nil =>
      rw [List.map_nil, List.zip_nil_left, lend_nil]
      exact h.refuse_all (now :: nows)
    | cons t ts =>
      obtain ⟨hnow, hnows⟩ := List.forall_mem_cons.mp hlater
      have hkept := (change_perform s (.tryTake horizon now)).keyed hkeyed
      rw [h.handOut hkeyed now] at hkept
      obtain ⟨hanswers, hafter⟩ := ih (h.take hnow) hkept hnows
      have hfresh : t.id ∉ ((ts.map TaskRow.id).zip nows).map Prod.fst := by
        intro hmem
        obtain ⟨⟨id, later⟩, hp, rfl⟩ := List.mem_map.mp hmem
        exact (List.nodup_cons.mp h.nodup).1 (List.of_mem_zip hp).1
      simp only [takes, List.map_cons, events, after, h.handOut hkeyed now] at hanswers hafter ⊢
      refine ⟨?_, ?_⟩
      · rw [hanswers]
        simp [handedOut]
      · rw [hafter, lend_cons hfresh now s]
        rfl

/-! ## Leases that end -/

/-- Whatever calls do, there stays one row of each task. -/
theorem keyed_after (hkeyed : (s.tasks.map TaskRow.id).Nodup) (ds : List StoreCall) :
    ((s.after ds).tasks.map TaskRow.id).Nodup := by
  induction ds generalizing s with
  | nil => exact hkeyed
  | cons d ds ih => exact ih ((change_perform s d).keyed hkeyed)

/-- All that is done to a task, except that it is taken again, keeps its lease. -/
theorem Change.lock_kept {s' : Store} {e : StoreEvent} (h : Change s e s') (ht : t ∈ s.tasks)
    (huntaken : ∀ x ∈ leases [e], x.id ≠ t.id) :
    ∃ u ∈ s'.tasks, u.id = t.id ∧ u.lockedAt = t.lockedAt := by
  cases h with
  | added => exact ⟨t, List.mem_append_left _ ht, rfl, rfl⟩
  | taken horizon now u hnext =>
    have hne : u.id ≠ t.id := huntaken (u.lease now).read List.mem_cons_self
    exact ⟨t, mem_updateTask.mpr (.inr ⟨ht, hne.symm⟩), rfl, rfl⟩
  | recorded held r completedAt u hu hlease hr =>
    by_cases hid : t.id = held.id
    · exact ⟨_, mem_updateTask.mpr (.inl ⟨t, ht, hid, rfl⟩), rfl, rfl⟩
    · exact ⟨t, mem_updateTask.mpr (.inr ⟨ht, hid⟩), rfl, rfl⟩
  | judged => exact ⟨t, ht, rfl, rfl⟩
  | registered c hc a s' htasks hfindings => exact ⟨t, htasks ▸ ht, rfl, rfl⟩
  | refused => exact ⟨t, ht, rfl, rfl⟩

/-- A task that has just been taken has its lease. -/
theorem row_of_taken {horizon takenAt : Instant} {x : Task}
    (h : ((StoreCall.tryTake horizon takenAt).perform s).1 = .task x) :
    ∃ u ∈ ((StoreCall.tryTake horizon takenAt).perform s).2.tasks,
      u.id = x.id ∧ u.lockedAt = some takenAt.millis := by
  have hchange := change_perform s (.tryTake horizon takenAt)
  rw [h] at hchange
  generalize ((StoreCall.tryTake horizon takenAt).perform s).2 = s' at hchange
  cases hchange with
  | taken _ _ u hnext =>
    obtain ⟨hu, -⟩ := mem_of_next? hnext
    exact ⟨u.lease takenAt, mem_updateTask.mpr (.inl ⟨u, hu, rfl, rfl⟩), rfl, rfl⟩
  | registered _ hc => cases hc

/-- **A lease is kept until its task is taken again**, whatever is done in
between. -/
theorem lock_after (ds : List StoreCall) (ht : t ∈ s.tasks)
    (huntaken : ∀ x ∈ leases (s.events ds), x.id ≠ t.id) :
    ∃ u ∈ (s.after ds).tasks, u.id = t.id ∧ u.lockedAt = t.lockedAt := by
  induction ds generalizing s t with
  | nil => exact ⟨t, ht, rfl, rfl⟩
  | cons d ds ih =>
    rw [events, ← List.singleton_append, leases_append] at huntaken
    obtain ⟨u, hu, hid, hlock⟩ := (change_perform s d).lock_kept ht fun x hx =>
      huntaken x (List.mem_append_left _ hx)
    obtain ⟨v, hv, hvid, hvlock⟩ := ih hu fun x hx =>
      hid ▸ huntaken x (List.mem_append_right _ hx)
    exact ⟨v, hv, hvid.trans hid, hvlock.trans hlock⟩

end Store

/-- A task that is pending can be taken as soon as its lease has lasted. -/
theorem TaskRow.claimable_iff_of_before? {t : TaskRow} {stamp : Int}
    (hpending : t.status = .pending) (hlock : t.lockedAt = some stamp) {now horizon : Instant}
    {lock : Duration} (hhorizon : now.before? lock = some horizon) :
    t.Claimable horizon.millis ↔ stamp * nanosPerMilli + lock.nanos ≤ now.sinceEpoch := by
  have hclaimable : t.Claimable horizon.millis ↔ stamp ≤ horizon.millis :=
    ⟨fun h => h.unlocked stamp hlock, fun h => ⟨hpending, fun l hl => by
      rw [hlock] at hl
      cases hl
      exact h⟩⟩
  rw [hclaimable, Instant.millis_eq_div, Instant.sinceEpoch_of_before? hhorizon,
    Int.le_ediv_iff_mul_le (by decide)]
  omega

namespace Store

/-- **The queue is drained in order**, whatever tasks there are.  Takes with one
horizon that lies before them hand out the tasks that are pending and under no
lease beyond the horizon, each of them once and in the order of tasks, and are
refused from then on; nothing changes but the leases of what they hand out.  So a
task that was taken, whatever has been done since but taking it again, is taken
over just by takes that come no earlier than the lease lasts. -/
theorem queue_drains {s : Store} (hkeyed : (s.tasks.map TaskRow.id).Nodup) :
    (∀ (horizon : Instant) (nows : List Instant), (∀ now ∈ nows, horizon.millis < now.millis) →
        let due := s.due horizon.millis
        (∀ t, t ∈ due ↔ t ∈ s.tasks ∧ t.Claimable horizon.millis) ∧
          (due.map TaskRow.id).Nodup ∧ due.Pairwise TaskRow.Precedes ∧
          (s.events (takes horizon nows)).map StoreEvent.answer = handedOut due nows ∧
          s.after (takes horizon nows) = s.lend ((due.map TaskRow.id).zip nows)) ∧
      ∀ (horizon₀ takenAt : Instant) (t : Task) (ds : List StoreCall),
        let taken := (StoreCall.tryTake horizon₀ takenAt).perform s
        let s' := taken.2.after ds
        taken.1 = .task t → (∀ x ∈ leases (taken.2.events ds), x.id ≠ t.id) →
          ∃ u ∈ s'.tasks, (∀ v ∈ s'.tasks, v.id = t.id ↔ v = u) ∧
            (u.status = .pending → ∀ (now horizon : Instant) (lock : Duration),
              now.before? lock = some horizon →
                (u.Claimable horizon.millis ↔
                  takenAt.millis * nanosPerMilli + lock.nanos ≤ now.sinceEpoch)) := by
  constructor
  · intro horizon nows hlater
    have hdue := due_due hkeyed horizon.millis
    exact ⟨hdue.mem_iff, hdue.nodup, hdue.sorted, hdue.drain hkeyed hlater⟩
  · intro horizon₀ takenAt t ds taken s' htaken huntaken
    have hkeyed' : (s'.tasks.map TaskRow.id).Nodup :=
      keyed_after ((change_perform s _).keyed hkeyed) ds
    obtain ⟨row, hrow, hid, hlock⟩ : ∃ row ∈ taken.2.tasks, row.id = t.id ∧
        row.lockedAt = some takenAt.millis := row_of_taken htaken
    obtain ⟨u, hu, huid, hulock⟩ := lock_after ds hrow fun x hx => hid ▸ huntaken x hx
    refine ⟨u, hu, fun v hv => ⟨fun hvid => ?_, fun hvu => hvu ▸ huid.trans hid⟩, ?_⟩
    · exact eq_of_id_eq hkeyed' hv hu (hvid.trans (huid.trans hid).symm)
    · intro hpending now horizon lock hhorizon
      exact TaskRow.claimable_iff_of_before? hpending (hulock.trans hlock) hhorizon

def drainTask (id : String) : Task :=
  Task.fresh id ⟨"l", "image", "digest"⟩ ⟨"r", "url", id⟩ .epoch

/-- Three tasks, the last of which is the oldest. -/
def drainAdds : List StoreCall :=
  [.tryAdd (drainTask "b") (.ofMillis 5), .tryAdd (drainTask "a") (.ofMillis 5),
    .tryAdd (drainTask "c") (.ofMillis 3)]

/-- The oldest task as it is taken. -/
def drainHeld : Task := ((TaskRow.fresh (drainTask "c") (.ofMillis 3)).lease (.ofMillis 10)).read

/-- Its run fails for the time being. -/
def drainRetry : List StoreCall :=
  [.set drainHeld ⟨.pending, some "no network", .zero, []⟩ (.ofMillis 20)]

/-- The oldest task is to be run again.  Four workers take the three tasks once
its lease has ended, and the lease ends when the time is over since it was
taken. -/
theorem queue_drains_retry :
    let s := empty.after (drainAdds ++ .tryTake .epoch (.ofMillis 10) :: drainRetry)
    let nows : List Instant := [.ofMillis 70, .ofMillis 70, .ofMillis 71, .ofMillis 80]
    (s.tasks.map TaskRow.id).Nodup ∧ (∀ now ∈ nows, (Instant.ofMillis 10).millis < now.millis) ∧
      (handedOut (s.due (Instant.ofMillis 10).millis) nows).map
          (fun
            | .task t => some (t.id, t.stamp)
            | _ => none) =
        [some ("c", some 70), some ("a", some 70), some ("b", some 71), none] ∧
      ∃ u ∈ s.tasks, u.id = "c" ∧ u.status = .pending ∧
        ∀ (now horizon : Instant) (lock : Duration), now.before? lock = some horizon →
          (u.Claimable horizon.millis ↔ 10 * nanosPerMilli + lock.nanos ≤ now.sinceEpoch) := by
  intro s nows
  have hlater : ∀ now ∈ nows, (Instant.ofMillis 10).millis < now.millis := by decide
  have hkeyed : (s.tasks.map TaskRow.id).Nodup := by decide
  have hadded : ((empty.after drainAdds).tasks.map TaskRow.id).Nodup := by decide
  obtain ⟨-, -, -, hanswers, -⟩ := (queue_drains hkeyed).1 (.ofMillis 10) nows hlater
  obtain ⟨u, hu, hrow, hclaimable⟩ := (queue_drains hadded).2 .epoch (.ofMillis 10) drainHeld
    drainRetry rfl (by decide)
  have hid : u.id = "c" := (hrow u hu).mpr rfl
  have hpending : u.status = .pending := by
    have hall : ∀ v ∈ s.tasks, v.status = .pending := by decide
    exact hall u hu
  refine ⟨hkeyed, hlater, ?_, u, hu, hid, hpending, hclaimable hpending⟩
  rw [← hanswers]
  rfl

end Store

end LintPatrol
