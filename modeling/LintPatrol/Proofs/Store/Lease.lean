import Mathlib.Data.List.Induction
import LintPatrol.Proofs.Store.History
import LintPatrol.Proofs.Time.Millis

/-!
# LintPatrol.Proofs.Store.Lease

A lease is nothing but the time at which a task was taken: it is compared for
equality when a result is recorded, and with a horizon when a task is taken
over.  So who holds a task is only safe if no two leases of it begin at the
same millisecond.  That is so in every run in which horizons lie before the
time at which they are used, whatever the clocks of the callers show:

* the leases of one task begin strictly later and later, since a task is
  taken over only when its lease does not lie beyond the horizon;
* a result recorded under any lease but the latest one is refused, and
  nothing changes.

`Leased` is the invariant: the row of every task carries the beginning of its
latest lease, and no lease has been forgotten.
-/

namespace LintPatrol

open Time

/-! ## Leases -/

/-- When the lease began, in milliseconds. -/
def Task.stamp (t : Task) : Option Int := t.lockedAt.map Instant.millis

/-- The lease began before the other one. -/
def Task.LeasedBefore (a b : Task) : Prop :=
  ∃ m n, a.stamp = some m ∧ b.stamp = some n ∧ m < n

/-- The tasks that were handed out, each with its lease, in order. -/
def leases (es : List StoreEvent) : List Task :=
  es.filterMap fun e =>
    match e.call, e.answer with
    | .tryTake .., .task t => some t
    | _, _ => none

def latestLease? (id : String) (ts : List Task) : Option Task := ts.reverse.find? (·.id = id)

/-- The latest lease of a task is the one that was given last. -/
theorem latestLease?_concat (id : String) (ts : List Task) (t : Task) :
    latestLease? id (ts ++ [t]) = if t.id = id then some t else latestLease? id ts := by
  by_cases h : t.id = id <;> simp [latestLease?, h]

/-- No lease begins before an earlier one of the same task. -/
def Increasing (ts : List Task) : Prop := ts.Pairwise fun a b => a.id = b.id → a.LeasedBefore b

/-- Every lease is the latest one of its task, or one that began before. -/
theorem Increasing.latestLease? {ts : List Task} (h : Increasing ts) {a : Task} (ha : a ∈ ts) :
    ∃ b ∈ ts, latestLease? a.id ts = some b ∧ b.id = a.id ∧ (a = b ∨ a.LeasedBefore b) := by
  induction ts using List.reverseRecOn with
  | nil => contradiction
  | append_singleton ts t ih =>
    obtain ⟨hts, -, hlast⟩ := List.pairwise_append.mp h
    rw [latestLease?_concat]
    by_cases hid : t.id = a.id
    · rw [if_pos hid]
      refine ⟨t, by simp, rfl, hid, ?_⟩
      rcases List.mem_append.mp ha with ha | ha
      · exact .inr (hlast a ha t (by simp) hid.symm)
      · exact .inl (List.mem_singleton.mp ha)
    · rw [if_neg hid]
      have ha' : a ∈ ts := by
        rcases List.mem_append.mp ha with ha | ha
        · exact ha
        · exact absurd (congrArg Task.id (List.mem_singleton.mp ha)).symm hid
      obtain ⟨b, hb, hlatest⟩ := ih hts ha'
      exact ⟨b, by simp [hb], hlatest⟩

/-- Leases that begin later and later differ in their task or their time. -/
theorem Increasing.nodup {ts : List Task} (h : Increasing ts) :
    (ts.map fun t => (t.id, t.lockedAt)).Nodup := by
  refine List.pairwise_map.mpr (List.Pairwise.imp ?_ h)
  intro a b hab heq
  obtain ⟨m, n, hm, hn, hlt⟩ := hab (congrArg Prod.fst heq)
  have hlocked : a.lockedAt = b.lockedAt := congrArg Prod.snd heq
  rw [Task.stamp, hlocked, ← Task.stamp, hn] at hm
  cases hm
  exact Int.lt_irrefl _ hlt

namespace Store

/-! ## The invariant -/

/-- The store after tasks were handed out: the rows say what the latest leases
are. -/
structure Leased (ts : List Task) (s : Store) : Prop where
  lockedAt_eq : ∀ u ∈ s.tasks, u.lockedAt = (latestLease? u.id ts).bind Task.stamp
  stored : ∀ t ∈ ts, ∃ u ∈ s.tasks, u.id = t.id
  stamped : ∀ t ∈ ts, ∃ m, t.stamp = some m
  increasing : Increasing ts

/-- An empty store has leased nothing. -/
theorem leased_empty : Leased [] empty where
  lockedAt_eq := by simp [empty]
  stored := by simp
  stamped := by simp
  increasing := .nil

/-- The task that is handed out has the name of its row, and a lease from now
on. -/
theorem stamp_read_lease (u : TaskRow) (now : Instant) :
    (u.lease now).read.stamp = some now.millis := by
  simp [TaskRow.lease, TaskRow.read, Task.stamp]

/-- A task that can be taken has no lease that began later than the horizon. -/
theorem le_of_isClaimable {horizon : Int} {u : TaskRow} (h : u.isClaimable horizon = true) {l : Int}
    (hl : u.lockedAt = some l) : l ≤ horizon := by
  simp only [TaskRow.isClaimable, hl, Bool.and_eq_true, decide_eq_true_eq] at h
  exact h.2

/-- A lease that is taken over began before the new one. -/
theorem Leased.before_of_claimable {ts : List Task} {s : Store} (h : Leased ts s)
    {horizon now : Instant} (hclock : horizon.millis < now.millis) {u : TaskRow} (hu : u ∈ s.tasks)
    (hclaim : u.isClaimable horizon.millis = true) {a : Task} (ha : a ∈ ts) (hid : a.id = u.id) :
    a.LeasedBefore (u.lease now).read := by
  obtain ⟨b, hb, hlatest, -, hab⟩ := h.increasing.latestLease? ha
  obtain ⟨l, hl⟩ := h.stamped b hb
  have hlocked : u.lockedAt = some l := by
    rw [h.lockedAt_eq u hu, ← hid, hlatest, Option.bind_some, hl]
  have hlt : l < now.millis := Int.lt_of_le_of_lt (le_of_isClaimable hclaim hlocked) hclock
  rcases hab with rfl | ⟨m, n, hm, hn, hmn⟩
  · exact ⟨l, _, hl, stamp_read_lease u now, hlt⟩
  · rw [hl] at hn
    cases hn
    exact ⟨m, _, hm, stamp_read_lease u now, Int.lt_trans hmn hlt⟩

/-- Taking a task keeps the invariant. -/
theorem Leased.take {ts : List Task} {s : Store} (h : Leased ts s) {horizon now : Instant}
    (hclock : horizon.millis < now.millis) {u : TaskRow}
    (hnext : s.next? horizon.millis = some u) :
    Leased (ts ++ [(u.lease now).read]) (s.updateTask u.id (·.lease now)) := by
  obtain ⟨hu, hclaim⟩ := mem_of_next? hnext
  have hid : (u.lease now).read.id = u.id := rfl
  constructor
  · intro v hv
    rw [latestLease?_concat, hid]
    rcases mem_updateTask.mp hv with ⟨t, -, ht, rfl⟩ | ⟨hv, hne⟩
    · rw [if_pos (show u.id = (t.lease now).id from ht.symm), Option.bind_some, stamp_read_lease]
      rfl
    · rw [if_neg (Ne.symm hne)]
      exact h.lockedAt_eq v hv
  · intro t ht
    have hstored : ∃ v ∈ s.tasks, v.id = t.id := by
      rcases List.mem_append.mp ht with ht | ht
      · exact h.stored t ht
      · rw [List.mem_singleton.mp ht]
        exact ⟨u, hu, rfl⟩
    obtain ⟨v, hv, hvid⟩ := hstored
    by_cases hvu : v.id = u.id
    · exact ⟨v.lease now, mem_updateTask.mpr (.inl ⟨v, hv, hvu, rfl⟩), hvid⟩
    · exact ⟨v, mem_updateTask.mpr (.inr ⟨hv, hvu⟩), hvid⟩
  · intro t ht
    rcases List.mem_append.mp ht with ht | ht
    · exact h.stamped t ht
    · rw [List.mem_singleton.mp ht]
      exact ⟨_, stamp_read_lease u now⟩
  · refine List.pairwise_append.mpr ⟨h.increasing, List.pairwise_singleton _ _, ?_⟩
    intro a ha b hb hab
    rw [List.mem_singleton.mp hb] at hab ⊢
    exact h.before_of_claimable hclock hu hclaim ha hab

/-- A store whose rows keep their names and their leases keeps the invariant;
new rows have no lease. -/
theorem Leased.of_rows {ts : List Task} {s s' : Store} (h : Leased ts s)
    (hback : ∀ v ∈ s'.tasks, (∃ u ∈ s.tasks, v.id = u.id ∧ v.lockedAt = u.lockedAt) ∨
      ((∀ u ∈ s.tasks, u.id ≠ v.id) ∧ v.lockedAt = none))
    (hforth : ∀ u ∈ s.tasks, ∃ v ∈ s'.tasks, v.id = u.id) : Leased ts s' := by
  refine ⟨?_, ?_, h.stamped, h.increasing⟩
  · intro v hv
    rcases hback v hv with ⟨u, hu, hid, hlocked⟩ | ⟨hnew, hnone⟩
    · rw [hlocked, hid]
      exact h.lockedAt_eq u hu
    · have hlatest : latestLease? v.id ts = none := by
        simp only [LintPatrol.latestLease?, List.find?_eq_none, List.mem_reverse, decide_eq_true_eq]
        intro t ht hid
        obtain ⟨u, hu, huid⟩ := h.stored t ht
        exact hnew u hu (huid.trans hid)
      rw [hnone, hlatest, Option.bind_none]
  · intro t ht
    obtain ⟨u, hu, huid⟩ := h.stored t ht
    obtain ⟨v, hv, hvid⟩ := hforth u hu
    exact ⟨v, hv, hvid.trans huid⟩

/-- Every call keeps the invariant, if the horizons of takes lie before now. -/
theorem Leased.step {ts : List Task} {s s' : Store} {e : StoreEvent} (h : Leased ts s)
    (hclock : ∀ horizon now, e.call = .tryTake horizon now → horizon.millis < now.millis)
    (hchange : Change s e s') : Leased (ts ++ leases [e]) s' := by
  cases hchange with
  | taken horizon now u hnext => exact h.take (hclock horizon now rfl) hnext
  | added t now hid hprint =>
    simp only [leases, List.filterMap_cons, List.filterMap_nil, List.append_nil]
    refine h.of_rows ?_ fun u hu => ⟨u, by simp [hu], rfl⟩
    intro v hv
    rcases List.mem_append.mp hv with hv | hv
    · exact .inl ⟨v, hv, rfl, rfl⟩
    · rw [List.mem_singleton.mp hv]
      exact .inr ⟨hid, rfl⟩
  | recorded held r completedAt u hu hlease hr =>
    simp only [leases, List.filterMap_cons, List.filterMap_nil, List.append_nil]
    refine h.of_rows ?_ ?_
    · intro v hv
      rcases mem_updateTask.mp hv with ⟨t, ht, -, rfl⟩ | ⟨hv, -⟩
      · exact .inl ⟨t, ht, rfl, rfl⟩
      · exact .inl ⟨v, hv, rfl, rfl⟩
    · intro v hv
      by_cases hid : v.id = held.id
      · exact ⟨_, mem_updateTask.mpr (.inl ⟨v, hv, hid, rfl⟩), rfl⟩
      · exact ⟨v, mem_updateTask.mpr (.inr ⟨hv, hid⟩), rfl⟩
  | judged =>
    simp only [leases, List.filterMap_cons, List.filterMap_nil, List.append_nil]
    exact h.of_rows (fun v hv => .inl ⟨v, hv, rfl, rfl⟩) fun u hu => ⟨u, hu, rfl⟩
  | registered c hc a s' htasks hfindings =>
    have hnone : leases [⟨c, a⟩] = [] := by cases c <;> first | rfl | contradiction
    rw [hnone, List.append_nil]
    exact h.of_rows (fun v hv => .inl ⟨v, htasks ▸ hv, rfl, rfl⟩) fun u hu => ⟨u, htasks ▸ hu, rfl⟩
  | refused c e =>
    have hnone : leases [⟨c, .refused e⟩] = [] := by cases c <;> rfl
    rw [hnone, List.append_nil]
    exact h

theorem leases_append (es fs : List StoreEvent) : leases (es ++ fs) = leases es ++ leases fs :=
  List.filterMap_append

/-- Every run keeps the invariant, if the horizons of takes lie before now. -/
theorem leased_after (cs : List StoreCall)
    (hclock : ∀ horizon now, .tryTake horizon now ∈ cs → horizon.millis < now.millis) :
    Leased (leases (empty.events cs)) (empty.after cs) := by
  induction cs using List.reverseRecOn with
  | nil => exact leased_empty
  | append_singleton cs c ih =>
    rw [after_concat, events_concat, leases_append]
    have hrun := ih fun horizon now hc => hclock horizon now (List.mem_append_left _ hc)
    refine hrun.step ?_ (change_perform _ c)
    intro horizon now hc
    exact hclock horizon now (by simp [← hc])

/-! ## Recording results -/

/-- Under any lease but the latest one of its task no row is held. -/
theorem Leased.not_isLeasedAs {ts : List Task} {s : Store} (h : Leased ts s) {t : Task}
    (ht : t ∈ ts) (hlatest : latestLease? t.id ts ≠ some t) {u : TaskRow} (hu : u ∈ s.tasks) :
    u.isLeasedAs t = false := by
  obtain ⟨b, -, hb, -, rfl | ⟨m, n, hm, hn, hlt⟩⟩ := h.increasing.latestLease? ht
  · contradiction
  · by_contra hlease
    simp only [TaskRow.isLeasedAs, Bool.not_eq_false, Bool.and_eq_true, decide_eq_true_eq] at hlease
    obtain ⟨⟨hid, -⟩, hlocked⟩ := hlease
    rw [h.lockedAt_eq u hu, hid, hb, Option.bind_some, hn] at hlocked
    obtain ⟨l, hl, rfl⟩ := Option.map_eq_some_iff.mp hm
    simp only [hl, decide_eq_true_eq] at hlocked
    omega

/-- Under the latest lease a pending task is held. -/
theorem Leased.isLeasedAs {ts : List Task} {s : Store} (h : Leased ts s) {t : Task} (ht : t ∈ ts)
    (hlatest : latestLease? t.id ts = some t) {u : TaskRow} (hu : u ∈ s.tasks) (hid : u.id = t.id)
    (hpending : u.status = .pending) : u.isLeasedAs t = true := by
  obtain ⟨m, hm⟩ := h.stamped t ht
  obtain ⟨l, hl, rfl⟩ := Option.map_eq_some_iff.mp hm
  have hlocked : u.lockedAt = some l.millis := by
    rw [h.lockedAt_eq u hu, hid, hlatest, Option.bind_some, hm]
  simp [TaskRow.isLeasedAs, hid, hpending, hlocked, hl]

/-- What is recorded under no lease is refused. -/
theorem set_unleased {s : Store} {t : Task} (h : ∀ u ∈ s.tasks, u.isLeasedAs t = false)
    (r : TaskResult) (completedAt : Instant) :
    ∃ e, s.set t r completedAt = (.error e, s) ∧
      (¬(r.status = .pending ∧ r.findings ≠ []) → e = .leaseLost t.id ∨ e = .notPending t.id) := by
  have hany : s.tasks.any (·.isLeasedAs t) = false := List.any_eq_false.mpr (by simpa using h)
  unfold set
  split
  · next hr => exact ⟨_, rfl, fun hnot => absurd hr hnot⟩
  · simp only [hany, Bool.false_eq_true, if_false]
    split
    · exact ⟨_, rfl, fun _ => .inl rfl⟩
    · exact ⟨_, rfl, fun _ => .inr rfl⟩

/-- What is recorded under a lease that is held is accepted. -/
theorem set_leased {s : Store} {t : Task} {u : TaskRow} (hu : u ∈ s.tasks)
    (hlease : u.isLeasedAs t = true) {r : TaskResult}
    (hr : ¬(r.status = .pending ∧ r.findings ≠ [])) (completedAt : Instant) :
    (s.set t r completedAt).1 = .ok () := by
  have hany : s.tasks.any (·.isLeasedAs t) = true := List.any_eq_true.mpr ⟨u, hu, hlease⟩
  rw [set, if_neg hr, if_pos hany]

/-- **Leases are exclusive**, in every run of calls in which horizons lie
before now: the leases of a task begin later and later, no two of them can be
confused, and a result recorded under any but the latest one is refused and
changes nothing.  One recorded under the latest lease is accepted as long as
the task is pending. -/
theorem leases_exclusive (cs : List StoreCall)
    (hclock : ∀ horizon now, .tryTake horizon now ∈ cs → horizon.millis < now.millis) :
    let s := empty.after cs
    let ts := leases (empty.events cs)
    ts.Pairwise (fun a b => a.id = b.id → a.LeasedBefore b) ∧
      (ts.map fun t => (t.id, t.lockedAt)).Nodup ∧
      ∀ t ∈ ts, ∀ (r : TaskResult) (completedAt : Instant),
        (latestLease? t.id ts ≠ some t →
          ∃ e, s.set t r completedAt = (.error e, s) ∧
            (¬(r.status = .pending ∧ r.findings ≠ []) →
              e = .leaseLost t.id ∨ e = .notPending t.id)) ∧
        (latestLease? t.id ts = some t → (∃ u ∈ s.tasks, u.id = t.id ∧ u.status = .pending) →
          ¬(r.status = .pending ∧ r.findings ≠ []) → (s.set t r completedAt).1 = .ok ()) := by
  intro s ts
  have h : Leased ts s := leased_after cs hclock
  refine ⟨h.increasing, h.increasing.nodup, fun t ht r completedAt => ⟨?_, ?_⟩⟩
  · intro hstale
    exact set_unleased (fun u hu => h.not_isLeasedAs ht hstale hu) r completedAt
  · rintro hlatest ⟨u, hu, hid, hpending⟩ hr
    exact set_leased hu (h.isLeasedAs ht hlatest hu hid hpending) hr completedAt

/-- A task that was taken after ten milliseconds. -/
def slowTask : Task :=
  { Task.fresh "slow" ⟨"l", "image", "digest"⟩ ⟨"r", "url", "commit"⟩ .epoch with
    lockedAt := some (.ofMillis 10) }

/-- One worker fails for the time being and keeps its lease; another one takes
the task over once that lease lies at the horizon. -/
def takeover : List StoreCall :=
  [.tryAdd slowTask .epoch,
    .tryTake (.ofMillis (-50)) (.ofMillis 10),
    .set slowTask ⟨.pending, some "no network", .zero, []⟩ (.ofMillis 20),
    .tryTake (.ofMillis 10) (.ofMillis 70)]

/-- The worker that was too slow is refused. -/
theorem leases_exclusive_takeover :
    (∀ horizon now, .tryTake horizon now ∈ takeover → horizon.millis < now.millis) ∧
      (leases (empty.events takeover)).map Task.stamp = [some 10, some 70] ∧
      ∃ e, (empty.after takeover).set slowTask ⟨.succeeded, none, .zero, []⟩ (.ofMillis 80) =
        (.error e, empty.after takeover) := by
  have hclock : ∀ horizon now, .tryTake horizon now ∈ takeover → horizon.millis < now.millis := by
    intro horizon now hc
    simp only [takeover, List.mem_cons, reduceCtorEq, StoreCall.tryTake.injEq, List.not_mem_nil,
      false_or, or_false] at hc
    rcases hc with ⟨rfl, rfl⟩ | ⟨rfl, rfl⟩ <;> decide
  refine ⟨hclock, by decide, ?_⟩
  obtain ⟨e, he, -⟩ := ((leases_exclusive takeover hclock).2.2 slowTask (by decide)
    ⟨.succeeded, none, .zero, []⟩ (.ofMillis 80)).1 (by decide)
  exact ⟨e, he⟩

end Store

end LintPatrol
