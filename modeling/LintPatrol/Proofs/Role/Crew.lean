import Mathlib.Logic.Function.Basic
import Mathlib.Logic.Relation
import LintPatrol.Proofs.Role.Iteration
import LintPatrol.Proofs.Store.Drain

/-!
# LintPatrol.Proofs.Role.Crew

Any number of workers on one queue, with one clock and one configuration.  Each
of them asks for a task, runs its linter and records the outcome (`Post`); each
of the three ends by the timeout of its stage, and that is all that is known of
how long it takes.  In the meantime the others, and whoever else calls the store,
do what they like (`Crew.Step`).

A task whose lease has ended is taken by another worker, whether or not the one
that had it is done with it.  A lease counts from when the worker asked, which is
before the store answered.  So it is the lock duration that keeps workers from
running one task at a time, and it does so just if it is longer than the three
stages can take together (`Crew.exclusive_iff`).  A configuration may be valid
without that (`Crew.hasty_overlaps`).

`Crew.Fenced` is the invariant: what a worker is at has a row whose lease is the
one that it was taken with, and no two workers are at one task.
-/

namespace LintPatrol

open Time

/-! ## Workers -/

/-- What a worker is at, and since when: nothing, asking for a task, running the
linter of one, or recording the outcome. -/
inductive Post where
  | idle
  | asking (since : Instant)
  | linting (held : Task) (since : Instant)
  | persisting (done : Task × LintOutcome) (since : Instant)

namespace Post

/-- The task that it has taken and is not done with. -/
def held? : Post → Option Task
  | idle => none
  | asking _ => none
  | linting t _ => some t
  | persisting done _ => some done.1

/-- When it asked for the task that it has not got yet. -/
def asked? : Post → Option Instant
  | asking since => some since
  | _ => none

/-- What it is at once the store has answered. -/
def ofTaking : Ending Task → Instant → Post
  | .produced (t :: _), now => linting t now
  | _, _ => idle

/-- The stage that it is at may still go on, by its timeout. -/
def InTime (c : WorkerConfig) (now : Instant) : Post → Prop
  | idle => True
  | asking since =>
    now.sinceEpoch ≤ since.sinceEpoch + (Duration.ofSeconds c.takeTimeoutSecs).nanos
  | linting _ since =>
    now.sinceEpoch ≤ since.sinceEpoch + (Duration.ofSeconds c.lintTimeoutSecs).nanos
  | persisting _ since =>
    now.sinceEpoch ≤ since.sinceEpoch + (Duration.ofSeconds c.updateTimeoutSecs).nanos

end Post

/-- The workers of a queue. -/
structure Crew (κ : Type) where
  now : Instant
  store : Store
  post : κ → Post

namespace Crew

variable {κ : Type} [DecidableEq κ]

/-- One of them turns to something else. -/
def assign (s : Crew κ) (k : κ) (p : Post) : Crew κ := { s with post := Function.update s.post k p }

@[simp]
theorem post_assign_self (s : Crew κ) (k : κ) (p : Post) : (s.assign k p).post k = p :=
  Function.update_self ..

theorem post_assign_of_ne (s : Crew κ) {j k : κ} (h : j ≠ k) (p : Post) :
    (s.assign k p).post j = s.post j :=
  Function.update_of_ne h ..

/-- What may happen next.  Time passes, and nobody is longer at a stage than its
timeout; a worker goes on to its next stage, or fails at the one it is at; or somebody
else calls the store, but does not take a task.  Horizon and lease of a task go by
when the worker asked, and the store answers later. -/
inductive Step (c : WorkerConfig) : Crew κ → Crew κ → Prop where
  | pass (s : Crew κ) (now : Instant) (hlater : s.now.sinceEpoch ≤ now.sinceEpoch)
      (htimely : ∀ k, (s.post k).InTime c now) : Step c s { s with now }
  | ask (s : Crew κ) (k : κ) (hidle : s.post k = .idle) : Step c s (s.assign k (.asking s.now))
  | take (s : Crew κ) (k : κ) (asked : Instant) (hpost : s.post k = .asking asked) {ε : Type}
      (sv : Services Store ε) (scope : Scope) (w : World Store ε)
      (hkeeper : sv.keeper = Store.keeper) (hdata : w.data = s.store)
      (hclock : sv.clock w.time = asked) :
      Step c s
        ({ s with
          store := (sv.takeTask (.ofSeconds c.lockDurationSecs) scope () w).2.data }.assign k
            (.ofTaking (sv.takeTask (.ofSeconds c.lockDurationSecs) scope () w).1 s.now))
  | linted (s : Crew κ) (k : κ) (t : Task) (since : Instant) (hpost : s.post k = .linting t since)
      (o : LintOutcome) : Step c s (s.assign k (.persisting (t, o) s.now))
  | persisted (s : Crew κ) (k : κ) (done : Task × LintOutcome) (since : Instant)
      (hpost : s.post k = .persisting done since) {ε : Type} (sv : Services Store ε)
      (scope : Scope) (w : World Store ε) (hkeeper : sv.keeper = Store.keeper)
      (hdata : w.data = s.store)
      (hclock : (sv.clock w.time).sinceEpoch ≤ s.now.sinceEpoch) :
      Step c s ({ s with store := (sv.persist scope done w).2.data }.assign k .idle)
  | failed (s : Crew κ) (k : κ) : Step c s (s.assign k .idle)
  | called (s : Crew κ) (call : StoreCall) (hcall : ∀ horizon now, call ≠ .tryTake horizon now) :
      Step c s { s with store := (call.perform s.store).2 }

/-- Whatever may happen in the course of time. -/
def Run (c : WorkerConfig) : Crew κ → Crew κ → Prop := Relation.ReflTransGen (Step c)

/-- Nobody has begun yet; there is one row of each task. -/
structure Begins (s : Crew κ) : Prop where
  idle : ∀ k, s.post k = .idle
  keyed : (s.store.tasks.map TaskRow.id).Nodup

/-- No two workers are at one task. -/
def Exclusive (s : Crew κ) : Prop :=
  ∀ j k, j ≠ k → ∀ t ∈ (s.post j).held?, ∀ u ∈ (s.post k).held?, t.id ≠ u.id

end Crew

/-! ## What the stages do to the store -/

namespace Services

variable {ε : Type} {sv : Services Store ε} {s : Scope} {w : World Store ε}

/-- Who asks for a task gets none, and nothing changes, or the next one for the
horizon. -/
theorem takeTask_cases (hkeeper : sv.keeper = Store.keeper) (lock : Duration) :
    (∀ now, Post.ofTaking (sv.takeTask lock s () w).1 now = .idle) ∧
        (sv.takeTask lock s () w).2.data = w.data ∨
      ∃ horizon u, (sv.clock w.time).before? lock = some horizon ∧
        w.data.next? horizon.millis = some u ∧
        sv.takeTask lock s () w = (.produced [(u.lease (sv.clock w.time)).read],
          { w with data := w.data.updateTask u.id (·.lease (sv.clock w.time)) }) := by
  cases hhorizon : (sv.clock w.time).before? lock with
  | none =>
    refine .inl ?_
    simp only [takeTask, hhorizon]
    split <;> exact ⟨fun _ => rfl, rfl⟩
  | some horizon =>
    cases hlive : w.time.isExpired s with
    | true =>
      refine .inl ?_
      simp only [takeTask, hhorizon, World.call_of_expired hlive]
      split <;> exact ⟨fun _ => rfl, rfl⟩
    | false =>
      have heq := takeTask_eq hkeeper hhorizon hlive
      cases hnext : w.data.next? horizon.millis with
      | none =>
        rw [hnext] at heq
        rw [heq]
        exact .inl ⟨fun _ => rfl, rfl⟩
      | some u =>
        rw [hnext] at heq
        exact .inr ⟨horizon, u, rfl, hnext, heq⟩

/-- Recording an outcome calls the store, or comes too late. -/
theorem data_persist (hkeeper : sv.keeper = Store.keeper) (done : Task × LintOutcome) :
    (sv.persist s done w).2.data = w.data ∨
      (sv.persist s done w).2.data =
        (w.data.set done.1 done.2.toResult (sv.clock w.time)).2 := by
  cases hlive : w.time.isExpired s with
  | true => exact .inl (by simp only [persist, World.call_of_expired hlive])
  | false =>
    refine .inr ?_
    obtain ⟨t, o⟩ := done
    simp only [persist, World.call_of_live hlive, hkeeper, Store.keeper]
    split
    · next hnone => cases hnone
    · next hcall => exact (congrArg (fun p => p.2.data) hcall).symm
    · next hcall =>
      have hdata := (congrArg (fun p => p.2.data) hcall).symm
      split <;> exact hdata

end Services

/-! ## One worker for each task -/

/-- What a worker is at with a task began in time, if it asked for the task
then. -/
def Post.Since (c : WorkerConfig) (asked : Instant) : Post → Prop
  | idle => True
  | asking _ => True
  | linting _ since =>
    since.sinceEpoch ≤ asked.sinceEpoch + (Duration.ofSeconds c.takeTimeoutSecs).nanos
  | persisting _ since =>
    since.sinceEpoch ≤ asked.sinceEpoch + (Duration.ofSeconds c.takeTimeoutSecs).nanos +
      (Duration.ofSeconds c.lintTimeoutSecs).nanos

/-- How long after it asked for a task a worker can be at it, in seconds. -/
def WorkerConfig.flightSecs (c : WorkerConfig) : Nat :=
  c.takeTimeoutSecs.toNat + c.lintTimeoutSecs.toNat + c.updateTimeoutSecs.toNat

/-- A worker that is in time has not been at its task for longer than its stages
can take. -/
theorem Post.le_of_inTime {c : WorkerConfig} {p : Post} {t : Task} (hheld : p.held? = some t)
    {asked now : Instant} (hsince : p.Since c asked) (htime : p.InTime c now) :
    now.sinceEpoch ≤ asked.sinceEpoch + c.flightSecs * nanosPerSecond := by
  cases p with
  | idle => cases hheld
  | asking since => cases hheld
  | linting t since =>
    simp only [Since, InTime, Duration.ofSeconds, WorkerConfig.flightSecs, nanosPerSecond] at *
    omega
  | persisting done since =>
    simp only [Since, InTime, Duration.ofSeconds, WorkerConfig.flightSecs, nanosPerSecond] at *
    omega

/-- A lease that is longer than that has not ended in the meantime. -/
theorem TaskRow.not_claimable_in_time {c : WorkerConfig}
    (hlock : c.flightSecs < c.lockDurationSecs.toNat) {u : TaskRow} {asked now horizon : Instant}
    (hlease : u.lockedAt = some asked.millis)
    (htime : now.sinceEpoch ≤ asked.sinceEpoch + c.flightSecs * nanosPerSecond)
    (hhorizon : now.before? (.ofSeconds c.lockDurationSecs) = some horizon) :
    ¬u.Claimable horizon.millis := by
  intro hclaim
  have hended := (claimable_iff_of_before? hclaim.pending hlease hhorizon).mp hclaim
  rw [Instant.millis_eq_div] at hended
  simp only [Duration.ofSeconds, nanosPerSecond, nanosPerMilli] at hended htime
  omega

namespace Crew

variable {κ : Type} {c : WorkerConfig} {s s' : Crew κ}

/-- The row of the task says that it was asked for then. -/
def Leased (s : Crew κ) (t : Task) (asked : Instant) : Prop :=
  ∃ u ∈ s.store.tasks, u.id = t.id ∧ u.lockedAt = some asked.millis

/-- Whoever is at a task has its lease, and nobody else is at it. -/
structure Fenced (c : WorkerConfig) (s : Crew κ) : Prop where
  keyed : (s.store.tasks.map TaskRow.id).Nodup
  inTime : ∀ k, (s.post k).InTime c s.now
  asked : ∀ k, ∀ since ∈ (s.post k).asked?, since.sinceEpoch ≤ s.now.sinceEpoch
  leased : ∀ k, ∀ t ∈ (s.post k).held?, ∃ asked, (s.post k).Since c asked ∧ s.Leased t asked
  exclusive : s.Exclusive

/-- Where nobody is at a task, nobody is at that of another. -/
theorem Begins.fenced (h : s.Begins) (c : WorkerConfig) : s.Fenced c where
  keyed := h.keyed
  inTime k := by
    rw [h.idle k]
    trivial
  asked k since hsince := by
    rw [h.idle k] at hsince
    cases hsince
  leased k t ht := by
    rw [h.idle k] at ht
    cases ht
  exclusive j k _ t ht := by
    rw [h.idle j] at ht
    cases ht

/-- Whatever is done to the store, as long as tasks that somebody is at keep
their leases. -/
theorem Fenced.of_store (h : s.Fenced c) {store : Store}
    (hkeyed : (store.tasks.map TaskRow.id).Nodup)
    (hkept : ∀ k, ∀ t ∈ (s.post k).held?, ∀ asked, s.Leased t asked →
      { s with store }.Leased t asked) : { s with store }.Fenced c where
  keyed := hkeyed
  inTime := h.inTime
  asked := h.asked
  leased k t ht := by
    obtain ⟨asked, hsince, hleased⟩ := h.leased k t ht
    exact ⟨asked, hsince, hkept k t ht asked hleased⟩
  exclusive := h.exclusive

/-- Every call but one that takes a task keeps all leases. -/
theorem Leased.of_change {t : Task} {asked : Instant} (h : s.Leased t asked) {e : StoreEvent}
    {store : Store} (hchange : Store.Change s.store e store)
    (hcall : ∀ horizon now, e.call ≠ .tryTake horizon now) :
    { s with store }.Leased t asked := by
  obtain ⟨u, hu, hid, hlock⟩ := h
  have hnone : leases [e] = [] := by
    obtain ⟨call, answer⟩ := e
    cases call <;> first | rfl | exact absurd rfl (hcall _ _)
  obtain ⟨v, hv, hvid, hvlock⟩ := hchange.lock_kept hu (by simp [hnone])
  exact ⟨v, hv, hvid.trans hid, hvlock.trans hlock⟩

/-- A call that takes no task takes no lease away. -/
theorem Fenced.of_change (h : s.Fenced c) {e : StoreEvent} {store : Store}
    (hchange : Store.Change s.store e store)
    (hcall : ∀ horizon now, e.call ≠ .tryTake horizon now) : { s with store }.Fenced c :=
  h.of_store (hchange.keyed h.keyed) fun _ _ _ _ hleased => hleased.of_change hchange hcall

/-- A task that somebody is at is not taken. -/
theorem Fenced.id_ne_of_next? (h : s.Fenced c) (hlock : c.flightSecs < c.lockDurationSecs.toNat)
    {asked horizon : Instant} (hasked : asked.sinceEpoch ≤ s.now.sinceEpoch)
    (hhorizon : asked.before? (.ofSeconds c.lockDurationSecs) = some horizon)
    {u : TaskRow} (hnext : s.store.next? horizon.millis = some u) {k : κ} {t : Task}
    (ht : t ∈ (s.post k).held?) : t.id ≠ u.id := by
  intro hid
  obtain ⟨since, hsince, v, hv, hvid, hvlock⟩ := h.leased k t ht
  obtain ⟨hu, hclaim, -⟩ := Store.next?_first hnext
  have hvu : v = u := Store.eq_of_id_eq h.keyed hv hu (hvid.trans hid)
  have htime := Post.le_of_inTime (Option.mem_def.mp ht) hsince (h.inTime k)
  exact TaskRow.not_claimable_in_time hlock (hvu ▸ hvlock) (Int.le_trans hasked htime) hhorizon
    hclaim

variable [DecidableEq κ]

/-- A worker may turn to something else in time, as long as it has the lease of
what it is at, and nobody else is at that. -/
theorem Fenced.assign (h : s.Fenced c) {k : κ} {p : Post} (htime : p.InTime c s.now)
    (hasked : ∀ since ∈ p.asked?, since.sinceEpoch ≤ s.now.sinceEpoch)
    (hleased : ∀ t ∈ p.held?, ∃ asked, p.Since c asked ∧ s.Leased t asked)
    (hothers : ∀ t ∈ p.held?, ∀ j, j ≠ k → ∀ u ∈ (s.post j).held?, t.id ≠ u.id) :
    (s.assign k p).Fenced c where
  keyed := h.keyed
  inTime j := by
    rcases eq_or_ne j k with rfl | hj
    · rw [post_assign_self]
      exact htime
    · rw [post_assign_of_ne s hj]
      exact h.inTime j
  asked j since hsince := by
    rcases eq_or_ne j k with rfl | hj
    · rw [post_assign_self] at hsince
      exact hasked since hsince
    · rw [post_assign_of_ne s hj] at hsince
      exact h.asked j since hsince
  leased j t ht := by
    rcases eq_or_ne j k with rfl | hj
    · rw [post_assign_self] at ht ⊢
      exact hleased t ht
    · rw [post_assign_of_ne s hj] at ht ⊢
      exact h.leased j t ht
  exclusive i j hij t ht u hu := by
    rcases eq_or_ne i k with rfl | hi
    · rw [post_assign_self] at ht
      rw [post_assign_of_ne s hij.symm] at hu
      exact hothers t ht j hij.symm u hu
    · rw [post_assign_of_ne s hi] at ht
      rcases eq_or_ne j k with rfl | hj
      · rw [post_assign_self] at hu
        exact (hothers u hu i hi t ht).symm
      · rw [post_assign_of_ne s hj] at hu
        exact h.exclusive i j hij t ht u hu

/-- A worker may let go of what it is at. -/
theorem Fenced.letGo (h : s.Fenced c) (k : κ) : (s.assign k .idle).Fenced c :=
  h.assign trivial (fun _ hsince => by cases hsince) (fun _ ht => by cases ht)
    fun _ ht => by cases ht

/-- Taking a task fences it. -/
theorem Fenced.take (h : s.Fenced c) (hlock : c.flightSecs < c.lockDurationSecs.toNat) {k : κ}
    {asked horizon : Instant} (hpost : s.post k = .asking asked)
    (hhorizon : asked.before? (.ofSeconds c.lockDurationSecs) = some horizon)
    {u : TaskRow} (hnext : s.store.next? horizon.millis = some u) :
    ({ s with store := s.store.updateTask u.id (·.lease asked) }.assign k
      (.linting (u.lease asked).read s.now)).Fenced c := by
  obtain ⟨hu, -⟩ := Store.next?_first hnext
  have hasked : asked.sinceEpoch ≤ s.now.sinceEpoch := h.asked k asked (by rw [hpost]; rfl)
  have htime := h.inTime k
  rw [hpost] at htime
  have hother : ∀ j, ∀ t ∈ (s.post j).held?, t.id ≠ u.id := fun j t ht =>
    h.id_ne_of_next? hlock hasked hhorizon hnext ht
  have hkeyed := (Store.Change.taken horizon asked u hnext).keyed h.keyed
  refine (h.of_store hkeyed ?_).assign ?_ (fun _ hsince => by cases hsince) ?_ ?_
  · rintro j t ht since ⟨v, hv, hvid, hvlock⟩
    have hne : v.id ≠ u.id := hvid ▸ hother j t ht
    exact ⟨v, Store.mem_updateTask.mpr (.inr ⟨hv, hne⟩), hvid, hvlock⟩
  · simp only [Post.InTime]
    omega
  · rintro t ⟨⟩
    exact ⟨asked, htime, u.lease asked,
      Store.mem_updateTask.mpr (.inl ⟨u, hu, rfl, rfl⟩), rfl, rfl⟩
  · rintro t ⟨⟩ j - x hx
    exact (hother j x hx).symm

/-- **Whatever happens, tasks stay fenced**, if the lease of a task is longer than
the stages of a worker can take. -/
theorem Step.fenced (hstep : Step c s s') (hlock : c.flightSecs < c.lockDurationSecs.toNat)
    (h : s.Fenced c) : s'.Fenced c := by
  cases hstep with
  | pass now hlater htimely =>
    exact ⟨h.keyed, htimely, fun k since hsince => Int.le_trans (h.asked k since hsince) hlater,
      h.leased, h.exclusive⟩
  | ask k hidle =>
    refine h.assign ?_ ?_ (fun _ ht => by cases ht) fun _ ht => by cases ht
    · simp only [Post.InTime]
      omega
    · rintro _ ⟨⟩
      exact Int.le_refl _
  | take k asked hpost sv scope w hkeeper hdata hclock =>
    rcases Services.takeTask_cases hkeeper (.ofSeconds c.lockDurationSecs) (s := scope) (w := w)
      with ⟨hidle, hsame⟩ | ⟨horizon, u, hhorizon, hnext, htaken⟩
    · rw [hidle, hsame, hdata]
      exact h.letGo k
    · rw [hclock] at hhorizon
      rw [hdata] at hnext
      rw [htaken, hclock, hdata]
      exact h.take hlock hpost hhorizon hnext
  | linted k t since hpost o =>
    have ht : t ∈ (s.post k).held? := by
      rw [hpost]
      rfl
    have htime := h.inTime k
    obtain ⟨asked, hsince, hleased⟩ := h.leased k t ht
    rw [hpost] at htime hsince
    refine h.assign ?_ (fun _ hsince => by cases hsince) ?_ ?_
    · simp only [Post.InTime]
      omega
    · rintro _ ⟨⟩
      refine ⟨asked, ?_, hleased⟩
      simp only [Post.InTime, Post.Since] at htime hsince ⊢
      omega
    · rintro _ ⟨⟩ j hj u hu
      exact h.exclusive k j hj.symm t ht u hu
  | persisted k done since hpost sv scope w hkeeper hdata hclock =>
    rcases Services.data_persist hkeeper done (s := scope) (w := w) with hsame | hset
    · rw [hsame, hdata]
      exact h.letGo k
    · rw [hset, hdata]
      have hchange := s.store.change_set done.1 done.2.toResult (sv.clock w.time)
      exact (h.of_change hchange (by simp)).letGo k
  | failed k => exact h.letGo k
  | called call hcall => exact h.of_change (s.store.change_perform call) hcall

/-- A lease that lasts longer than what is done under it keeps others away, all along a run. -/
theorem Run.fenced (hrun : s.Run c s') (hlock : c.flightSecs < c.lockDurationSecs.toNat)
    (h : s.Fenced c) : s'.Fenced c := by
  induction hrun with
  | refl => exact h
  | tail _ hstep ih => exact hstep.fenced hlock ih

/-! ## Two workers at one task -/

/-- Services of workers that asked for a task at some time. -/
def timekeeping (asked : Instant) : Services Store Unit :=
  .isolated Store.keeper "socket" asked

def asking (store : Store) : World Store Unit := ⟨.start, .empty, store, 0, ()⟩

/-- A worker that has asked for a task may get the next one. -/
theorem step_take {k : κ} {asked horizon : Instant} (hpost : s.post k = .asking asked)
    (hhorizon : asked.before? (.ofSeconds c.lockDurationSecs) = some horizon) {u : TaskRow}
    (hnext : s.store.next? horizon.millis = some u) :
    Step c s ({ s with store := s.store.updateTask u.id (·.lease asked) }.assign k
      (.linting (u.lease asked).read s.now)) := by
  have hstep := Step.take (c := c) s k asked hpost (timekeeping asked) ⟨[0], none⟩
    (asking s.store) rfl rfl rfl
  have hkeeper : (timekeeping asked).keeper = Store.keeper := rfl
  have htaken := Services.takeTask_eq hkeeper (s := ⟨[0], none⟩) (w := asking s.store) hhorizon rfl
  rw [show (asking s.store).data = s.store from rfl, hnext] at htaken
  rw [htaken] at hstep
  exact hstep

/-- Two workers, the second of which has no task. -/
def pair (now : Instant) (store : Store) (first : Post) : Crew Bool where
  now := now
  store := store
  post k := if k then first else .idle

theorem pair_assign (now : Instant) (store : Store) (first p : Post) :
    (pair now store first).assign true p = pair now store p := by
  simp only [pair, assign, mk.injEq, true_and]
  funext k
  cases k <;> rfl

theorem step_pair_pass {now later : Instant} {store : Store} {first : Post}
    (hlater : now.sinceEpoch ≤ later.sinceEpoch) (htime : first.InTime c later) :
    Step c (pair now store first) (pair later store first) := by
  refine .pass (pair now store first) later hlater fun k => ?_
  cases k with
  | false => trivial
  | true => exact htime

def pairRow : TaskRow := .fresh (Worker.lintOf "a" "commit") .epoch

/-- The two workers, before anything has happened. -/
def pairStart : Crew Bool :=
  pair .epoch (Store.empty.after [.tryAdd (Worker.lintOf "a" "commit") .epoch]) .idle

/-- Two workers without a task, and a queue with one. -/
theorem begins_pairStart : pairStart.Begins where
  idle k := by cases k <;> rfl
  keyed := by decide

/-- The task as the first worker takes it. -/
def pairHeld : Task := (pairRow.lease .epoch).read

def pairStore : Store := pairStart.store.updateTask pairRow.id (·.lease .epoch)

/-- The first worker gets the task and runs the linter. -/
theorem run_pair_persisting {horizon : Instant}
    (hhorizon : Instant.epoch.before? (.ofSeconds c.lockDurationSecs) = some horizon)
    (taken linted : Instant) (htaken : 0 ≤ taken.sinceEpoch)
    (htake : taken.sinceEpoch ≤ (Duration.ofSeconds c.takeTimeoutSecs).nanos)
    (hlinted : taken.sinceEpoch ≤ linted.sinceEpoch)
    (hlint : linted.sinceEpoch ≤
      taken.sinceEpoch + (Duration.ofSeconds c.lintTimeoutSecs).nanos) :
    pairStart.Run c (pair linted pairStore (.persisting (pairHeld, ⟨.ok [], .zero⟩) linted)) := by
  have hepoch : Instant.epoch.sinceEpoch = 0 := rfl
  have hask : Step c pairStart (pair .epoch pairStart.store (.asking .epoch)) := by
    have hstep := Step.ask (c := c) pairStart true rfl
    rwa [pairStart, pair_assign] at hstep
  have hwait : Step c (pair .epoch pairStart.store (.asking .epoch))
      (pair taken pairStart.store (.asking .epoch)) := by
    refine step_pair_pass (by rw [hepoch]; exact htaken) ?_
    simp only [Post.InTime, hepoch]
    omega
  have htook : Step c (pair taken pairStart.store (.asking .epoch))
      (pair taken pairStore (.linting pairHeld taken)) := by
    have hstep := step_take (k := true) (s := pair taken pairStart.store (.asking .epoch)) rfl
      hhorizon (u := pairRow) rfl
    exact pair_assign taken pairStore _ _ ▸ hstep
  have hrun : Step c (pair taken pairStore (.linting pairHeld taken))
      (pair linted pairStore (.linting pairHeld taken)) := step_pair_pass hlinted hlint
  have hdone : Step c (pair linted pairStore (.linting pairHeld taken))
      (pair linted pairStore (.persisting (pairHeld, ⟨.ok [], .zero⟩) linted)) := by
    have hstep := Step.linted (c := c) (pair linted pairStore (.linting pairHeld taken)) true
      pairHeld taken rfl ⟨.ok [], .zero⟩
    rwa [pair_assign] at hstep
  exact ((((Relation.ReflTransGen.single hask).tail hwait).tail htook).tail hrun).tail hdone

/-- **If a lease may end in the meantime, two workers may be at one task**: the
second takes it as soon as the lease of the first has ended. -/
theorem exists_overlap {config : Config} (hvalid : config.validate = .ok ())
    (hlock : config.worker.lockDurationSecs.toNat ≤ config.worker.flightSecs) :
    ∃ s' : Crew Bool, pairStart.Run config.worker s' ∧ ¬s'.Exclusive := by
  have hyear : config.worker.lockDurationSecs.toNat ≤ 31536000 :=
    (Config.lock_bounds hvalid).2
  -- The first worker waits, lints and records, each for as long as it may and not
  -- for longer than its lease.
  obtain ⟨taken, htaken⟩ : ∃ t : Instant, t.sinceEpoch = (min
      config.worker.lockDurationSecs.toNat config.worker.takeTimeoutSecs.toNat : Nat) *
        nanosPerSecond := Instant.exists_sinceEpoch (by simp only [maxSeconds]; omega)
  obtain ⟨linted, hlinted⟩ : ∃ t : Instant, t.sinceEpoch = (min
      config.worker.lockDurationSecs.toNat
        (config.worker.takeTimeoutSecs.toNat + config.worker.lintTimeoutSecs.toNat) : Nat) *
        nanosPerSecond := Instant.exists_sinceEpoch (by simp only [maxSeconds]; omega)
  obtain ⟨ended, hended⟩ : ∃ t : Instant, t.sinceEpoch =
      config.worker.lockDurationSecs.toNat * nanosPerSecond :=
    Instant.exists_sinceEpoch (by simp only [maxSeconds]; omega)
  obtain ⟨horizon₀, hhorizon₀⟩ : ∃ horizon, Instant.epoch.before?
      (.ofSeconds config.worker.lockDurationSecs) = some horizon :=
    Config.exists_horizon hvalid (by decide)
  obtain ⟨horizon, hhorizon⟩ : ∃ horizon, ended.before?
      (.ofSeconds config.worker.lockDurationSecs) = some horizon := by
    refine Instant.before?_isSome ?_
    simp only [Duration.ofSeconds, nanosPerSecond, minSeconds] at hended ⊢
    omega
  have hmillis : horizon.millis = 0 := by
    rw [Instant.millis_eq_div, Instant.sinceEpoch_of_before? hhorizon, hended]
    simp only [Duration.ofSeconds, nanosPerSecond, nanosPerMilli]
    omega
  simp only [nanosPerSecond] at htaken hlinted hended
  have hpersisting := run_pair_persisting hhorizon₀ taken linted (by omega)
    (by simp only [Duration.ofSeconds, nanosPerSecond]; omega) (by omega)
    (by simp only [Duration.ofSeconds, nanosPerSecond]; omega)
  let first : Post := .persisting (pairHeld, ⟨.ok [], .zero⟩) linted
  have hwait : Step config.worker (pair linted pairStore first) (pair ended pairStore first) := by
    refine step_pair_pass (by omega) ?_
    simp only [first, Post.InTime, WorkerConfig.flightSecs, Duration.ofSeconds, nanosPerSecond]
      at hlock ⊢
    omega
  have hask := Step.ask (c := config.worker) (pair ended pairStore first) false rfl
  have hnext : pairStore.next? horizon.millis = some (pairRow.lease .epoch) := by
    rw [hmillis]
    rfl
  have htakeOver := step_take (k := false)
    (s := (pair ended pairStore first).assign false (.asking ended)) rfl hhorizon hnext
  refine ⟨_, ((hpersisting.tail hwait).tail hask).tail htakeOver, fun hexclusive => ?_⟩
  exact hexclusive true false (by decide) pairHeld rfl ((pairRow.lease .epoch).lease ended).read
    rfl rfl

/-- **It is the lock duration that keeps workers apart.**  Of the workers of a
valid configuration no two are ever at one task, however many of them there are
and whatever they do, just if its lock duration is longer than asking for a task,
running its linter and recording the outcome can take together. -/
theorem exclusive_iff {config : Config} (hvalid : config.validate = .ok ()) :
    (∀ (κ : Type) [DecidableEq κ] (s s' : Crew κ),
        s.Begins → s.Run config.worker s' → s'.Exclusive) ↔
      config.worker.takeTimeoutSecs.toNat + config.worker.lintTimeoutSecs.toNat +
          config.worker.updateTimeoutSecs.toNat <
        config.worker.lockDurationSecs.toNat := by
  constructor
  · intro h
    by_contra hlock
    obtain ⟨s', hrun, hoverlap⟩ := exists_overlap hvalid (Nat.le_of_not_lt hlock)
    exact hoverlap (h Bool pairStart s' begins_pairStart hrun)
  · intro hlock κ _ s s' hbegins hrun
    exact (hrun.fenced hlock (hbegins.fenced config.worker)).exclusive

/-- The configuration that is used if nothing is set keeps workers apart. -/
theorem exclusive_iff_default :
    ({} : Config).validate = .ok () ∧
      ∀ (κ : Type) [DecidableEq κ] (s s' : Crew κ),
        s.Begins → s.Run ({} : Config).worker s' → s'.Exclusive := by
  have hvalid : ({} : Config).validate = .ok () := by decide +kernel
  exact ⟨hvalid, (exclusive_iff hvalid).mpr (by decide)⟩

/-- A configuration with leases of one second. -/
def hasty : Config := { worker := { lockDurationSecs := 1 } }

/-- It is valid, and two workers come to be at one task. -/
theorem hasty_overlaps :
    hasty.validate = .ok () ∧
      ∃ s' : Crew Bool, pairStart.Begins ∧ pairStart.Run hasty.worker s' ∧ ¬s'.Exclusive := by
  have hvalid : hasty.validate = .ok () := by decide +kernel
  obtain ⟨s', hrun, hoverlap⟩ := exists_overlap hvalid (by decide)
  exact ⟨hvalid, s', begins_pairStart, hrun, hoverlap⟩

end Crew

end LintPatrol
