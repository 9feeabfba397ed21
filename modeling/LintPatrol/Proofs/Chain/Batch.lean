import LintPatrol.Proofs.Chain.Work
import Mathlib.Data.List.Perm.Basic

/-!
# LintPatrol.Proofs.Chain.Batch

The items that one body handed on, in their order, and what has come of each:
nothing yet, or a report together with the work it is due on.  The jobs that
are still awaited are those of the items nothing has come of, each once and in
any order; a job finds its item by its ticket.

## Main statements

* `Batch.Awaits.complete`: a report on an awaited job settles its item, and
  the others are still awaited.
* `Batch.Awaits.append`: items that are handed on are awaited.
* `Batch.Due.settled`: reports on all items are due on the work they led to.
-/

namespace LintPatrol.Chain

variable {α : Type}

/-- An item that was handed on. -/
structure Piece (α : Type) where
  item : α
  /-- The report on it and the work it led to, if that is done. -/
  came : Option (Option Report × Work α)

/-- The items that one body handed on. -/
abbrev Batch (α : Type) := List (Piece α)

namespace Batch

/-- The items. -/
def items (b : Batch α) : List α := b.map Piece.item

/-- What the body that handed them on knows of them. -/
def handles (b : Batch α) : List Handle := b.map fun p => p.came.map Prod.fst

/-- The work that has been done. -/
def works (b : Batch α) : List (Work α) := b.filterMap fun p => p.came.map Prod.snd

/-- The items nothing has come of, with their tickets, the first of which is
`k`. -/
def pendingFrom : (k : Nat) → Batch α → List (Nat × α)
  | _, [] => []
  | k, p :: b =>
    match p.came with
    | none => (k, p.item) :: pendingFrom (k + 1) b
    | some _ => pendingFrom (k + 1) b

/-- Something comes of the item with ticket `k`. -/
def complete (b : Batch α) (k : Nat) (came : Option Report × Work α) : Batch α :=
  b.modify k fun p => { p with came := some came }

def fresh (items : List α) : Batch α := items.map fun x => ⟨x, none⟩

/-! ## completing -/

@[simp] theorem items_complete (b : Batch α) (k : Nat) (came : Option Report × Work α) :
    (b.complete k came).items = b.items := by
  unfold complete items
  induction b generalizing k with
  | nil => simp
  | cons p b ih => cases k <;> simp_all

@[simp] theorem handles_complete (b : Batch α) (k : Nat) (came : Option Report × Work α) :
    (b.complete k came).handles = b.handles.set k (some came.1) := by
  unfold complete handles
  induction b generalizing k with
  | nil => simp
  | cons p b ih => cases k <;> simp_all

/-- A piece of a batch where one has been reported on is one of the former, or that one
with what came. -/
theorem mem_complete {b : Batch α} {k : Nat} {came : Option Report × Work α} {q : Piece α}
    (h : q ∈ b.complete k came) :
    q ∈ b ∨ ∃ p, b[k]? = some p ∧ q = { p with came := some came } := by
  unfold complete at h
  induction b generalizing k with
  | nil => simp at h
  | cons p b ih =>
    cases k with
    | zero =>
      rcases List.mem_cons.mp (by simpa using h) with rfl | h
      · exact .inr ⟨p, rfl, rfl⟩
      · exact .inl (List.mem_cons_of_mem _ h)
    | succ k =>
      rcases List.mem_cons.mp (by simpa using h) with rfl | h
      · exact .inl List.mem_cons_self
      · rcases ih h with h | h
        · exact .inl (List.mem_cons_of_mem _ h)
        · exact .inr (by simpa using h)

/-- The work that has come is done beside the rest. -/
theorem works_complete {b : Batch α} {k : Nat} {p : Piece α} (came : Option Report × Work α)
    (hk : b[k]? = some p) (hp : p.came = none) :
    (b.complete k came).works.Perm (came.2 :: b.works) := by
  unfold complete works
  induction b generalizing k with
  | nil => simp at hk
  | cons q b ih =>
    cases k with
    | zero =>
      obtain rfl : q = p := by simpa using hk
      simp [hp]
    | succ k =>
      have := ih (by simpa using hk)
      cases hq : q.came with
      | none => simpa [hq] using this
      | some c => simpa [hq] using (this.cons c.2).trans (.swap ..)

/-- The item that something has come of is no longer pending. -/
theorem pendingFrom_complete {b : Batch α} {k : Nat} {p : Piece α} (n : Nat)
    (came : Option Report × Work α) (hk : b[k]? = some p) (hp : p.came = none) :
    (pendingFrom n b).Perm ((n + k, p.item) :: pendingFrom n (b.complete k came)) := by
  unfold complete
  induction b generalizing k n with
  | nil => simp at hk
  | cons q b ih =>
    cases k with
    | zero =>
      obtain rfl : q = p := by simpa using hk
      simp [pendingFrom, hp]
    | succ k =>
      have := ih (n + 1) (by simpa using hk)
      rw [show n + 1 + k = n + (k + 1) by omega] at this
      cases hq : q.came with
      | none => simpa [pendingFrom, hq] using (this.cons (n, q.item)).trans (.swap ..)
      | some c => simpa [pendingFrom, hq] using this

/-- An item that is still awaited stands in the batch at its number. -/
theorem getElem_of_mem_pendingFrom {b : Batch α} {n i : Nat} {x : α}
    (h : (i, x) ∈ pendingFrom n b) :
    ∃ k p, i = n + k ∧ b[k]? = some p ∧ p.came = none ∧ p.item = x := by
  induction b generalizing n with
  | nil => simp [pendingFrom] at h
  | cons q b ih =>
    have hrest : (i, x) ∈ pendingFrom (n + 1) b →
        ∃ k p, i = n + k ∧ (q :: b)[k]? = some p ∧ p.came = none ∧ p.item = x := by
      intro h
      obtain ⟨k, p, rfl, hk, hp⟩ := ih h
      exact ⟨k + 1, p, by omega, by simpa using hk, hp⟩
    cases hq : q.came with
    | none =>
      simp only [pendingFrom, hq, List.mem_cons, Prod.mk.injEq] at h
      rcases h with ⟨rfl, rfl⟩ | h
      · exact ⟨0, q, rfl, rfl, hq, rfl⟩
      · exact hrest h
    | some c =>
      simp only [pendingFrom, hq] at h
      exact hrest h

/-! ## handing on -/

@[simp] theorem items_fresh (b : Batch α) (xs : List α) :
    items (b ++ fresh xs) = b.items ++ xs := by
  simp [items, fresh, Function.comp_def]

@[simp] theorem handles_fresh (b : Batch α) (xs : List α) :
    handles (b ++ fresh xs) = b.handles ++ xs.map fun _ => none := by
  simp [handles, fresh, Function.comp_def]

@[simp] theorem works_fresh (b : Batch α) (xs : List α) : works (b ++ fresh xs) = b.works := by
  simp [works, fresh]

@[simp] theorem append_fresh_nil (b : Batch α) : b ++ fresh [] = b := List.append_nil b

/-- Items that are put behind a batch are awaited behind those that were awaited before. -/
theorem pendingFrom_fresh (n : Nat) (b : Batch α) (xs : List α) :
    pendingFrom n (b ++ fresh xs) =
      pendingFrom n b ++ (xs.zipIdx (n + b.length)).map fun p => (p.2, p.1) := by
  induction b generalizing n with
  | nil =>
    induction xs generalizing n with
    | nil => rfl
    | cons x xs ih =>
      have := ih (n + 1)
      simp_all [fresh, pendingFrom]
  | cons q b ih =>
    have := ih (n + 1)
    rw [show n + 1 + b.length = n + (q :: b).length by simp; omega] at this
    cases hq : q.came <;> simp [pendingFrom, hq, this]

/-! ## reports -/

/-- The reports that have come are due on the work that the items led to. -/
def Due (b : Batch α) (stages : List (Stage α)) : Prop :=
  ∀ p ∈ b, ∀ came, p.came = some came →
    came.2.item = p.item ∧ came.2.Fits stages ∧ came.2.Reports stages came.1

namespace Due

variable {b : Batch α} {stages : List (Stage α)}

theorem nil : Due [] stages := by
  intro p hp
  cases hp

/-- Items that nothing has come of may be put behind. -/
theorem append (h : b.Due stages) (xs : List α) : Due (b ++ fresh xs) stages := by
  intro p hp came hc
  rcases List.mem_append.mp hp with hp | hp
  · exact h p hp came hc
  · obtain ⟨x, -, rfl⟩ := List.mem_map.mp hp
    cases hc

/-- A report that is due may come. -/
theorem complete (h : b.Due stages) {k : Nat} {p : Piece α} (hk : b[k]? = some p)
    {report : Option Report} {w : Work α} (hi : w.item = p.item) (hf : w.Fits stages)
    (hr : w.Reports stages report) : (b.complete k (report, w)).Due stages := by
  intro q hq came hc
  rcases mem_complete hq with hq | ⟨p', hk', rfl⟩
  · exact h q hq came hc
  · cases hk.symm.trans hk'
    cases hc
    exact ⟨hi, hf, hr⟩

/-- Once reports on all items have come, nothing is pending and the reports are
due on the work that was done, in the order of the items. -/
theorem settled {reports : List (Option Report)} (h : outcomes? b.handles = some reports)
    (hb : b.Due stages) (n : Nat) :
    pendingFrom n b = [] ∧ b.works.map Work.item = b.items ∧
      (∀ w ∈ b.works, w.Fits stages) ∧ List.Forall₂ (Work.Reports stages) b.works reports := by
  induction b generalizing n reports with
  | nil =>
    obtain rfl : [] = reports := by simpa [handles, outcomes?] using h
    exact ⟨rfl, rfl, by simp [works], .nil⟩
  | cons p b ih =>
    cases hp : p.came with
    | none => simp [handles, outcomes?, hp] at h
    | some came =>
      obtain ⟨more, hm, rfl⟩ : ∃ more, outcomes? (handles b) = some more ∧
          came.1 :: more = reports := by
        simpa [handles, outcomes?, hp] using h
      obtain ⟨hn, hi, hf, hr⟩ := ih hm (fun q hq => hb q (List.mem_cons_of_mem _ hq)) (n + 1)
      obtain ⟨hpi, hpf, hpr⟩ := hb p List.mem_cons_self came hp
      refine ⟨by simpa [pendingFrom, hp] using hn, ?_, ?_, ?_⟩
      · simpa [works, items, hp, hpi] using hi
      · simpa [works, hp, hpf] using hf
      · simpa [works, hp] using hr.cons hpr

end Due

/-- Otherwise something is pending. -/
theorem pendingFrom_ne_nil {b : Batch α} (h : outcomes? b.handles = none) (n : Nat) :
    pendingFrom n b ≠ [] := by
  induction b generalizing n with
  | nil => simp [handles, outcomes?] at h
  | cons p b ih =>
    cases hp : p.came with
    | none => simp [pendingFrom, hp]
    | some came =>
      have : outcomes? (handles b) = none := by simpa [handles, outcomes?, hp] using h
      simpa [pendingFrom, hp] using ih this (n + 1)

/-! ## jobs -/

/-- The jobs are those of the items nothing has come of, each once. -/
def Awaits (b : Batch α) (jobs : List (Job α)) : Prop :=
  (jobs.map fun j => (j.ticket, j.item)).Perm (b.pendingFrom 0)

namespace Awaits

variable {b : Batch α} {jobs jobs' : List (Job α)} {job : Job α}

/-- In which order jobs are on their way does not matter. -/
theorem perm (h : b.Awaits jobs) (hp : jobs'.Perm jobs) : b.Awaits jobs' :=
  (hp.map _).trans h

/-- As long as an item is awaited a job is on its way. -/
theorem ne_nil (h : b.Awaits jobs) (hb : b.pendingFrom 0 ≠ []) : jobs ≠ [] := by
  rintro rfl
  exact hb h.nil_eq.symm

/-- The item of an awaited job. -/
theorem piece (h : b.Awaits (job :: jobs)) :
    ∃ p, b[job.ticket]? = some p ∧ p.came = none ∧ p.item = job.item := by
  have hm : (job.ticket, job.item) ∈ b.pendingFrom 0 := h.mem_iff.mp (by simp)
  obtain ⟨k, p, hk, hp⟩ := getElem_of_mem_pendingFrom hm
  obtain rfl : job.ticket = k := by omega
  exact ⟨p, hp⟩

/-- A report on a job settles its item; the other jobs are still awaited. -/
theorem complete (h : b.Awaits (job :: jobs)) (came : Option Report × Work α) :
    (b.complete job.ticket came).Awaits jobs := by
  obtain ⟨p, hk, hp, hi⟩ := h.piece
  have hc := pendingFrom_complete 0 came hk hp
  rw [Nat.zero_add, hi] at hc
  exact (h.trans hc).cons_inv

/-- Items that are handed on are awaited. -/
theorem append (h : b.Awaits jobs) (scope : Scope) (xs : List α) :
    (b ++ fresh xs).Awaits
      (jobs ++ (xs.zipIdx b.length).map fun p => ⟨p.1, scope, p.2⟩) := by
  unfold Awaits
  rw [pendingFrom_fresh, List.map_append, List.map_map, Nat.zero_add]
  exact List.Perm.append h (.refl _)

end Awaits

end Batch

/-- A job that is sent stays on its way. -/
theorem Inbox.jobs_send {b b' : Inbox α} {k : Nat} (h : b.send k = some b') :
    b'.jobs.Perm b.jobs := by
  unfold Inbox.send at h
  split at h
  next job hs hk =>
    cases h
    obtain ⟨hl, rfl⟩ := List.getElem?_eq_some_iff.mp hk
    simpa [Inbox.jobs, hs] using List.getElem_cons_eraseIdx_perm hl
  next => cases h

end LintPatrol.Chain
