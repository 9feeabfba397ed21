import LintPatrol.Proofs.Chain.Step

/-!
# LintPatrol.Proofs.Chain.Kept

What holds of each station of a chain, whatever the order of its steps.  It is
enough that it holds after what a station does by itself and after what others
do to it (`Station.Kept`): a step somewhere in the chain is made of these.

## Main statements

* `Station.Kept.stepBelow`: what the stations keep is kept by a step behind the
  source.
* `System.kept_of_moveAt`: and by any step of the chain.
-/

namespace LintPatrol.Chain

open Time

variable {α : Type}

/-! ## what stations keep -/

/-- What the stations keep, each at its time, if the jobs on their way are
right. -/
structure Station.Kept (P : Nat → Station α → Prop) (right : Job α → Prop) : Prop where
  later : ∀ {now later s}, P now s → now ≤ later → P later s
  add : ∀ {now s jobs}, P now s → (∀ job ∈ jobs, right job) →
    P now { s with inbox := s.inbox.add jobs }
  send : ∀ {now s k inbox}, P now s → s.inbox.send k = some inbox → P now { s with inbox }
  hear : ∀ {now s} completions, P now s → P now (s.hear completions)
  does : ∀ {t s m}, P t.now s → s.alive = true → s.Does t m →
    P t.now m.station ∧ ∀ job ∈ m.products, right job

/-- What a station does takes no time. -/
theorem Station.Does.now_eq {t : Timeline} {s : Station α} {m : StationMove α} (h : s.Does t m) :
    m.time.now = t.now := by
  cases h with
  | begins => rfl
  | advances r r' items time current now => exact now
  | crashes => rfl
  | reports => rfl

/-- No step takes time. -/
theorem StepBelow.now_eq {t : Timeline} {stations : List (Station α)} {sink : Sink α} {m : Below α}
    (h : StepBelow t sink stations m) : m.time.now = t.now := by
  induction h with
  | sendSink => rfl
  | receive => rfl
  | send => rfl
  | work s rest m alive does offered => exact does.now_eq
  | further s rest m step ih => exact ih

namespace Station.Kept

variable {P : Nat → Station α → Prop} {right : Job α → Prop} {stations : List (Station α)}

/-- What holds of all stations holds of them when jobs have been offered. -/
theorem offer (hk : Kept P right) {now : Nat} (h : ∀ s ∈ stations, P now s) {jobs : List (Job α)}
    (hj : ∀ job ∈ jobs, right job) (sink : Sink α) :
    ∀ s ∈ (Chain.offer jobs stations sink).1, P now s := by
  rcases offer_cases jobs stations sink with ho | ⟨s, rest, rfl, ho⟩
  · rwa [ho]
  · obtain ⟨hs, hrest⟩ := List.forall_mem_cons.mp h
    rw [ho]
    exact List.forall_mem_cons.mpr ⟨hk.add hs hj, hrest⟩

/-- So it does after a step anywhere behind the source. -/
theorem stepBelow (hk : Kept P right) {t : Timeline} {sink : Sink α} {m : Below α}
    (hm : StepBelow t sink stations m) (h : ∀ s ∈ stations, P t.now s) :
    ∀ s ∈ m.stations, P t.now s := by
  induction hm with
  | sendSink => exact h
  | receive => exact h
  | send s rest k inbox send =>
    obtain ⟨hs, hrest⟩ := List.forall_mem_cons.mp h
    exact List.forall_mem_cons.mpr ⟨hk.send hs send, hrest⟩
  | work s rest m alive does offered =>
    obtain ⟨hs, hrest⟩ := List.forall_mem_cons.mp h
    obtain ⟨hstation, hproducts⟩ := hk.does hs alive does
    have ho := hk.offer hrest hproducts sink
    rw [offered] at ho
    exact List.forall_mem_cons.mpr ⟨hk.hear _ hstation, ho⟩
  | further s rest m step ih =>
    obtain ⟨hs, hrest⟩ := List.forall_mem_cons.mp h
    exact List.forall_mem_cons.mpr ⟨hk.hear _ hs, ih hrest⟩

end Station.Kept

/-! ## the source -/

namespace System

variable {s s' : System α}

/-- What a step of the source leads to. -/
structure Offers (s s' : System α) : Prop where
  root_eq : s'.root = s.root
  now_eq : s'.time.now = s.time.now
  cancelled : s'.time.cancelled = s.time.cancelled
  scheduled : ∀ c ∈ s'.time.scheduled, c ∈ s.time.scheduled ∨ c.2 = s.root.token
  stations : s'.stations = s.stations ∨ ∃ job, s.root.token <:+ job.scope.token ∧
    s'.stations = (offer [job] s.stations s.sink).1

/-- A source that changes nothing but where it stands. -/
theorem Offers.of_source (source : Source α) : s.Offers { s with source } :=
  ⟨rfl, rfl, rfl, fun _ => .inl, .inl rfl⟩

theorem Offers.of_emit {time : Timeline} {job : Job α} (hnow : time.now = s.time.now)
    (hcancelled : time.cancelled = s.time.cancelled)
    (hscheduled : ∀ c ∈ time.scheduled, c ∈ s.time.scheduled ∨ c.2 = s.root.token)
    (hjob : s.root.token <:+ job.scope.token) (source : Source α) :
    s.Offers (s.emit time source job) :=
  ⟨rfl, hnow, hcancelled, hscheduled, .inr ⟨job, hjob, rfl⟩⟩

/-- A source offers at most one job at a time, whose scope descends from that
of the chain. -/
theorem offers_of_moveSource (hm : s.moveSource = some s') : s.Offers s' := by
  unfold moveSource at hm
  split at hm
  next e plan outcomes hs =>
    cases hm
    refine .of_emit ?_ ?_ ?_ ?_ _
    · cases e.cancelAfter <;> cases e.timeout <;> rfl
    · cases e.cancelAfter <;> cases e.timeout <;> rfl
    · cases e.cancelAfter with
      | none => cases e.timeout <;> exact fun _ => .inl
      | some delay =>
        have hscheduled : ∀ c ∈ (s.time.cancelAfter delay s.root.token).scheduled,
            c ∈ s.time.scheduled ∨ c.2 = s.root.token := by
          intro c hc
          refine (List.mem_append.mp hc).imp_right fun hc => ?_
          rw [List.mem_singleton.mp hc]
        cases e.timeout <;> exact hscheduled
    · cases e.timeout with
      | none => exact List.suffix_rfl
      | some timeout => exact List.suffix_cons ..
  next => cases hm
  next item failDelay successDelay pace hs =>
    cases pace with
    | ready =>
      simp only at hm
      split at hm <;> cases hm
      · exact .of_source _
      · exact .of_emit rfl rfl (fun _ => .inl) List.suffix_rfl _
    | resting m =>
      simp only at hm
      split at hm
      · cases hm
        exact .of_source _
      · split at hm <;> cases hm
        exact .of_source _
    | waiting => cases hm
    | stopped => cases hm

/-! ## all steps -/

variable {P : Nat → Station α → Prop} {right : Job α → Prop}

/-- A step keeps what the stations keep. -/
theorem kept_of_moveAt (hk : Station.Kept P right)
    (hright : ∀ job, s.root.token <:+ job.scope.token → right job) {choice : Choice}
    (hm : s.moveAt choice = some s') (h : ∀ st ∈ s.stations, P s.time.now st) :
    ∀ st ∈ s'.stations, P s'.time.now st := by
  cases choice with
  | source =>
    have ho := offers_of_moveSource hm
    rw [ho.now_eq]
    rcases ho.stations with hs | ⟨job, hjob, hs⟩
    · rwa [hs]
    · rw [hs]
      exact hk.offer h (List.forall_mem_singleton.mpr (hright job hjob)) s.sink
  | place i step =>
    obtain ⟨m, hm', rfl⟩ := Option.map_eq_some_iff.mp hm
    have hbelow := stepBelow_of_moveBelow hm'
    show ∀ st ∈ m.stations, P m.time.now st
    rw [hbelow.now_eq]
    exact hk.stepBelow hbelow h

/-- The passing of time keeps what holds of all stations. -/
theorem kept_of_wait (hk : Station.Kept P right) (moment : Nat)
    (h : ∀ st ∈ s.stations, P s.time.now st) :
    ∀ st ∈ (s.wait moment).stations, P (s.wait moment).time.now st :=
  fun st hst => hk.later (h st hst) (Nat.le_max_left ..)

end System

end LintPatrol.Chain
