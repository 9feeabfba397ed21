import LintPatrol.Proofs.Chain.Accounting
import LintPatrol.Proofs.Chain.Order
import LintPatrol.Proofs.Chain.Progress

/-!
# LintPatrol.Proofs.Chain.Completion

What every schedule of a chain leads to.  A chain whose source follows a plan
works on one item of it at a time (`System.Processes`): every item before has
been reported on, and the work on it has been done.

So long as the source is not done some step can be made, and no schedule goes
on for ever; hence every schedule that is not broken off leads to the report on
the last item, unless a body waits for the end of a scope that does not end.

## Main statements

* `System.script_completes`: whatever the schedule, the chain completes what
  its source emits.
* `System.runFor_reaches`: the chain as it is run follows one of the schedules.
-/

namespace LintPatrol.Chain

variable {α : Type}

/-! ## what is accounted for at the end -/

namespace Accounted

variable {sink : Sink α} {stations : List (Station α)} {b : Batch α} {done : List (Work α)}

theorem jobs_eq_nil {jobs : List (Job α)} (h : Batch.Awaits [] jobs) : jobs = [] :=
  List.map_eq_nil_iff.mp h.eq_nil

/-- Where nothing is awaited, nothing is on its way or being worked on. -/
theorem idle (h : Accounted sink stations [] done) :
    (∀ s ∈ stations, s.isIdle = true) ∧ sink.inbox.isEmpty = true := by
  induction stations generalizing done with
  | nil =>
    cases h with
    | sink _ _ awaits =>
      exact ⟨fun _ h => absurd h List.not_mem_nil,
        (Inbox.isEmpty_iff _).mpr (jobs_eq_nil awaits)⟩
  | cons s rest ih =>
    cases h with
    | station _ _ _ awaits _ busy _ accounted =>
      have hj := jobs_eq_nil awaits
      have hc : s.current = none := by
        cases hc : s.current with
        | none => rfl
        | some r => simp [Station.jobs, hc] at hj
      obtain rfl := busy.eq_nil hc
      obtain ⟨hrest, hsink⟩ := ih accounted
      exact ⟨List.forall_mem_cons.mpr ⟨s.isIdle_iff.mpr ⟨hc, hj⟩, hrest⟩, hsink⟩

/-- Behind a station that works on nothing, nothing is on its way or being
worked on. -/
theorem idle_behind {before behind : List (Station α)} {s : Station α}
    (h : Accounted sink (before ++ s :: behind) b done) (hc : s.current = none) :
    (∀ s' ∈ behind, s'.isIdle = true) ∧ sink.inbox.isEmpty = true := by
  induction before generalizing b done with
  | nil =>
    cases h with
    | station _ _ _ _ _ busy _ accounted =>
      obtain rfl := busy.eq_nil hc
      exact accounted.idle
  | cons _ _ ih =>
    cases h with
    | station _ _ _ _ _ _ _ accounted => exact ih accounted

/-- What a station has done for the jobs before, the next one has done its part
for. -/
theorem parts_perm {s : Station α} {rest : List (Station α)}
    (h : Accounted sink (s :: rest) [] done) :
    s.records = s.past.reverse ∧ ∃ below, below.Perm (done.flatMap Work.parts) ∧
      Accounted sink rest [] below := by
  have hi := (s.isIdle_iff.mp (h.idle.1 s List.mem_cons_self)).1
  cases h with
  | @station _ _ _ _ _ below _ _ _ _ _ busy parts accounted =>
    obtain rfl := busy.eq_nil hi
    refine ⟨by simp [Station.records, hi], below, ?_, accounted⟩
    rwa [Batch.works, List.filterMap_nil, List.append_nil] at parts

/-- Once nothing is awaited, the runs at each station are those that the work
needs there. -/
theorem levels (h : Accounted sink stations [] done) {i : Nat} {s : Station α}
    (hs : stations[i]? = some s) :
    (s.records.map fun r => (r.item, r.finish.map Prod.snd)).Perm
      ((done.flatMap (Work.level i)).map fun w => (w.item, some w.own.isNone)) := by
  induction stations generalizing i done with
  | nil => cases hs
  | cons s' rest ih =>
    obtain ⟨hrecords, below, hbelow, hrest⟩ := h.parts_perm
    cases i with
    | zero =>
      obtain rfl : s' = s := by simpa using hs
      have hlevel : done.flatMap (Work.level 0) = done := by simp [Work.level]
      rw [hrecords, hlevel]
      cases h with
      | station _ _ _ _ tells => exact ((List.reverse_perm _).map _).trans tells
    | succ i =>
      have hlevel : done.flatMap (Work.level (i + 1)) =
          (done.flatMap Work.parts).flatMap (Work.level i) := by
        rw [List.flatMap_assoc]
        rfl
      rw [hlevel]
      exact (ih hrest hs).trans ((hbelow.flatMap_right _).map _)

/-- When nothing is awaited the sink has got the items of the work as many levels down
as there are stations. -/
theorem level_sink (h : Accounted sink stations [] done) :
    (sink.records.map SinkRecord.item).Perm
      ((done.flatMap (Work.level stations.length)).map Work.item) := by
  induction stations generalizing done with
  | nil =>
    cases h with
    | sink _ _ _ tells => simpa [Work.level] using tells
  | cons s rest ih =>
    obtain ⟨-, below, hbelow, hrest⟩ := h.parts_perm
    have hlevel : done.flatMap (Work.level (rest.length + 1)) =
        (done.flatMap Work.parts).flatMap (Work.level rest.length) := by
      rw [List.flatMap_assoc]
      rfl
    rw [List.length_cons, hlevel]
    exact (ih hrest).trans ((hbelow.flatMap_right _).map _)

end Accounted

/-! ## schedules -/

namespace System

/-- The chain processes the items of a plan: `works` is what was done for those
that have been reported on, and the batch is the one it works on. -/
structure Processes (plan : List (Emission α)) (stages : List (Stage α)) (s : System α)
    (left : List (Emission α)) (waiting : Bool) (outcomes : List Outcome) (works : List (Work α))
    (b : Batch α) : Prop where
  source_eq : s.source = .script left waiting outcomes
  stages_eq : s.stations.map Station.stage = stages
  awaited : if waiting then ∃ x, b = [⟨x, none⟩] else b = []
  plan_eq : plan.map Emission.item = works.map Work.item ++ b.items ++ left.map Emission.item
  fits : ∀ w ∈ works, w.Fits stages
  reports : List.Forall₂ (fun w o => w.Reports stages o.report) works outcomes
  accounted : ∃ done, done.Perm works ∧ Accounted s.sink s.stations b done

/-- A chain that has nothing to do yet. -/
theorem accounted_idle {stages : List (Stage α)}
    (hs : ∀ st ∈ stages, ∀ item k, .crash ∉ st.body item k) :
    Accounted Sink.drain (stages.map Station.idle) [] [] := by
  induction stages with
  | nil => exact .sink ⟨rfl, fun _ => rfl⟩ .nil (.refl _) (.refl _)
  | cons st stages ih =>
    obtain ⟨hst, hstages⟩ := List.forall_mem_cons.mp hs
    exact .station rfl hst .nil (.refl _) (.refl _) rfl (.refl _) (ih hstages)

namespace Processes

variable {plan left : List (Emission α)} {stages : List (Stage α)} {s s' : System α}
  {waiting : Bool} {outcomes : List Outcome} {works : List (Work α)} {b : Batch α}

/-- At the start nothing has been emitted. -/
theorem start (root : Scope) (time : Timeline)
    (hs : ∀ st ∈ stages, ∀ item k, .crash ∉ st.body item k) :
    Processes plan stages (.script root time plan stages) plan false [] [] [] where
  source_eq := rfl
  stages_eq := by simp [System.script, Station.idle, Function.comp_def]
  awaited := rfl
  plan_eq := rfl
  fits _ h := absurd h List.not_mem_nil
  reports := .nil
  accounted := ⟨[], .refl _, accounted_idle hs⟩

/-- The passing of time changes nothing of what has been done. -/
theorem wait (h : Processes plan stages s left waiting outcomes works b) (moment : Nat) :
    Processes plan stages (s.wait moment) left waiting outcomes works b :=
  ⟨h.source_eq, h.stages_eq, h.awaited, h.plan_eq, h.fits, h.reports, h.accounted⟩

/-- The source sends the next item down the chain. -/
theorem emit {e : Emission α}
    (h : Processes plan stages s (e :: left) false outcomes works b) (time : Timeline)
    (scope : Scope) :
    Processes plan stages (s.emit time (.script left true outcomes) ⟨e.item, scope, 0⟩) left true
      outcomes works [⟨e.item, none⟩] := by
  obtain rfl : b = [] := h.awaited
  obtain ⟨done, hdone, hacc⟩ := h.accounted
  rcases ho : offer [⟨e.item, scope, 0⟩] s.stations s.sink with ⟨stations, sink, dropped⟩
  obtain ⟨hstages, rfl, hacc'⟩ := hacc.offer scope [e.item] ho
  have hs : s.emit time (.script left true outcomes) ⟨e.item, scope, 0⟩ =
      { s with time, stations, sink, source := .script left true outcomes } := by
    unfold System.emit
    rw [ho]
    rfl
  rw [hs]
  exact
    { source_eq := rfl
      stages_eq := hstages.trans h.stages_eq
      awaited := ⟨e.item, rfl⟩
      plan_eq := by simpa [Batch.items] using h.plan_eq
      fits := h.fits
      reports := h.reports
      accounted := ⟨done, hdone, hacc'⟩ }

/-- A step is made behind the source. -/
theorem place {i : Nat} {step : Step} {m : Below α}
    (h : Processes plan stages s left waiting outcomes works b)
    (hm : moveBelow s.time step i s.stations s.sink = some m) :
    ∃ waiting outcomes works b,
      Processes plan stages
        { s with
          time := m.time
          stations := m.stations
          sink := m.sink
          source := s.source.receiveAll m.time s.root m.completions }
        left waiting outcomes works b := by
  obtain ⟨done, hdone, hacc⟩ := h.accounted
  cases hacc.step (stepBelow_of_moveBelow hm) with
  | quiet hstages completions hacc' =>
    refine ⟨waiting, outcomes, works, b, ?_, hstages.trans h.stages_eq, h.awaited, h.plan_eq,
      h.fits, h.reports, done, hdone, hacc'⟩
    rw [completions]
    exact h.source_eq
  | completes c p w hstages completions piece pending hacc' =>
    -- the only item that is awaited is the one that the source has sent
    obtain ⟨x, rfl, hk⟩ : ∃ x, b = [⟨x, none⟩] ∧ c.ticket = 0 := by
      have ha := h.awaited
      cases waiting with
      | false =>
        obtain rfl : b = [] := ha
        cases piece
      | true =>
        obtain ⟨x, rfl⟩ : ∃ x, b = [⟨x, none⟩] := ha
        exact ⟨x, rfl, by simpa using (List.getElem?_eq_some_iff.mp piece).1⟩
    rw [hk] at hacc'
    obtain ⟨hi, hf, hr⟩ := hacc'.due ⟨x, some (c.report, w)⟩ (by simp [Batch.complete]) _ rfl
    rw [hstages, h.stages_eq] at hf hr
    refine ⟨false, outcomes ++ [⟨c.report, m.time.now⟩], works ++ [w], [], ?_⟩
    exact
      { source_eq := by rw [completions, h.source_eq]; rfl
        stages_eq := hstages.trans h.stages_eq
        awaited := rfl
        plan_eq := by simpa [Batch.items, hi] using h.plan_eq
        fits := by
          intro v hv
          rcases List.mem_append.mp hv with hv | hv
          · exact h.fits v hv
          · rwa [List.mem_singleton.mp hv]
        reports := List.rel_append h.reports (.cons hr .nil)
        accounted := ⟨w :: done, (hdone.cons w).trans (List.perm_append_singleton w works).symm,
          hacc'.settle rfl⟩ }

/-- **A step of the chain keeps to the plan.** -/
theorem moveAt {choice : Choice} (h : Processes plan stages s left waiting outcomes works b)
    (hm : s.moveAt choice = some s') :
    ∃ left waiting outcomes works b, Processes plan stages s' left waiting outcomes works b := by
  cases choice with
  | source =>
    obtain ⟨rfl, e, left, time, scope, rfl, rfl⟩ := emits_of_moveSource h.source_eq hm
    exact ⟨left, true, outcomes, works, _, h.emit time scope⟩
  | place i step =>
    obtain ⟨m, hm', rfl⟩ := Option.map_eq_some_iff.mp hm
    exact ⟨left, h.place hm'⟩

end Processes

end System

/-! ## all schedules -/

namespace System

variable {plan left : List (Emission α)} {stages : List (Stage α)} {s s' : System α}
  {waiting : Bool} {outcomes : List Outcome} {works : List (Work α)} {b : Batch α}

/-- Every schedule keeps to the plan. -/
theorem Reaches.processes {root : Scope} {time : Timeline}
    (hs : ∀ st ∈ stages, ∀ item k, .crash ∉ st.body item k)
    (h : Reaches (.script root time plan stages) s) :
    ∃ left waiting outcomes works b, Processes plan stages s left waiting outcomes works b := by
  induction h with
  | refl => exact ⟨_, _, _, _, _, .start root time hs⟩
  | move choice _ hm ih =>
    obtain ⟨left, waiting, outcomes, works, b, h⟩ := ih
    exact h.moveAt hm
  | wait moment _ ih =>
    obtain ⟨left, waiting, outcomes, works, b, h⟩ := ih
    exact ⟨_, _, _, _, _, h.wait moment⟩

/-- A step can be made some time, as long as the source is not done. -/
theorem Processes.progress (h : Processes plan stages s left waiting outcomes works b)
    (hd : s.source.isDone = false) :
    (∃ moment choice, ((s.wait moment).moveAt choice).isSome = true) ∨
      ∃ st ∈ s.stations, AwaitsForever s.time st := by
  rw [h.source_eq] at hd
  cases waiting with
  | true =>
    obtain ⟨x, rfl⟩ : ∃ x, b = [⟨x, none⟩] := h.awaited
    obtain ⟨done, -, hacc⟩ := h.accounted
    rcases hacc.progress (by simp [Batch.pendingFrom]) s.time with ⟨moment, i, step, hm⟩ | hw
    · exact .inl ⟨moment, .place i step, by simpa [System.moveAt, System.wait] using hm⟩
    · exact .inr hw
  | false =>
    cases left with
    | nil => cases hd
    | cons e left =>
      refine .inl ⟨s.time.now, .source, ?_⟩
      simp [System.moveAt, System.moveSource, System.wait, h.source_eq]

/-! ## one schedule -/

/-- Runs can be put one behind the other. -/
theorem Reaches.trans {s₁ s₂ s₃ : System α} (h : Reaches s₁ s₂) (h' : Reaches s₂ s₃) :
    Reaches s₁ s₃ := by
  induction h' with
  | refl => exact h
  | move choice _ hm ih => exact .move choice ih hm
  | wait moment _ ih => exact .wait moment ih

/-- The order in which `runFor` makes steps is one of the schedules. -/
theorem runFor_reaches (steps : Nat) (s : System α) : Reaches s (s.runFor steps) := by
  induction steps generalizing s with
  | zero => exact .refl
  | succ steps ih =>
    unfold runFor
    split
    · exact .refl
    · cases hm : s.move with
      | some s' =>
        obtain ⟨choice, -, hc⟩ := List.exists_of_findSome?_eq_some hm
        exact (Reaches.move choice .refl hc).trans (ih s')
      | none =>
        simp only
        split
        · exact .refl
        · cases s.nextMoment? with
          | none => exact .refl
          | some m => exact (Reaches.wait m .refl).trans (ih (s.wait m))

/-! ## what a schedule leads to -/

/-- The report on an item tells what became of it: it is empty just if no body
failed, and otherwise holds the failures of the bodies, depth first. -/
structure Answers (stages : List (Stage α)) (w : Work α) (report : Option Report) : Prop where
  isNone : report = none ↔ ∀ i, ∀ v ∈ w.level i, v.own = none
  leaves : List.Forall₂ Work.Blames (leaves report) (w.failures stages)

/-- The work has been done: nothing is on its way or being worked on, and at
each place the runs are those that the work needs there, each once and each at
its end. -/
structure Worked (stages : List (Stage α)) (s : System α) (works : List (Work α)) : Prop where
  idle : (∀ st ∈ s.stations, st.isIdle = true) ∧ s.sink.inbox.isEmpty = true
  fits : ∀ w ∈ works, w.Fits stages
  runs : ∀ (i : Nat) (st : Station α), s.stations[i]? = some st →
    (st.records.map fun r => (r.item, r.finish.map Prod.snd)).Perm
      ((works.flatMap (Work.level i)).map fun w => (w.item, some w.own.isNone))
  drained : (s.sink.records.map SinkRecord.item).Perm
    ((works.flatMap (Work.level s.stations.length)).map Work.item)

/-- The chain completes what its source emits. -/
structure Completes (plan : List (Emission α)) (stages : List (Stage α)) (s : System α) :
    Prop where
  /-- The runs of one station do not overlap. -/
  apart : ∀ st ∈ s.stations, st.records.Pairwise RunRecord.Before
  /-- A station that begins with a job has reported on all jobs before, and
  nothing that they led to is on its way or being worked on. -/
  begins : ∀ choice s' before behind (st st' : Station α), s.stations = before ++ st :: behind →
    s.moveAt choice = some s' → s'.stations[before.length]? = some st' →
    st.records.length < st'.records.length →
    st.current = none ∧ (∀ later ∈ behind, later.isIdle = true) ∧ s.sink.inbox.isEmpty = true
  /-- As long as the source is not done some step can be made, at once or after
  some time, unless a body waits for ever. -/
  goesOn : s.source.isDone = false →
    (∃ moment choice, ((s.wait moment).moveAt choice).isSome = true) ∨
      ∃ st ∈ s.stations, AwaitsForever s.time st
  /-- Only finitely many steps can be made. -/
  ends : ¬ ∃ f : Nat → System α, f 0 = s ∧ ∀ n, (f n).Next (f (n + 1))
  /-- When the source has the report on the last item that it emitted, the work
  on all of them has been done, and each report tells what became of its
  item. -/
  returned : ∀ left outcomes, s.source = .script left false outcomes →
    ∃ works, plan.map Emission.item = works.map Work.item ++ left.map Emission.item ∧
      Worked stages s works ∧
      List.Forall₂ (fun w o => Answers stages w o.report) works outcomes

/-- A station that begins with a job has worked on none, and everything behind it is idle. -/
theorem Processes.begins {choice : Choice} {before behind : List (Station α)} {st st' : Station α}
    (h : Processes plan stages s left waiting outcomes works b)
    (hs : s.stations = before ++ st :: behind) (hm : s.moveAt choice = some s')
    (hs' : s'.stations[before.length]? = some st')
    (hr : st.records.length < st'.records.length) :
    st.current = none ∧ (∀ later ∈ behind, later.isIdle = true) ∧ s.sink.inbox.isEmpty = true := by
  have hc := moveAt_begins hm (by simp [hs]) hs' hr
  obtain ⟨done, -, hacc⟩ := h.accounted
  rw [hs] at hacc
  exact ⟨hc, hacc.idle_behind hc⟩

/-- When the source awaits nothing, all works are finished. -/
theorem Processes.worked (h : Processes plan stages s left false outcomes works b) :
    Worked stages s works := by
  obtain rfl : b = [] := h.awaited
  obtain ⟨done, hdone, hacc⟩ := h.accounted
  refine ⟨hacc.idle, h.fits, fun i st hi => ?_, ?_⟩
  · exact (hacc.levels hi).trans ((hdone.flatMap_right _).map _)
  · exact hacc.level_sink.trans ((hdone.flatMap_right _).map _)

/-- Each report is that of the work it is about. -/
theorem Processes.answers (h : Processes plan stages s left waiting outcomes works b) :
    List.Forall₂ (fun w o => Answers stages w o.report) works outcomes := by
  have hfits := h.fits
  have hreports := h.reports
  clear h
  induction hreports with
  | nil => exact .nil
  | @cons w o _ _ hr _ ih =>
    obtain ⟨hf, hfits⟩ := List.forall_mem_cons.mp hfits
    exact .cons ⟨hr.eq_none_iff.trans hf.failures_eq_nil_iff, hr.leaves⟩ (ih hfits)

/-- **Whatever the schedule, a chain completes what its source emits.** -/
theorem script_completes {root : Scope} {time : Timeline}
    (hs : ∀ st ∈ stages, ∀ item k, .crash ∉ st.body item k)
    (h : Reaches (.script root time plan stages) s) : Completes plan stages s := by
  obtain ⟨left, waiting, outcomes, works, b, hp⟩ := h.processes hs
  have ht : AllTimely s.time.now s.stations := by
    refine h.timely fun st hst => ?_
    obtain ⟨stage, -, rfl⟩ := List.mem_map.mp hst
    exact .idle stage _
  exact
    { apart := fun st hst => (ht st hst).records
      begins := fun _ _ _ _ _ _ => hp.begins
      goesOn := hp.progress
      ends := not_next_forever hp.source_eq
      returned := by
        intro left' outcomes' he
        cases hp.source_eq.symm.trans he
        exact ⟨works, by simpa [show b = [] from hp.awaited, Batch.items] using hp.plan_eq,
          hp.worked, hp.answers⟩ }

/-- Two stages: the first one hands on a number and the next one, and fails;
the second one fails with an even number. -/
def splitThenCheck : List (Stage Nat) :=
  [⟨"split", .ofSeconds 1, fun n _ => [.produce [n, n + 1], .fail (.plain "split")]⟩,
   ⟨"check", .ofSeconds 1, fun n _ =>
      if n % 2 = 0 then [.fail (.plain "even")] else [.sleep 5]⟩]

/-- One stage splits an item into two, and the other one fails on the even of them. -/
theorem script_completes_split :
    let s := (script ⟨[0], none⟩ .start [⟨3, none, none⟩] splitThenCheck).runFor 20
    (∀ st ∈ splitThenCheck, ∀ item k, .crash ∉ st.body item k) ∧ s.isDone = true ∧
      (s.stations.map fun st => st.records.map RunRecord.item) = [[3], [3, 4]] ∧
      Completes [⟨3, none, none⟩] splitThenCheck s := by
  have hs : ∀ st ∈ splitThenCheck, ∀ item k, .crash ∉ st.body item k := by
    simp only [splitThenCheck, List.forall_mem_cons]
    refine ⟨fun item k => by simp, fun item k => ?_, fun st h => absurd h List.not_mem_nil⟩
    split <;> simp
  exact ⟨hs, rfl, rfl, script_completes hs (runFor_reaches 20 _)⟩

end System

end LintPatrol.Chain
