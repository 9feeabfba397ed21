import LintPatrol.Proofs.Chain.Batch

/-!
# LintPatrol.Proofs.Chain.Accounting

What a chain accounts for at each moment, whatever the order of its steps.  A
place has been given a batch of items.  Those it has not reported on are on
their way to it or being worked on there, and those that the body at work has
handed on are in turn the batch of the next place (`Accounted`).

A step at one place keeps account of the items at that place, and looks to the
places before it like a report on one of their items, or like nothing at all
(`Steps`).

## Main statements

* `Station.Does.serves`: what a station does for its batch.
* `Accounted.step`: a step keeps account of the items and of the work.
-/

namespace LintPatrol.Chain

variable {α : Type}

/-! ## one run -/

/-- What is left of the acts of a body that pauses, where the items of the
batch have been handed on: whatever is left may come to, the acts may come to
along with what has been handed on already. -/
structure Remains (acts : List (Act α)) (b : Batch α) (pause : Pause) (left : List (Act α)) :
    Prop where
  suffix : left <:+ acts
  awaits : pause = .expiry → .awaitExpiry ∈ acts
  expires : ∀ m, pause = .scopeSleeping m →
    Yields acts b.items (some (.plain Scope.expiredMessage))
  yields : ∀ items own, Yields left items own → Yields acts (b.items ++ items) own

/-- The run has come so far with the acts of its body, and the batch is what it
has handed on. -/
structure Run.Follows (r : Run α) (acts : List (Act α)) (b : Batch α) : Prop where
  handles : r.handles = b.handles
  item : r.record.item = r.job.item
  working : ∀ pause left, r.phase = .working pause left →
    Remains acts b pause left ∧ r.record.finish = none
  joining : ∀ own, r.phase = .joining own →
    Yields acts b.items own ∧ ∃ m, r.record.finish = some (m, own.isNone)

namespace Remains

variable {acts : List (Act α)} {b : Batch α} {pause : Pause} {left : List (Act α)}

/-- At first all acts are left. -/
theorem start (acts : List (Act α)) : Remains acts [] .ready acts where
  suffix := List.suffix_rfl
  awaits h := by cases h
  expires _ h := by cases h
  yields _ _ hy := hy

/-- A quiet act passes, and leaves the pause that it leads to. -/
theorem pass {act : Act α} (h : Remains acts b pause (act :: left)) (hq : act.isQuiet = true)
    {next : Pause} (hn : act.LeadsTo next) : Remains acts b next left where
  suffix := (List.suffix_cons ..).trans h.suffix
  awaits := by
    rintro rfl
    obtain rfl : act = .awaitExpiry := hn
    exact h.suffix.mem List.mem_cons_self
  expires := by
    rintro m rfl
    obtain ⟨length, rfl⟩ := hn
    simpa using h.yields [] _ (.expire length left)
  yields items own hy := h.yields items own (.pass hq hy)

/-- Items that are handed on come behind those that were before. -/
theorem produce {items : List α} (h : Remains acts b pause (.produce items :: left)) :
    Remains acts (b ++ Batch.fresh items) .ready left where
  suffix := (List.suffix_cons ..).trans h.suffix
  awaits h := by cases h
  expires _ h := by cases h
  yields more own hy := by
    rw [Batch.items_fresh, List.append_assoc]
    exact h.yields _ own (.produce items hy)

/-- If the body ends, its acts have come to what has been handed on. -/
theorem ends {t : Timeline} {scope : Scope} {own : Option Failure}
    (h : Remains acts b pause left) (he : Ends t scope pause left own) :
    Yields acts b.items own := by
  have hy : Yields left [] own → Yields acts b.items own := fun hy => by
    simpa using h.yields [] own hy
  cases he with
  | nothing => exact hy .nil
  | fail pause reason left => exact hy (.fail reason left)
  | late pause length left => exact hy (.expire length left)
  | woken moment => exact h.expires moment rfl

end Remains

namespace Run.Follows

variable {r : Run α} {acts : List (Act α)} {b : Batch α} {pause : Pause} {left : List (Act α)}

/-- The body ends. -/
theorem finish (h : r.Follows acts b) {own : Option Failure} (hy : Yields acts b.items own)
    (now : Nat) : (r.finish now own).Follows acts b := by
  refine ⟨h.handles, h.item, fun _ _ hp => ?_, fun _ hp => ?_⟩
  · cases hp
  · cases hp
    exact ⟨hy, now, rfl⟩

/-- **A body that goes on follows its acts**, and what it hands on comes to the
batch. -/
theorem advance {t : Timeline} {r' : Run α} {items : List α} (h : r.Follows acts b)
    (ha : r.Advances t r' items) : r'.Follows acts (b ++ Batch.fresh items) := by
  cases ha with
  | ends phase ends =>
    rw [Batch.append_fresh_nil]
    exact h.finish ((h.working _ _ phase).1.ends ends) t.now
  | passes next probe phase quiet leads =>
    obtain ⟨hr, hf⟩ := h.working _ _ phase
    rw [Batch.append_fresh_nil]
    refine ⟨h.handles, h.item, fun _ _ hp => ?_, fun _ hp => ?_⟩
    · cases hp
      exact ⟨hr.pass quiet leads, hf⟩
    · cases hp
  | produces items phase =>
    obtain ⟨hr, hf⟩ := h.working _ _ phase
    refine ⟨?_, h.item, fun _ _ hp => ?_, fun _ hp => ?_⟩
    · rw [Batch.handles_fresh, h.handles]
    · cases hp
      exact ⟨hr.produce, hf⟩
    · cases hp

/-- A report is heard. -/
theorem hear (h : r.Follows acts b) (c : Completion) (w : Work α) :
    (r.hear c).Follows acts (b.complete c.ticket (c.report, w)) := by
  refine ⟨?_, h.item, fun pause left hp => ?_, fun own hp => ?_⟩
  · rw [Batch.handles_complete, ← h.handles]
    rfl
  · obtain ⟨⟨hs, ha, he, hy⟩, hf⟩ := h.working pause left hp
    exact ⟨⟨hs, ha, by rwa [Batch.items_complete], by rwa [Batch.items_complete]⟩, hf⟩
  · rw [Batch.items_complete]
    exact h.joining own hp

end Run.Follows

/-! ## one station -/

namespace Station

/-- The batch is what the station has handed on for the job it works on; there
is none if it works on nothing. -/
def Busy (s : Station α) (b : Batch α) : Prop :=
  match s.current with
  | none => b = []
  | some r => ∃ k, r.Follows (s.stage.body r.job.item k) b

/-- A station that works on nothing has handed on nothing. -/
theorem Busy.eq_nil {s : Station α} {b : Batch α} (h : s.Busy b) (hc : s.current = none) :
    b = [] := by
  unfold Busy at h
  rwa [hc] at h

/-- A station that works on a job has come so far with the acts of its body. -/
theorem Busy.follows {s : Station α} {b : Batch α} {r : Run α} (h : s.Busy b)
    (hc : s.current = some r) : ∃ k, r.Follows (s.stage.body r.job.item k) b := by
  unfold Busy at h
  rwa [hc] at h

theorem busy_of_follows {s : Station α} {b : Batch α} {r : Run α} {k : Nat}
    (hc : s.current = some r) (h : r.Follows (s.stage.body r.job.item k) b) : s.Busy b := by
  unfold Busy
  rw [hc]
  exact ⟨k, h⟩

/-- What is noted of former jobs is what was done at the roots of the work. -/
def Tells (s : Station α) (done : List (Work α)) : Prop :=
  (s.past.map fun r => (r.item, r.finish.map Prod.snd)).Perm
    (done.map fun w => (w.item, some w.own.isNone))

/-- When a station reports on its job, what it notes of it tells of one more piece of work. -/
theorem Tells.cons {s : Station α} {done : List (Work α)} {r : Run α} {w : Work α}
    (h : s.Tells done)
    (record : (r.record.item, r.record.finish.map Prod.snd) = (w.item, some w.own.isNone)) :
    Tells { s with current := none, past := r.record :: s.past } (w :: done) := by
  simp only [Tells, List.map_cons, record]
  exact List.Perm.cons _ h

/-- What a station that does not go down does for the batch. -/
inductive Serves (s : Station α) (b : Batch α) : StationMove α → Prop
  | goesOn (items : List α) (scope : Scope) (time : Timeline) (s' : Station α)
    (stage : s'.stage = s.stage) (alive : s'.alive = s.alive) (past : s'.past = s.past)
    (jobs : s'.jobs.Perm s.jobs) (busy : s'.Busy (b ++ Batch.fresh items)) :
    s.Serves b
      { time
        station := s'
        products := (items.zipIdx b.length).map fun p => ⟨p.1, scope, p.2⟩ }
  | reports (r : Run α) (own : Option Failure) (reports : List (Option Report)) (k : Nat)
    (stageExpired itemExpired : Bool) (time : Timeline) (current : s.current = some r)
    (came : outcomes? b.handles = some reports)
    (yields : Yields (s.stage.body r.job.item k) b.items own)
    (record : (r.record.item, r.record.finish.map Prod.snd) = (r.job.item, some own.isNone)) :
    s.Serves b
      { time
        station := { s with current := none, past := r.record :: s.past }
        completions := [⟨r.job.ticket,
          reportOf (own.map (blame s.stage.name s.stage.timeout stageExpired itemExpired))
            reports⟩] }

variable {s : Station α} {b : Batch α}

/-- The station hears a report on what it handed on. -/
theorem Busy.hear (h : s.Busy b) {c : Completion} {p : Piece α} (hp : b[c.ticket]? = some p)
    (w : Work α) : (s.hear [c]).Busy (b.complete c.ticket (c.report, w)) := by
  cases hc : s.current with
  | none =>
    obtain rfl := h.eq_nil hc
    cases hp
  | some r =>
    obtain ⟨k, hf⟩ := h.follows hc
    have hcur : (s.hear [c]).current = some (r.hear c) := by simp [Station.hear, hc]
    exact busy_of_follows hcur (hf.hear c w)

/-- A station that begins with a job serves, having handed on nothing. -/
theorem serves_begin {job : Job α} {inbox : Inbox α} (hc : s.current = none)
    (hi : s.inbox.receive = some (job, inbox)) (t : Timeline) :
    s.Serves [] (begin t s job inbox) := by
  have hjobs : s.jobs = job :: inbox.jobs := by rw [jobs, hc, ← Inbox.jobs_receive hi]; rfl
  refine .goesOn [] default _ _ rfl rfl rfl ?_ ⟨s.past.length, rfl, rfl, ?_, ?_⟩
  · rw [hjobs]
    exact .refl _
  · rintro _ _ ⟨⟩
    exact ⟨.start _, rfl⟩
  · intro own h
    cases h

/-- **All that a station does is for its batch**, if it does not go down. -/
theorem Does.serves {t : Timeline} {m : StationMove α} (h : s.Does t m)
    (sound : ∀ item k, .crash ∉ s.stage.body item k) (hb : s.Busy b) : s.Serves b m := by
  cases h with
  | begins job inbox current receive =>
    obtain rfl := hb.eq_nil current
    exact serves_begin current receive t
  | advances r r' items time current now advances =>
    obtain ⟨k, hf⟩ := hb.follows current
    have hproducts :
        r.jobs items = (items.zipIdx b.length).map fun p => ⟨p.1, r.job.scope, p.2⟩ := by
      rw [Run.jobs, hf.handles, Batch.handles, List.length_map]
    rw [hproducts]
    refine .goesOn items r.job.scope time _ rfl rfl rfl ?_ (busy_of_follows rfl (k := k) ?_)
    · simp [jobs, current, advances.job_eq]
    · rw [advances.job_eq]
      exact hf.advance advances
  | crashes r pause left current phase =>
    obtain ⟨k, hf⟩ := hb.follows current
    exact absurd ((hf.working _ _ phase).1.suffix.mem List.mem_cons_self) (sound _ k)
  | reports r own reports current phase came =>
    obtain ⟨k, hf⟩ := hb.follows current
    obtain ⟨hy, moment, hm⟩ := hf.joining own phase
    exact .reports r own reports k _ _ t current (hf.handles ▸ came) hy (by rw [hf.item, hm]; rfl)

end Station

/-! ## the rest of a chain -/

/-- The sink takes every job and completes it at once. -/
structure Sink.Drains (sink : Sink α) : Prop where
  isOpen : sink.isOpen = true
  completes : ∀ item, sink.reaction item = .complete none

/-- The rest of a chain accounts for the items that were handed on to it and
for the work that was done on them: what it has not reported on is on its way
or being worked on, what it has reported on is done, and what was done at its
first place led to what was done at the others. -/
inductive Accounted (sink : Sink α) : List (Station α) → Batch α → List (Work α) → Prop
  | sink {b : Batch α} {done : List (Work α)} (drains : sink.Drains) (due : b.Due [])
    (awaits : b.Awaits sink.inbox.jobs)
    (tells : (sink.records.map SinkRecord.item).Perm (done.map Work.item)) :
    Accounted sink [] b done
  | station {s : Station α} {rest : List (Station α)} {b inner : Batch α}
    {done below : List (Work α)} (alive : s.alive = true)
    (sound : ∀ item k, .crash ∉ s.stage.body item k)
    (due : b.Due ((s :: rest).map Station.stage)) (awaits : b.Awaits s.jobs)
    (tells : s.Tells done) (busy : s.Busy inner)
    (parts : below.Perm (done.flatMap Work.parts ++ inner.works))
    (accounted : Accounted sink rest inner below) : Accounted sink (s :: rest) b done

namespace Accounted

variable {sink : Sink α} {stations : List (Station α)} {b : Batch α} {done : List (Work α)}

/-- The reports that the rest of a chain has given are due. -/
theorem due (h : Accounted sink stations b done) : b.Due (stations.map Station.stage) := by
  cases h with
  | sink _ due => exact due
  | station _ _ due => exact due

/-- A batch of which nothing is pending may be forgotten. -/
theorem settle (h : Accounted sink stations b done) (hb : b.pendingFrom 0 = []) :
    Accounted sink stations [] done := by
  have hawaits : ∀ jobs, b.Awaits jobs → Batch.Awaits [] jobs := by
    intro jobs ha
    unfold Batch.Awaits at ha ⊢
    rwa [hb] at ha
  cases h with
  | sink drains _ awaits tells => exact .sink drains .nil (hawaits _ awaits) tells
  | station alive sound _ awaits tells busy parts accounted =>
    exact .station alive sound .nil (hawaits _ awaits) tells busy parts accounted

/-- Items that are handed on are accounted for. -/
theorem offer (h : Accounted sink stations b done) (scope : Scope) (items : List α)
    {stations' : List (Station α)} {sink' : Sink α} {dropped : List Completion}
    (ho : Chain.offer ((items.zipIdx b.length).map fun p => ⟨p.1, scope, p.2⟩) stations sink =
      (stations', sink', dropped)) :
    stations'.map Station.stage = stations.map Station.stage ∧ dropped = [] ∧
      Accounted sink' stations' (b ++ Batch.fresh items) done := by
  cases h with
  | sink drains due awaits tells =>
    simp only [Chain.offer, drains.isOpen, if_true, Prod.mk.injEq] at ho
    obtain ⟨rfl, rfl, rfl⟩ := ho
    refine ⟨rfl, rfl, .sink ⟨rfl, drains.completes⟩ (due.append items) ?_ tells⟩
    rw [Inbox.jobs_add]
    exact awaits.append scope items
  | @station s rest _ _ _ _ alive sound due awaits tells busy parts accounted =>
    simp only [Chain.offer, alive, if_true, Prod.mk.injEq] at ho
    obtain ⟨rfl, rfl, rfl⟩ := ho
    refine ⟨rfl, rfl, .station rfl sound (due.append items) ?_ tells busy parts accounted⟩
    rw [Station.jobs, Inbox.jobs_add, ← List.append_assoc]
    exact awaits.append scope items

end Accounted

/-- What a step somewhere in the rest of a chain leads to that accounts for a
batch: nothing is reported, or one of the items that something is awaited of is
reported on. -/
inductive Steps (stations : List (Station α)) (b : Batch α) (done : List (Work α))
    (m : Below α) : Prop
  | quiet (stages : m.stations.map Station.stage = stations.map Station.stage)
    (completions : m.completions = []) (accounted : Accounted m.sink m.stations b done)
  | completes (c : Completion) (p : Piece α) (w : Work α)
    (stages : m.stations.map Station.stage = stations.map Station.stage)
    (completions : m.completions = [c]) (piece : b[c.ticket]? = some p) (pending : p.came = none)
    (accounted : Accounted m.sink m.stations (b.complete c.ticket (c.report, w)) (w :: done))

namespace Accounted

variable {sink : Sink α} {stations : List (Station α)} {b : Batch α} {done : List (Work α)}

/-- The sink receives a job and completes it. -/
theorem receive {job : Job α} {inbox : Inbox α} (h : Accounted sink [] b done)
    (hi : sink.inbox.receive = some (job, inbox)) (t : Timeline) (records : List (SinkRecord α))
    (hr : records.map SinkRecord.item = sink.records.map SinkRecord.item ++ [job.item]) :
    Steps [] b done
      { time := t
        stations := []
        sink := { sink with inbox, records }
        completions := [(sink.reaction job.item).completion job] } := by
  cases h with
  | sink drains due awaits tells =>
    have ha : b.Awaits (job :: inbox.jobs) := Inbox.jobs_receive hi ▸ awaits
    obtain ⟨p, hk, hp, hpi⟩ := ha.piece
    have hc : [(sink.reaction job.item).completion job] = [⟨job.ticket, none⟩] := by
      rw [drains.completes]
      rfl
    refine .completes ⟨job.ticket, none⟩ p (.node job.item none []) rfl hc hk hp
      (.sink ⟨drains.isOpen, drains.completes⟩ ?_ (ha.complete _) ?_)
    · exact due.complete hk hpi.symm ⟨rfl, rfl⟩ rfl
    · rw [hr]
      exact List.perm_append_comm.trans (tells.cons job.item)

/-- The station at the head reports on its job, all that it handed on for it
having been reported on. -/
theorem report {s : Station α} {rest : List (Station α)} {sink' : Sink α}
    {rest' : List (Station α)} {inner : Batch α} {below : List (Work α)} {r : Run α}
    {own : Option Failure} {reports : List (Option Report)} {k : Nat}
    (h : Accounted sink (s :: rest) b done)
    (hbelow : below.Perm (done.flatMap Work.parts ++ inner.works))
    (stages : rest'.map Station.stage = rest.map Station.stage)
    (accounted : Accounted sink' rest' inner below) (current : s.current = some r)
    (came : outcomes? inner.handles = some reports)
    (yields : Yields (s.stage.body r.job.item k) inner.items own)
    (record : (r.record.item, r.record.finish.map Prod.snd) = (r.job.item, some own.isNone))
    (stageExpired itemExpired : Bool) (time : Timeline) :
    Steps (s :: rest) b done
      { time
        stations := { s with current := none, past := r.record :: s.past } :: rest'
        sink := sink'
        completions := [⟨r.job.ticket,
          reportOf (own.map (blame s.stage.name s.stage.timeout stageExpired itemExpired))
            reports⟩] } := by
  have hinner := accounted.due
  rw [stages] at hinner
  obtain ⟨hpending, hitems, hfits, hreports⟩ := Batch.Due.settled came hinner 0
  let w : Work α := .node r.job.item own inner.works
  have hw : w.Fits ((s :: rest).map Station.stage) := ⟨⟨k, hitems.symm ▸ yields⟩, hfits⟩
  have hreport : w.Reports ((s :: rest).map Station.stage)
      (reportOf (own.map (blame s.stage.name s.stage.timeout stageExpired itemExpired)) reports) :=
    ⟨stageExpired, itemExpired, reports, hreports, rfl⟩
  have hstages : ((s :: rest').map Station.stage) = (s :: rest).map Station.stage := by
    rw [List.map_cons, List.map_cons, stages]
  cases h with
  | station alive sound due awaits tells busy parts _ =>
    have ha : b.Awaits (r.job :: s.inbox.jobs) := by
      rw [Station.jobs, current] at awaits
      exact awaits
    obtain ⟨p, hk, hp, hpi⟩ := ha.piece
    have hdue := due.complete hk (w := w) hpi.symm hw hreport
    refine .completes _ p w hstages rfl hk hp
      (.station alive sound (hstages ▸ hdue) (ha.complete _) ?_ rfl ?_ (accounted.settle hpending))
    · exact tells.cons (w := w) record
    · rw [Batch.works, List.filterMap_nil, List.append_nil, List.flatMap_cons]
      exact hbelow.trans List.perm_append_comm

/-- The station at the head does something. -/
theorem work {s : Station α} {rest rest' : List (Station α)} {t : Timeline} {sm : StationMove α}
    {sink' : Sink α} {dropped : List Completion} (h : Accounted sink (s :: rest) b done)
    (hd : s.Does t sm) (ho : Chain.offer sm.products rest sink = (rest', sink', dropped)) :
    Steps (s :: rest) b done
      { time := sm.time
        stations := sm.station.hear dropped :: rest'
        sink := sink'
        completions := sm.completions } := by
  have hall := h
  cases h with
  | @station _ _ _ inner _ below alive sound due awaits tells busy parts accounted =>
    cases hd.serves sound busy with
    | goesOn items scope time s' stage alive' past jobs busy' =>
      obtain ⟨hstages, rfl, hacc⟩ := accounted.offer scope items ho
      rw [← Batch.works_fresh inner items] at parts
      have hss : ((s' :: rest').map Station.stage) = (s :: rest).map Station.stage := by
        rw [List.map_cons, List.map_cons, stage, hstages]
      rw [Station.hear_nil]
      refine .quiet hss rfl (.station (alive'.trans alive) (stage ▸ sound) (hss ▸ due)
        (awaits.perm jobs) ?_ busy' parts hacc)
      unfold Station.Tells
      rw [past]
      exact tells
    | reports r own reports k stageExpired itemExpired time current came yields record =>
      obtain ⟨hstages, rfl, hacc⟩ := accounted.offer default [] ho
      rw [Station.hear_nil]
      rw [Batch.append_fresh_nil] at hacc
      exact hall.report parts hstages hacc current came yields record stageExpired itemExpired time

/-- The station at the head hears of a step further down. -/
theorem further {s : Station α} {rest : List (Station α)} {m : Below α}
    (h : Accounted sink (s :: rest) b done)
    (hm : ∀ inner below, Accounted sink rest inner below → Steps rest inner below m) :
    Steps (s :: rest) b done
      { m with stations := s.hear m.completions :: m.stations, completions := [] } := by
  cases h with
  | @station _ _ _ inner _ below alive sound due awaits tells busy parts accounted =>
    cases hm inner below accounted with
    | quiet stages completions accounted =>
      have hss : ((s :: m.stations).map Station.stage) = (s :: rest).map Station.stage := by
        rw [List.map_cons, List.map_cons, stages]
      rw [completions, Station.hear_nil]
      exact .quiet hss rfl (.station alive sound (hss ▸ due) awaits tells busy parts accounted)
    | completes c p w stages completions piece pending accounted =>
      have hss : ((s.hear [c] :: m.stations).map Station.stage) =
          (s :: rest).map Station.stage := by
        rw [List.map_cons, List.map_cons, stages]
        rfl
      have hworks := Batch.works_complete (c.report, w) piece pending
      rw [completions]
      refine .quiet hss rfl (.station alive sound (hss ▸ due) ?_ tells (busy.hear piece w) ?_
        accounted)
      · rwa [Station.jobs_hear]
      · exact (parts.cons w).trans (List.perm_middle.symm.trans (hworks.symm.append_left _))

/-- **A step keeps account of the items and of the work.** -/
theorem step {t : Timeline} {m : Below α} (h : Accounted sink stations b done)
    (hm : StepBelow t sink stations m) : Steps stations b done m := by
  induction hm generalizing b done with
  | sendSink k inbox send =>
    cases h with
    | sink drains due awaits tells =>
      exact .quiet rfl rfl
        (.sink ⟨drains.isOpen, drains.completes⟩ due (awaits.perm (Inbox.jobs_send send)) tells)
  | receive job inbox receive => exact h.receive receive t _ (List.map_append ..)
  | send s rest k inbox send =>
    cases h with
    | station alive sound due awaits tells busy parts accounted =>
      refine .quiet rfl rfl (.station alive sound due (awaits.perm ?_) tells busy parts accounted)
      exact (Inbox.jobs_send send).append_left _
  | work s rest sm alive does offered => exact h.work does offered
  | further s rest m step ih => exact h.further fun _ _ => ih

end Accounted

end LintPatrol.Chain
