import LintPatrol.Chain.Station

/-!
# LintPatrol.Chain.System

A chain at work: a source, the stations in their order, and a sink.  Jobs go
down the chain and reports come up.  `moveAt` makes one chosen step, so that
any order of steps can be spoken of; `run` makes the first step that can be
made, and lets time pass when none can.
-/

namespace LintPatrol.Chain

open Time

/-! ## Sinks -/

/-- What a sink does with a job. -/
inductive Reaction where
  | complete (failure : Option Failure)
  | drop
deriving Repr, DecidableEq

/-- What is noted of a job that reached the sink. -/
structure SinkRecord (α : Type) where
  item : α
  moment : Nat
  expired : Bool
deriving Repr, DecidableEq

/-- The end of a chain. -/
structure Sink (α : Type) where
  isOpen : Bool
  reaction : α → Reaction
  inbox : Inbox α := {}
  records : List (SinkRecord α) := []

def Sink.drain {α : Type} : Sink α := { isOpen := true, reaction := fun _ => .complete none }

/-! ## Sources -/

/-- An item that is sent down the chain. -/
structure Emission (α : Type) where
  item : α
  /-- How long its scope lasts, if it has one of its own. -/
  timeout : Option Duration
  cancelAfter : Option Nat

/-- What an emission came to. -/
structure Outcome where
  report : Option Report
  moment : Nat

/-- Where a source that repeats itself stands. -/
inductive Pace where
  | ready
  | waiting
  | resting (moment : Nat)
  | stopped
deriving Repr, DecidableEq

/-- The beginning of a chain.  A script emits given items, each after the report on
the one before. -/
inductive Source (α : Type) where
  | script (plan : List (Emission α)) (waiting : Bool) (outcomes : List Outcome)
  /-- Emits one item over and over, and pauses after each report for as long
  as it says; it stops when its scope ends. -/
  | periodic (item : α) (failDelay successDelay : Duration) (pace : Pace)

/-! ## Systems -/

/-- A chain at work. -/
structure System (α : Type) where
  root : Scope
  time : Timeline
  source : Source α
  stations : List (Station α)
  sink : Sink α

variable {α : Type}

/-- A chain of stages that have nothing to do yet, behind a source that emits
given items; it is drained. -/
def System.script (root : Scope) (time : Timeline) (plan : List (Emission α))
    (stages : List (Stage α)) : System α :=
  { root, time
    source := .script plan false []
    stations := stages.map .idle
    sink := .drain }

/-- Spawns tasks that send jobs to the next place of the chain; if that is down
the jobs are dropped. -/
def offer (jobs : List (Job α)) (stations : List (Station α)) (sink : Sink α) :
    List (Station α) × Sink α × List Completion :=
  match stations with
  | s :: rest =>
    if s.alive then ({ s with inbox := s.inbox.add jobs } :: rest, sink, [])
    else (stations, sink, jobs.map Job.drop)
  | [] =>
    if sink.isOpen then ([], { sink with inbox := sink.inbox.add jobs }, [])
    else ([], sink, jobs.map Job.drop)

/-- What a move somewhere below a place leads to. -/
structure Below (α : Type) where
  time : Timeline
  stations : List (Station α)
  sink : Sink α
  completions : List Completion

/-- What a step at a place of the chain is: of the tasks that are to send a job there
one does so, or the place itself goes on. -/
inductive Step where
  | send (k : Nat)
  | work
deriving Repr, DecidableEq

/-- The report on a job that reached the sink. -/
def Reaction.completion (reaction : Reaction) (job : Job α) : Completion :=
  match reaction with
  | .complete failure => ⟨job.ticket, failure.map Report.own⟩
  | .drop => job.drop

/-- The sink makes a step, or a task that sends it a job. -/
def Sink.move (t : Timeline) (step : Step) (sink : Sink α) : Option (Below α) :=
  match step with
  | .send k =>
    (sink.inbox.send k).map fun inbox =>
      { time := t, stations := [], sink := { sink with inbox }, completions := [] }
  | .work =>
    sink.inbox.receive.map fun (job, inbox) =>
      { time := t
        stations := []
        sink :=
          { sink with
            inbox
            records := sink.records ++ [⟨job.item, t.now, t.isExpired job.scope⟩] }
        completions := [(sink.reaction job.item).completion job] }

/-- The station at the head of the rest of the chain makes a step, or a task
that sends it a job. -/
def moveHead (t : Timeline) (step : Step) (s : Station α) (rest : List (Station α))
    (sink : Sink α) : Option (Below α) :=
  match step with
  | .send k =>
    (s.inbox.send k).map fun inbox =>
      { time := t, stations := { s with inbox } :: rest, sink, completions := [] }
  | .work =>
    (s.move t).map fun m =>
      let (rest, sink, dropped) := offer m.products rest sink
      { time := m.time
        stations := m.station.hear dropped :: rest
        sink
        completions := m.completions }

/-- A step is made at the place `i` of the rest of the chain, if it can be
made; the sink is the last place. -/
def moveBelow (t : Timeline) (step : Step) :
    (i : Nat) → List (Station α) → Sink α → Option (Below α)
  | 0, [], sink => sink.move t step
  | _ + 1, [], _ => none
  | 0, s :: rest, sink => moveHead t step s rest sink
  | i + 1, s :: rest, sink =>
    (moveBelow t step i rest sink).map fun b =>
      { b with stations := s.hear b.completions :: b.stations, completions := [] }

namespace Source

/-- Hears the report on what was emitted. -/
def receive (t : Timeline) (root : Scope) (source : Source α) (report : Option Report) : Source α :=
  match source with
  | script plan _ outcomes => script plan false (outcomes ++ [⟨report, t.now⟩])
  | periodic item failDelay successDelay _ =>
    let delay := if report.isSome then failDelay else successDelay
    periodic item failDelay successDelay
      (if t.isExpired root then .stopped
        else .resting (Timeline.tick (t.now + Timeline.pauseFrom t.now delay)))

/-- Hears reports, one after the other. -/
def receiveAll (t : Timeline) (root : Scope) (source : Source α) (completions : List Completion) :
    Source α :=
  completions.foldl (fun source c => source.receive t root c.report) source

/-- Has the source come to its end? -/
def isDone : Source α → Bool
  | script [] false _ => true
  | script .. => false
  | periodic _ _ _ .stopped => true
  | periodic .. => false

/-- The moments at which the source may go on. -/
def moments : Source α → List Nat
  | periodic _ _ _ (.resting m) => [m]
  | _ => []

end Source

namespace System

/-- Sends an item down the chain. -/
def emit (s : System α) (time : Timeline) (source : Source α) (job : Job α) : System α :=
  let (stations, sink, dropped) := offer [job] s.stations s.sink
  { s with time, stations, sink, source := source.receiveAll time s.root dropped }

/-- The source makes a step, if it need not wait. -/
def moveSource (s : System α) : Option (System α) :=
  match s.source with
  | .script (e :: plan) false outcomes =>
    let time :=
      match e.cancelAfter with
      | some delay => s.time.cancelAfter delay s.root.token
      | none => s.time
    let (scope, time) :=
      match e.timeout with
      | some timeout => time.child s.root timeout
      | none => (s.root, time)
    some (s.emit time (.script plan true outcomes) ⟨e.item, scope, 0⟩)
  | .script .. => none
  | .periodic item failDelay successDelay pace =>
    let goTo (pace : Pace) : Source α := .periodic item failDelay successDelay pace
    match pace with
    | .ready =>
      if s.time.isExpired s.root then some { s with source := goTo .stopped }
      else some (s.emit s.time (goTo .waiting) ⟨item, s.root, 0⟩)
    | .resting m =>
      if m ≤ s.time.now then some { s with source := goTo .ready }
      else if s.time.isExpired s.root then some { s with source := goTo .stopped }
      else none
    | .waiting => none
    | .stopped => none

/-- A step that may be chosen. -/
inductive Choice where
  | source
  | place (i : Nat) (step : Step)
deriving Repr, DecidableEq

/-- The chosen step is made, if it can be made. -/
def moveAt (choice : Choice) (s : System α) : Option (System α) :=
  match choice with
  | .source => s.moveSource
  | .place i step =>
    (moveBelow s.time step i s.stations s.sink).map fun b =>
      { s with
        time := b.time
        stations := b.stations
        sink := b.sink
        source := s.source.receiveAll b.time s.root b.completions }

/-- The steps that are tried one after the other: jobs are sent in the order
in which their tasks were spawned. -/
def choices (s : System α) : List Choice :=
  .source :: (List.range (s.stations.length + 1)).flatMap fun i =>
    [.place i (.send 0), .place i .work]

/-- The first step that can be made is made. -/
def move (s : System α) : Option (System α) := s.choices.findSome? fun c => s.moveAt c

/-! ## Time -/

def wait (s : System α) (moment : Nat) : System α := { s with time := s.time.advanceTo moment }

/-- The next moment at which anything may happen. -/
def nextMoment? (s : System α) : Option Nat :=
  let waking := (s.source.moments ++ s.stations.flatMap Station.moments).filter (s.time.now < ·)
  (waking ++ s.time.scheduled.map fun c => max s.time.now c.1).min?

/-! ## The end -/

/-- Have all stations come to their end, once all before them have?  A crashed
one has, and so has one that has nothing to do and will get nothing. -/
def stationsDone (sourceDone : Bool) : List (Station α) → Bool
  | [] => sourceDone
  | s :: rest => stationsDone (!s.alive || (sourceDone && s.isIdle)) rest

/-- Has the sink come to its end? -/
def sinkDone (s : System α) : Bool :=
  !s.sink.isOpen || (stationsDone s.source.isDone s.stations && s.sink.inbox.isEmpty)

/-- Is the chain done?  A source that follows a script is waited for, too. -/
def isDone (s : System α) : Bool :=
  s.sinkDone &&
    match s.source with
    | .script .. => s.source.isDone
    | .periodic .. => true

/-- Lets the chain work for at most so many steps.  The last moment is gone
through to its end if the sink takes jobs. -/
def runFor : (steps : Nat) → System α → System α
  | 0, s => s
  | steps + 1, s =>
    if s.isDone && !s.sink.isOpen then s
    else
      match s.move with
      | some s => runFor steps s
      | none =>
        if s.isDone then s
        else
          match s.nextMoment? with
          | some m => runFor steps (s.wait m)
          | none => s

/-- The steps after which a chain is given up. -/
def stepLimit : Nat := 10000000

/-- Lets the chain work until it is done, or stuck. -/
def run (s : System α) : System α := s.runFor stepLimit

end System

end LintPatrol.Chain
