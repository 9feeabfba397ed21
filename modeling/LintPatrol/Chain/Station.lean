import LintPatrol.Chain.Stage

/-!
# LintPatrol.Chain.Station

A stage at work.  A station receives its jobs one at a time, and is not done
with a job before all that it produced for it has been reported on.  The
reports may come in any order; they are joined in the order in which the items
were produced.  `move` is one step of a station; it is `none` while the
station has to wait.

A crash takes the station down for good: the job it was working on and all
that are on their way to it are dropped, and reports on what it produced are
not heard.
-/

namespace LintPatrol.Chain

/-! ## Pauses -/

/-- What a body waits for: nothing, a moment, the end of its scope, or whichever of
the two comes first. -/
inductive Pause where
  | ready
  | sleeping (moment : Nat)
  | expiry
  | scopeSleeping (moment : Nat)
deriving Repr, DecidableEq

/-- How a pause has ended. -/
inductive Waking where
  | proceed
  | expired
deriving Repr, DecidableEq

/-- How the pause has ended, if it has. -/
def Pause.waking? (t : Timeline) (scope : Scope) : Pause → Option Waking
  | ready => some .proceed
  | sleeping m => if m ≤ t.now then some .proceed else none
  | expiry => if t.isExpired scope then some .proceed else none
  | scopeSleeping m =>
    if m ≤ t.now then some .proceed else if t.isExpired scope then some .expired else none

/-- Only one kind of pause is cut short, by the end of the scope. -/
theorem Pause.scopeSleeping_of_waking? {pause : Pause} {t : Timeline} {scope : Scope}
    (h : pause.waking? t scope = some .expired) :
    (∃ moment, pause = .scopeSleeping moment) ∧ t.isExpired scope = true := by
  cases pause with
  | ready => cases h
  | sleeping m =>
    simp only [waking?] at h
    split at h <;> cases h
  | expiry =>
    simp only [waking?] at h
    split at h <;> cases h
  | scopeSleeping m =>
    simp only [waking?] at h
    split at h
    next => cases h
    next =>
      split at h
      next he => exact ⟨⟨m, rfl⟩, he⟩
      next => cases h

/-- The moments at which the pause may end. -/
def Pause.moments (scope : Scope) : Pause → List Nat
  | ready => []
  | sleeping m => [m]
  | expiry => (scope.deadline.map Timeline.tick).toList
  | scopeSleeping m => m :: (scope.deadline.map Timeline.tick).toList

/-! ## Runs -/

/-- What is noted of the work on one item. -/
structure RunRecord (α : Type) where
  item : α
  start : Nat
  /-- When it ended, and whether it succeeded. -/
  finish : Option (Nat × Bool)
  /-- How the scope stood when it was last asked for: whether it was at its
  end, and its deadline. -/
  probe : Option (Bool × Option Nat)
deriving Repr, DecidableEq

/-- How far the work on an item has come: the body pauses, and then has these acts
left; or it has ended with its own failure, and what it produced is awaited. -/
inductive Phase (α : Type) where
  | working (pause : Pause) (left : List (Act α))
  | joining (own : Option Failure)
deriving Repr, DecidableEq

/-- What has come of an item that was produced: nothing yet, or a report. -/
abbrev Handle := Option (Option Report)

/-- The reports on all items that were produced, if they have come. -/
def outcomes? : List Handle → Option (List (Option Report))
  | [] => some []
  | none :: _ => none
  | some report :: handles => (outcomes? handles).map (report :: ·)

/-- The work on one item. -/
structure Run (α : Type) where
  job : Job α
  scope : Scope
  phase : Phase α
  /-- What has come of the items that have been produced, in their order. -/
  handles : List Handle
  record : RunRecord α

namespace Run

variable {α : Type}

/-- The run with its body ended. -/
def finish (r : Run α) (now : Nat) (own : Option Failure) : Run α :=
  { r with
    phase := .joining own
    record := { r.record with finish := some (now, own.isNone) } }

/-- The run with acts left after a pause. -/
def goOn (r : Run α) (pause : Pause) (left : List (Act α)) : Run α :=
  { r with phase := .working pause left }

/-- The jobs that items become; those that were produced before have tickets
already. -/
def jobs (r : Run α) (items : List α) : List (Job α) :=
  (items.zipIdx r.handles.length).map fun p => ⟨p.1, r.job.scope, p.2⟩

/-- Hears a report on one of the items. -/
def hear (r : Run α) (c : Completion) : Run α :=
  { r with handles := r.handles.set c.ticket (some c.report) }

/-- Reports change nothing but what is known of the items. -/
theorem foldl_hear (completions : List Completion) (r : Run α) :
    ∃ handles, completions.foldl hear r = { r with handles } := by
  induction completions generalizing r with
  | nil => exact ⟨r.handles, rfl⟩
  | cons c cs ih => exact ih (r.hear c)

end Run

/-! ## Stations -/

/-- A stage at work: whether it is up, the jobs on their way to it, the one it works
on, and what was noted of former ones, the latest first. -/
structure Station (α : Type) where
  stage : Stage α
  alive : Bool
  inbox : Inbox α
  current : Option (Run α)
  past : List (RunRecord α)

/-- A stage that has nothing to do yet. -/
def Station.idle {α : Type} (stage : Stage α) : Station α := ⟨stage, true, {}, none, []⟩

/-- What a move of a station leads to. -/
structure StationMove (α : Type) where
  time : Timeline
  station : Station α
  products : List (Job α) := []
  completions : List Completion := []

namespace Station

variable {α : Type}

def isIdle (s : Station α) : Bool := s.inbox.isEmpty && s.current.isNone

/-- The jobs that it has not reported on. -/
def jobs (s : Station α) : List (Job α) := (s.current.map Run.job).toList ++ s.inbox.jobs

/-- A station is idle just if it works on nothing and nothing is on its way to it. -/
theorem isIdle_iff (s : Station α) : s.isIdle = true ↔ s.current = none ∧ s.jobs = [] := by
  cases hc : s.current <;> simp [isIdle, jobs, hc, Inbox.isEmpty_iff]

/-- Hears reports on what it produced. -/
def hear (s : Station α) (completions : List Completion) : Station α :=
  { s with current := s.current.map fun r => completions.foldl Run.hear r }

@[simp] theorem hear_nil (s : Station α) : s.hear [] = s := by
  cases s
  simp [hear]

/-- What is heard changes at most what is known of the items that were
produced. -/
theorem hear_cases (s : Station α) (completions : List Completion) :
    s.hear completions = s ∨ ∃ r handles, s.current = some r ∧
      s.hear completions = { s with current := some { r with handles } } := by
  cases hc : s.current with
  | none =>
    refine .inl ?_
    cases s
    simp_all [hear]
  | some r =>
    obtain ⟨handles, hh⟩ := r.foldl_hear completions
    exact .inr ⟨r, handles, rfl, by simp [hear, hc, hh]⟩

/-- A report that is heard changes nothing of what is on its way to the station. -/
@[simp] theorem jobs_hear (s : Station α) (completions : List Completion) :
    (s.hear completions).jobs = s.jobs := by
  rcases s.hear_cases completions with h | ⟨r, handles, hc, h⟩
  · rw [h]
  · simp [h, jobs, hc]

/-- All that was noted, in order. -/
def records (s : Station α) : List (RunRecord α) :=
  s.past.reverse ++ (s.current.map Run.record).toList

/-- Begins with a job. -/
def begin (t : Timeline) (s : Station α) (job : Job α) (inbox : Inbox α) : StationMove α :=
  let (scope, t) := t.child job.scope s.stage.timeout
  let run : Run α :=
    { job, scope
      phase := .working .ready (s.stage.body job.item s.past.length)
      handles := []
      record := ⟨job.item, t.now, none, none⟩ }
  { time := t, station := { s with inbox, current := some run } }

/-- Goes down with the job it works on. -/
def crash (t : Timeline) (s : Station α) (r : Run α) : StationMove α :=
  { time := t
    station := { s with alive := false, inbox := {}, current := none, past := r.record :: s.past }
    completions := s.jobs.map Job.drop }

/-- Reports on the job it worked on. -/
def report (t : Timeline) (s : Station α) (r : Run α) (own : Option Failure)
    (reports : List (Option Report)) : StationMove α :=
  let blamed := own.map
    (blame s.stage.name s.stage.timeout (t.isExpired r.scope) (t.isExpired r.job.scope))
  { time := t
    station := { s with current := none, past := r.record :: s.past }
    completions := [⟨r.job.ticket, reportOf blamed reports⟩] }

/-- Does the next act. -/
def act (t : Timeline) (s : Station α) (r : Run α) (left : List (Act α)) : StationMove α :=
  let go (r : Run α) : StationMove α := { time := t, station := { s with current := some r } }
  let expired : Run α := r.finish t.now (some (.plain Scope.expiredMessage))
  match left with
  | [] => go (r.finish t.now none)
  | .fail reason :: _ => go (r.finish t.now (some reason))
  | .sleep length :: left => go (r.goOn (.sleeping (Timeline.tick (t.now + length))) left)
  | .scopeSleep length :: left =>
    if t.isExpired r.scope then go expired
    else go (r.goOn (.scopeSleeping (Timeline.tick (t.now + length))) left)
  | .awaitExpiry :: left => go (r.goOn .expiry left)
  | .produce items :: left =>
    { go { r.goOn .ready left with handles := r.handles ++ items.map fun _ => none } with
      products := r.jobs items }
  | .cancelStage :: left => { go (r.goOn .ready left) with time := t.cancel r.scope.token }
  | .cancelRun :: left =>
    { go (r.goOn .ready left) with time := t.cancel (r.scope.token.getLast?.toList) }
  | .crash :: _ => crash t s r
  | .probe :: left =>
    go
      { r.goOn .ready left with
        record := { r.record with probe := some (t.isExpired r.scope, r.scope.deadline) } }

/-- One step of the station, if it need not wait. -/
def move (t : Timeline) (s : Station α) : Option (StationMove α) :=
  if !s.alive then none
  else
    match s.current with
    | none => s.inbox.receive.map fun (job, inbox) => begin t s job inbox
    | some r =>
      match r.phase with
      | .joining own => (outcomes? r.handles).map (report t s r own)
      | .working pause left =>
        match pause.waking? t r.scope with
        | none => none
        | some .proceed => some (act t s r left)
        | some .expired =>
          let r := r.finish t.now (some (.plain Scope.expiredMessage))
          some { time := t, station := { s with current := some r } }

/-- The moments at which the station may go on. -/
def moments (s : Station α) : List Nat :=
  match s.current with
  | some r =>
    match r.phase with
    | .working pause _ => pause.moments r.scope
    | .joining _ => []
  | none => []

end Station

end LintPatrol.Chain
