import LintPatrol.Sandbox.Session
import LintPatrol.Stream.Attach
import LintPatrol.Stream.Lines

/-!
# LintPatrol.Sandbox.Run

Running a linter in a container.  Five requests follow one another, each of
them once the one before has succeeded; the last one says when the container
has ended.  Its output is read from the time it has been started, beside that
last request, and the run is over when both are: a reader that has given up
does not end the wait, nor the other way round.

A run is moved on by turns, in any order: the client goes on to its next
request, the daemon answers the one that is open, or some output arrives.  The
scope of a run may expire at any moment, and its turns are those before that
moment.  However it has ended, a container that is known by then is killed.
-/

namespace LintPatrol

/-! ## Requests of a run -/

/-- What is to be run, and where. -/
structure SandboxJob where
  socket : String
  limits : SandboxLimits
  image : String
  mount : String
  host : String
deriving Repr, DecidableEq, Inhabited

/-- A request of a run. -/
inductive SandboxStep where
  | pull
  | create
  | attach (container : String)
  | start (container : String)
  | wait (container : String)
deriving Repr, DecidableEq, Inhabited

/-- The request as it is sent. -/
def SandboxStep.request (job : SandboxJob) : SandboxStep → SandboxRequest
  | pull => .pull job.image
  | create => .create job.image job.mount job.host job.limits
  | attach c => .attach c
  | start c => .start c
  | wait c => .wait c

namespace Daemon

def pulled (d : Daemon) (job : SandboxJob) : Except String Unit :=
  d.answer (SandboxStep.pull.request job) (·.pulled)

def created (d : Daemon) (job : SandboxJob) : Except String String :=
  d.answer (SandboxStep.create.request job) (·.created)

/-- The output, behind the head of the answer. -/
def attached (d : Daemon) (container : String) : Except String Transport :=
  d.answer (.attach container) fun _ => (Attach.readHead d.output).mapError (·.message)

def started (d : Daemon) (container : String) : Except String Unit :=
  d.answer (.start container) (·.accepted)

def exitCode (d : Daemon) (container : String) : Except String Int :=
  d.answer (.wait container) (·.exitCode)

end Daemon

/-! ## Output -/

/-- The output of a container while it is read: what has arrived, what is still to
come, and whether the end has been seen. -/
structure SandboxOutput where
  arrived : Transport
  coming : Transport
  isOver : Bool
deriving Repr, DecidableEq

/-- The next piece arrives, or the end if there is none. -/
def SandboxOutput.receive : SandboxOutput → SandboxOutput
  | ⟨arrived, p :: ps, isOver⟩ => ⟨arrived ++ [p], ps, isOver⟩
  | ⟨arrived, [], _⟩ => ⟨arrived, [], true⟩

namespace Daemon

/-- What reading lines has come to, if it has come to an end: at the end of the
output, or as soon as what has arrived is at fault. -/
def lines? (d : Daemon) (limit : Nat) (container : String) (o : SandboxOutput) :
    Option (Except SandboxError (List String)) :=
  match LineReader.readFrames limit o.arrived with
  | .error e =>
    if e.isOutputFault then some (.error (.outputRejected container e.message))
    else if o.isOver then some (.error (.stream container (d.broken?.getD e.message)))
    else none
  | .ok ls =>
    if o.isOver then
      match d.broken? with
      | some reason => some (.error (.stream container reason))
      | none => some (.ok ls)
    else none

/-- What comes of the exit code of a container and of its output; a code other
than zero counts before anything about the output. -/
def verdict (container : String) (exit : Except String Int)
    (lines : Except SandboxError (List String)) : Except SandboxError (List String) :=
  match exit with
  | .error reason => .error (.wait container reason)
  | .ok code => if code ≠ 0 then .error (.nonZeroExitCode code) else lines

end Daemon

/-! ## Runs -/

/-- Where a run stands: a request can be sent, or has been sent and its answer is
awaited, or the end of the container has been answered, or it is over. -/
inductive SandboxStage where
  | ready (step : SandboxStep)
  | asked (step : SandboxStep)
  /-- The end of the container has been answered, the output is still read. -/
  | waited (container : String) (exit : Except String Int)
  | ended (result : Except SandboxError (List String))

/-- Is output being read? -/
def SandboxStage.isReading : SandboxStage → Bool
  | ready (.wait _) => true
  | asked (.wait _) => true
  | waited .. => true
  | _ => false

/-- What is noted of a run. -/
inductive SandboxEvent where
  | asked (step : SandboxStep)
  | answered (step : SandboxStep)
deriving Repr, DecidableEq

/-- The request that has been sent, if one has. -/
def SandboxEvent.asked? : SandboxEvent → Option SandboxStep
  | asked s => some s
  | answered _ => none

/-- A run that has begun. -/
structure SandboxRun where
  stage : SandboxStage
  log : List SandboxEvent
  output : SandboxOutput
  container? : Option String

namespace SandboxRun

def requests (job : SandboxJob) (run : SandboxRun) : List SandboxRequest :=
  (run.log.filterMap (·.asked?)).map (·.request job)

/-- Some output arrives, if it is read. -/
def receive (run : SandboxRun) : SandboxRun :=
  if run.stage.isReading then { run with output := run.output.receive } else run

/-- The run when its scope has expired or it is over: a container that is known
is killed. -/
def finish (job : SandboxJob) (run : SandboxRun) : SandboxSession (List String) where
  requests := run.requests job ++ run.container?.toList.map .kill
  result :=
    match run.stage with
    | .ended result => result
    | _ => .error .cancelled

end SandboxRun

/-- What may happen next in a run: the client sends the request that it is ready for,
the daemon answers the one that is open, or some output arrives, or its end. -/
inductive SandboxTurn where
  | proceed
  | answer
  | output
deriving Repr, DecidableEq

namespace Daemon

/-- A run of which nothing has happened yet. -/
def begun (d : Daemon) : SandboxRun where
  stage := .ready .pull
  log := []
  output := ⟨[], (Attach.readHead d.output).toOption.getD [], false⟩
  container? := none

/-- The client sends the request that it is ready for, if it can be connected. -/
def proceed (d : Daemon) (job : SandboxJob) (run : SandboxRun) : SandboxRun :=
  match run.stage with
  | .ready step =>
    match d.connection job.socket with
    | .error e => { run with stage := .ended (.error e) }
    | .ok () => { run with stage := .asked step, log := run.log ++ [.asked step] }
  | _ => run

/-- Where an answer leads: a failure ends the run. -/
def follow {α : Type} (answer : Except String α) (failed : String → SandboxError)
    (next : α → SandboxStage) : SandboxStage :=
  match answer with
  | .ok a => next a
  | .error reason => .ended (.error (failed reason))

/-- Where the answer to a request leads. -/
def after (d : Daemon) (job : SandboxJob) : SandboxStep → SandboxStage
  | .pull => follow (d.pulled job) (.pull job.image) fun _ => .ready .create
  | .create => follow (d.created job) (.create job.image) fun c => .ready (.attach c)
  | .attach c => follow (d.attached c) (.attach c) fun _ => .ready (.start c)
  | .start c => follow (d.started c) (.start c) fun _ => .ready (.wait c)
  | .wait c => .waited c (d.exitCode c)

/-- The daemon answers the request that is open. -/
def respond (d : Daemon) (job : SandboxJob) (run : SandboxRun) : SandboxRun :=
  match run.stage with
  | .asked step =>
    { run with
      stage := d.after job step
      log := run.log ++ [.answered step]
      container? := if step = .create then (d.created job).toOption else run.container? }
  | _ => run

/-- Ends the run if the container has ended and its output has been read. -/
def settle (d : Daemon) (job : SandboxJob) (run : SandboxRun) : SandboxRun :=
  match run.stage with
  | .waited container exit =>
    match d.lines? job.limits.maxOutput container run.output with
    | some lines => { run with stage := .ended (verdict container exit lines) }
    | none => run
  | _ => run

/-- One turn. -/
def turn (d : Daemon) (job : SandboxJob) (run : SandboxRun) : SandboxTurn → SandboxRun
  | .proceed => d.proceed job run
  | .answer => d.settle job (d.respond job run)
  | .output => d.settle job run.receive

/-- The turns of a run from its beginning. -/
def run (d : Daemon) (job : SandboxJob) (turns : List SandboxTurn) : SandboxRun :=
  turns.foldl (d.turn job) d.begun

/-- Runs an image on a directory of the host, and gives the lines it wrote;
`turns` are those before the scope expires. -/
def exec (d : Daemon) (job : SandboxJob) (turns : List SandboxTurn) :
    SandboxSession (List String) :=
  (d.run job turns).finish job

end Daemon

end LintPatrol
