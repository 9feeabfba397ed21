import LintPatrol.Config.MemorySize
import LintPatrol.Number.Shortest
import LintPatrol.Time.Duration

/-!
# LintPatrol.Config.Basic

What can be set: where the tasks are stored, how the scheduler and the
workers pace themselves, and what a sandbox allows a linter.  Every setting
has a default.  `validate` says which settings a run cannot work with.
-/

namespace LintPatrol

open Number Time

/-! ## Settings -/

/-- The settings of the store. -/
structure StorageConfig where
  path : String := "bughunt.db"
  busyTimeoutSecs : UInt64 := 5
deriving Repr, DecidableEq, Inhabited

/-- The settings of the scheduler: the pauses after a pass that failed and one that
succeeded, how long each stage may take for one item, and where checkouts are made,
unless in the usual place. -/
structure SchedulerConfig where
  failDelaySecs : UInt64 := 30
  successDelaySecs : UInt64 := 300
  fetchTimeoutSecs : UInt64 := 10
  refreshTimeoutSecs : UInt64 := 120
  scheduleTimeoutSecs : UInt64 := 30
  scratchDir : Option String := none
deriving Repr, DecidableEq, Inhabited

/-- The settings of a worker: the pauses after an iteration that failed and one that
succeeded, how long each stage may take, how long a task is leased, where a linter
finds the checkout, and where checkouts are made. -/
structure WorkerConfig where
  failDelaySecs : UInt64 := 10
  successDelaySecs : UInt64 := 5
  cleanupTimeoutSecs : UInt64 := 300
  takeTimeoutSecs : UInt64 := 10
  lintTimeoutSecs : UInt64 := 1800
  updateTimeoutSecs : UInt64 := 10
  lockDurationSecs : UInt64 := 3600
  mountPath : String := "/src"
  scratchDir : Option String := none
deriving Repr, DecidableEq, Inhabited

/-- The settings of the sandbox. -/
structure SandboxConfig where
  dockerSocket : String := "/var/run/docker.sock"
  memory : String := "4g"
  cpus : Binary64 := ⟨0x4010000000000000⟩
  pidsLimit : Int64 := 1024
  killTimeoutSecs : UInt64 := 10
  maxOutput : String := "64m"
deriving Repr, DecidableEq, Inhabited

/-- All settings. -/
structure Config where
  storage : StorageConfig := ⟨"bughunt.db", 5⟩
  scheduler : SchedulerConfig := {}
  worker : WorkerConfig := {}
  sandbox : SandboxConfig := {}
deriving Repr, DecidableEq, Inhabited

/-! ## Limits of a container -/

/-- The microseconds of processor time in which a quota counts. -/
def SandboxConfig.cpuPeriod : Nat := 1000000

/-- The microseconds of processor time a container gets in each period. -/
def SandboxConfig.cpuQuota (c : SandboxConfig) : Int :=
  (c.cpus.mul (Binary64.ofInt cpuPeriod)).roundBetween minInt64 maxInt64

def SandboxConfig.memoryBytes (c : SandboxConfig) : Except Failure Int := MemorySize.parse c.memory

def SandboxConfig.maxOutputBytes (c : SandboxConfig) : Except Failure Int :=
  MemorySize.parse c.maxOutput

/-! ## Validation -/

namespace Config

/-- The longest timeout: a year. -/
def maxTimeoutSecs : UInt64 := 31536000

/-- The timeouts with their names. -/
def timeouts (c : Config) : List (String × UInt64) :=
  [("storage.busy_timeout_secs", c.storage.busyTimeoutSecs),
   ("scheduler.fetch_timeout_secs", c.scheduler.fetchTimeoutSecs),
   ("scheduler.refresh_timeout_secs", c.scheduler.refreshTimeoutSecs),
   ("scheduler.schedule_timeout_secs", c.scheduler.scheduleTimeoutSecs),
   ("worker.cleanup_timeout_secs", c.worker.cleanupTimeoutSecs),
   ("worker.take_timeout_secs", c.worker.takeTimeoutSecs),
   ("worker.lint_timeout_secs", c.worker.lintTimeoutSecs),
   ("worker.update_timeout_secs", c.worker.updateTimeoutSecs),
   ("worker.lock_duration_secs", c.worker.lockDurationSecs),
   ("sandbox.kill_timeout_secs", c.sandbox.killTimeoutSecs)]

/-- All lengths of time, in seconds. -/
def seconds (c : Config) : List UInt64 :=
  [c.storage.busyTimeoutSecs, c.scheduler.failDelaySecs, c.scheduler.successDelaySecs,
   c.scheduler.fetchTimeoutSecs, c.scheduler.refreshTimeoutSecs, c.scheduler.scheduleTimeoutSecs,
   c.worker.failDelaySecs, c.worker.successDelaySecs, c.worker.cleanupTimeoutSecs,
   c.worker.takeTimeoutSecs, c.worker.lintTimeoutSecs, c.worker.updateTimeoutSecs,
   c.worker.lockDurationSecs, c.sandbox.killTimeoutSecs]

/-- A setting a run cannot work with. -/
inductive Problem where
  | zeroTimeout (name : String)
  | longTimeout (name : String) (value : UInt64)
  | cpus (value : Binary64)
  | pidsLimit (value : Int64)
  | memorySize (name : String) (reason : Failure)
  | mountPath (value : String)
deriving Repr, DecidableEq

/-- What is reported of the problem. -/
def Problem.message : Problem → String
  | .zeroTimeout name => name ++ " must be greater than zero"
  | .longTimeout name value =>
    name ++ " must be at most " ++ toString maxTimeoutSecs ++ ", got " ++ toString value
  | .cpus value => "sandbox.cpus must be positive, got " ++ value.plain
  | .pidsLimit value => "sandbox.pids_limit must be positive, got " ++ toString value.toInt
  | .memorySize name reason => name ++ ": " ++ reason.full
  | .mountPath value => "worker.mount_path must be absolute, got '" ++ value ++ "'"

/-- The problem of a timeout. -/
def timeoutProblem? (name : String) (value : UInt64) : Option Problem :=
  if value = 0 then some (.zeroTimeout name)
  else if maxTimeoutSecs < value then some (.longTimeout name value)
  else none

/-- The problem of an amount of memory. -/
def memoryProblem? (name : String) : Except Failure Int → Option Problem
  | .ok _ => none
  | .error e => some (.memorySize name e)

def isAbsolute (path : String) : Bool := path.toList.head? = some '/'

/-- All problems, in the order in which they are reported. -/
def problems (c : Config) : List Problem :=
  c.timeouts.filterMap (fun (name, value) => timeoutProblem? name value) ++
    (if c.sandbox.cpus.isPositive then [] else [.cpus c.sandbox.cpus]) ++
    (if 0 < c.sandbox.pidsLimit then [] else [.pidsLimit c.sandbox.pidsLimit]) ++
    (memoryProblem? "sandbox.memory" c.sandbox.memoryBytes).toList ++
    (memoryProblem? "sandbox.max_output" c.sandbox.maxOutputBytes).toList ++
    (if isAbsolute c.worker.mountPath then [] else [.mountPath c.worker.mountPath])

/-- Refuses settings that a run cannot work with. -/
def validate (c : Config) : Except Failure Unit :=
  match c.problems with
  | [] => .ok ()
  | ps =>
    .error (.plain ("Invalid configuration:\n  " ++ Text.joined "\n  " (ps.map Problem.message)))

end Config

end LintPatrol
