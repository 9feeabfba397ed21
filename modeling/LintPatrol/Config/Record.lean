import LintPatrol.Config.Basic
import LintPatrol.Json.Record

/-!
# LintPatrol.Config.Record

Settings as JSON values.  A setting that is missing has its default, one of
an unknown name is passed over, and a section may be written as the list of
its settings in order.
-/

namespace LintPatrol.Config

open Json

/-- Reads the section of the store. -/
def storageOfJson (rule : ListRule) (v : Json) : Option StorageConfig := do
  let d : StorageConfig := {}
  match ← fields rule ["path", "busy_timeout_secs"] v with
  | [path, busy] =>
    pure
      { path := ← defaulted str? d.path path
        busyTimeoutSecs := ← defaulted uint64? d.busyTimeoutSecs busy }
  | _ => none

/-- Reads the section of the scheduler. -/
def schedulerOfJson (rule : ListRule) (v : Json) : Option SchedulerConfig := do
  let d : SchedulerConfig := {}
  match ← fields rule
      ["fail_delay_secs", "success_delay_secs", "fetch_timeout_secs", "refresh_timeout_secs",
        "schedule_timeout_secs", "scratch_dir"] v with
  | [failDelay, successDelay, fetch, refresh, schedule, scratch] =>
    pure
      { failDelaySecs := ← defaulted uint64? d.failDelaySecs failDelay
        successDelaySecs := ← defaulted uint64? d.successDelaySecs successDelay
        fetchTimeoutSecs := ← defaulted uint64? d.fetchTimeoutSecs fetch
        refreshTimeoutSecs := ← defaulted uint64? d.refreshTimeoutSecs refresh
        scheduleTimeoutSecs := ← defaulted uint64? d.scheduleTimeoutSecs schedule
        scratchDir := ← optional str? scratch }
  | _ => none

/-- Reads the section of a worker. -/
def workerOfJson (rule : ListRule) (v : Json) : Option WorkerConfig := do
  let d : WorkerConfig := {}
  match ← fields rule
      ["fail_delay_secs", "success_delay_secs", "cleanup_timeout_secs", "take_timeout_secs",
        "lint_timeout_secs", "update_timeout_secs", "lock_duration_secs", "mount_path",
        "scratch_dir"] v with
  | [failDelay, successDelay, cleanup, take, lint, update, lock, mount, scratch] =>
    pure
      { failDelaySecs := ← defaulted uint64? d.failDelaySecs failDelay
        successDelaySecs := ← defaulted uint64? d.successDelaySecs successDelay
        cleanupTimeoutSecs := ← defaulted uint64? d.cleanupTimeoutSecs cleanup
        takeTimeoutSecs := ← defaulted uint64? d.takeTimeoutSecs take
        lintTimeoutSecs := ← defaulted uint64? d.lintTimeoutSecs lint
        updateTimeoutSecs := ← defaulted uint64? d.updateTimeoutSecs update
        lockDurationSecs := ← defaulted uint64? d.lockDurationSecs lock
        mountPath := ← defaulted str? d.mountPath mount
        scratchDir := ← optional str? scratch }
  | _ => none

/-- Reads the section of the sandbox. -/
def sandboxOfJson (rule : ListRule) (v : Json) : Option SandboxConfig := do
  let d : SandboxConfig := {}
  match ← fields rule
      ["docker_socket", "memory", "cpus", "pids_limit", "kill_timeout_secs", "max_output"] v with
  | [socket, memory, cpus, pids, kill, output] =>
    pure
      { dockerSocket := ← defaulted str? d.dockerSocket socket
        memory := ← defaulted str? d.memory memory
        cpus := ← defaulted number? d.cpus cpus
        pidsLimit := ← defaulted int64? d.pidsLimit pids
        killTimeoutSecs := ← defaulted uint64? d.killTimeoutSecs kill
        maxOutput := ← defaulted str? d.maxOutput output }
  | _ => none

/-- Reads all settings. -/
def ofJson (rule : ListRule) (v : Json) : Option Config := do
  match ← fields rule ["storage", "scheduler", "worker", "sandbox"] v with
  | [storage, scheduler, worker, sandbox] =>
    pure
      { storage := ← defaulted (storageOfJson rule) {} storage
        scheduler := ← defaulted (schedulerOfJson rule) {} scheduler
        worker := ← defaulted (workerOfJson rule) {} worker
        sandbox := ← defaulted (sandboxOfJson rule) {} sandbox }
  | _ => none

/-- The settings of the store with their names, in the order in which they are
written. -/
def storageEntries (c : StorageConfig) : List (String × Json) :=
  [("path", .str c.path),
   ("busy_timeout_secs", ofUInt64 c.busyTimeoutSecs)]

/-- The settings of the scheduler with their names; what is not set is `null`. -/
def schedulerEntries (c : SchedulerConfig) : List (String × Json) :=
  [("fail_delay_secs", ofUInt64 c.failDelaySecs),
   ("success_delay_secs", ofUInt64 c.successDelaySecs),
   ("fetch_timeout_secs", ofUInt64 c.fetchTimeoutSecs),
   ("refresh_timeout_secs", ofUInt64 c.refreshTimeoutSecs),
   ("schedule_timeout_secs", ofUInt64 c.scheduleTimeoutSecs),
   ("scratch_dir", ofStr? c.scratchDir)]

/-- The settings of a worker with their names; what is not set is `null`. -/
def workerEntries (c : WorkerConfig) : List (String × Json) :=
  [("fail_delay_secs", ofUInt64 c.failDelaySecs),
   ("success_delay_secs", ofUInt64 c.successDelaySecs),
   ("cleanup_timeout_secs", ofUInt64 c.cleanupTimeoutSecs),
   ("take_timeout_secs", ofUInt64 c.takeTimeoutSecs),
   ("lint_timeout_secs", ofUInt64 c.lintTimeoutSecs),
   ("update_timeout_secs", ofUInt64 c.updateTimeoutSecs),
   ("lock_duration_secs", ofUInt64 c.lockDurationSecs),
   ("mount_path", .str c.mountPath),
   ("scratch_dir", ofStr? c.scratchDir)]

/-- The settings of the sandbox with their names. -/
def sandboxEntries (c : SandboxConfig) : List (String × Json) :=
  [("docker_socket", .str c.dockerSocket),
   ("memory", .str c.memory),
   ("cpus", .float c.cpus),
   ("pids_limit", .int c.pidsLimit.toInt),
   ("kill_timeout_secs", ofUInt64 c.killTimeoutSecs),
   ("max_output", .str c.maxOutput)]

/-- The settings section by section, with their names. -/
def sections (c : Config) : List (String × List (String × Json)) :=
  [("storage", storageEntries c.storage),
   ("scheduler", schedulerEntries c.scheduler),
   ("worker", workerEntries c.worker),
   ("sandbox", sandboxEntries c.sandbox)]

end LintPatrol.Config
