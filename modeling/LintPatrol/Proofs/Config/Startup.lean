import LintPatrol.Database.File
import LintPatrol.Proofs.Config.Limits
import LintPatrol.Role.Worker
import LintPatrol.Sandbox.Request
import Mathlib.Control.Monad.Basic

/-!
# LintPatrol.Proofs.Config.Startup

What a run can rely on that starts with valid settings.  A sandbox has its
limits, and a worker a horizon before the time its clock shows.  A database is
another matter: the time to wait for another process has to fit 31 bits of
milliseconds, less than 25 days, while valid settings may ask for a year.

## Main statements

* `Database.openAt_ne_crashed` and `Database.openAt_ne_opened`: it is the length
  of that time alone which decides whether opening breaks down.
* `Config.starts_iff`: of all that a start needs, nothing else can be missing.
-/

namespace LintPatrol

open Time

/-! ## databases -/

namespace Database

variable {files : Tree} {directory path : String} {busyTimeout : Duration}

/-- Nothing breaks down if the time to wait for another process fits. -/
theorem openAt_ne_crashed (h : busyTimeout.millis ≤ busyLimit) (at_ : Location) :
    openAt files directory path busyTimeout ≠ .crashed at_ := by
  have hfits : ¬busyLimit < busyTimeout.millis := Nat.not_lt.mpr h
  unfold openAt
  simp only [if_neg hfits]
  split
  · exact Opening.noConfusion
  · split
    · exact Opening.noConfusion
    · exact Opening.noConfusion
    · split
      · exact Opening.noConfusion
      · split
        · split <;> exact Opening.noConfusion
        · exact Opening.noConfusion

/-- No database is opened if it does not. -/
theorem openAt_ne_opened (h : busyLimit < busyTimeout.millis) (d : Database) (at_ : Location) :
    openAt files directory path busyTimeout ≠ .opened d at_ := by
  unfold openAt
  simp only [if_pos h]
  split
  · exact Opening.noConfusion
  · split
    · exact Opening.noConfusion
    · exact Opening.noConfusion
    · split <;> exact Opening.noConfusion

/-- Opening a store that is kept in memory breaks down. -/
theorem openAt_memory (h : busyLimit < busyTimeout.millis) :
    openAt files directory ":memory:" busyTimeout = .crashed .memory := by
  have hnul : (":memory:".toList.contains '\x00') = false := by decide
  have hplace : locate? files directory ":memory:" = some .memory := by
    rw [locate?, if_pos (.inr rfl)]
  unfold openAt
  simp only [hnul, hplace, if_pos h, Bool.false_eq_true, if_false]

end Database

/-! ## sandboxes -/

/-- The limits are those of the settings, once both amounts have been read. -/
theorem SandboxLimits.ofConfig_eq {c : SandboxConfig} {memory output : Int}
    (hmemory : c.memoryBytes = .ok memory) (houtput : c.maxOutputBytes = .ok output) :
    ofConfig c = .ok ⟨memory, c.cpuQuota, c.pidsLimit.toInt, output.toNat⟩ := by
  rw [ofConfig, hmemory, houtput]
  rfl

/-- A sandbox has its limits if its amounts of memory can be read, and then
they are positive. -/
theorem SandboxLimits.exists_ofConfig {c : SandboxConfig} (hmemory : ∃ n, c.memoryBytes = .ok n)
    (houtput : ∃ n, c.maxOutputBytes = .ok n) :
    ∃ limits, ofConfig c = .ok limits ∧ 0 < limits.memory ∧ 0 < limits.maxOutput := by
  obtain ⟨memory, hmemory⟩ := hmemory
  obtain ⟨output, houtput⟩ := houtput
  have hpositive : 0 < memory := (MemorySize.bounds_of_parse hmemory).1
  have hsome : 0 < output := (MemorySize.bounds_of_parse houtput).1
  refine ⟨_, ofConfig_eq hmemory houtput, hpositive, ?_⟩
  show 0 < output.toNat
  omega

/-! ## workers -/

/-- The horizon of a lease of a second at least lies before now, to the
millisecond. -/
theorem Time.Instant.before_of_before? {now horizon : Instant} {lock : UInt64}
    (hlock : 0 < lock.toNat) (h : now.before? (.ofSeconds lock) = some horizon) :
    horizon.sinceEpoch < now.sinceEpoch ∧ horizon.millis < now.millis := by
  have hnanos : horizon.sinceEpoch = now.sinceEpoch - lock.toNat * nanosPerSecond := by
    rw [sinceEpoch_of_before? h]
    simp [Duration.ofSeconds]
  rw [millis_eq_div, millis_eq_div, hnanos]
  simp only [nanosPerSecond, nanosPerMilli]
  omega

namespace Services

variable {δ ε : Type} {sv : Services δ ε} {s : Scope} {w : World δ ε} {lock : UInt64}
  {horizon : Instant}

/-- A worker that has a horizon asks for a task with it. -/
theorem takeTask_asks (hlock : lock.toNat ≤ 31536000)
    (hhorizon : (sv.clock w.time).before? (.ofSeconds lock) = some horizon) :
    (sv.takeTask (.ofSeconds lock) s () w).1 ≠ .crashed ∧
      ∀ t w', w.call s (sv.keeper.tryTake horizon (sv.clock w.time)) = (some (.ok t), w') →
        sv.takeTask (.ofSeconds lock) s () w = (.produced [t], w') := by
  have hfits : ¬maxLock < (Duration.ofSeconds lock).nanos := by
    simp only [maxLock, Duration.ofSeconds, nanosPerMilli, nanosPerSecond]
    omega
  simp only [takeTask, if_neg hfits, hhorizon]
  constructor
  · split <;> simp
  · intro t w' hcall
    rw [hcall]

end Services

/-! ## all of it -/

namespace Config

/-- What a worker needs of its settings: whatever its services are and wherever
it stands, it has a horizon before the time its clock shows, if that is not
before 1970, and asks for a task with it. -/
def HasHorizons (c : WorkerConfig) : Prop :=
  ∀ (δ ε : Type) (sv : Services δ ε) (s : Scope) (w : World δ ε),
    0 ≤ (sv.clock w.time).seconds →
      ∃ horizon, (sv.clock w.time).before? (.ofSeconds c.lockDurationSecs) = some horizon ∧
        horizon.sinceEpoch < (sv.clock w.time).sinceEpoch ∧
        horizon.millis < (sv.clock w.time).millis ∧
        (sv.takeTask (.ofSeconds c.lockDurationSecs) s () w).1 ≠ .crashed ∧
        ∀ t w', w.call s (sv.keeper.tryTake horizon (sv.clock w.time)) = (some (.ok t), w') →
          sv.takeTask (.ofSeconds c.lockDurationSecs) s () w = (.produced [t], w')

/-- **A run with valid settings starts, if the database does not break down.**
It does not just if the time to wait for another process is at most 2147483
seconds; if it is longer no database at all can be opened. -/
theorem starts_iff {config : Config} (hvalid : config.validate = .ok ()) :
    ((∀ files directory path at_,
        Database.openAt files directory path (.ofSeconds config.storage.busyTimeoutSecs) ≠
          .crashed at_) ↔ config.storage.busyTimeoutSecs.toNat ≤ 2147483) ∧
      (2147483 < config.storage.busyTimeoutSecs.toNat → ∀ files directory path d at_,
        Database.openAt files directory path (.ofSeconds config.storage.busyTimeoutSecs) ≠
          .opened d at_) ∧
      (∃ limits, SandboxLimits.ofConfig config.sandbox = .ok limits ∧ 0 < limits.memory ∧
        0 < limits.maxOutput) ∧
      HasHorizons config.worker := by
  have hmillis : (Duration.ofSeconds config.storage.busyTimeoutSecs).millis =
      config.storage.busyTimeoutSecs.toNat * 1000 := by
    simp only [Duration.millis, Duration.ofSeconds, nanosPerSecond, nanosPerMilli]
    omega
  have haccepted := config.validate_eq_ok_iff.mp hvalid
  refine ⟨⟨fun hopens => ?_, fun hfits => ?_⟩, fun hlong => ?_,
    SandboxLimits.exists_ofConfig haccepted.memory haccepted.maxOutput, ?_⟩
  · refine Nat.le_of_not_lt fun hlong => ?_
    refine hopens Tree.empty "" ":memory:" .memory (Database.openAt_memory ?_)
    rw [hmillis, Database.busyLimit]
    omega
  · intro files directory path at_
    refine Database.openAt_ne_crashed ?_ at_
    rw [hmillis, Database.busyLimit]
    omega
  · intro files directory path d at_
    refine Database.openAt_ne_opened ?_ d at_
    rw [hmillis, Database.busyLimit]
    omega
  · intro δ ε sv s w hnow
    obtain ⟨hpositive, hyear⟩ := lock_bounds hvalid
    obtain ⟨horizon, hhorizon⟩ := exists_horizon hvalid hnow
    obtain ⟨hnanos, hearlier⟩ := Instant.before_of_before? hpositive hhorizon
    exact ⟨horizon, hhorizon, hnanos, hearlier, Services.takeTask_asks hyear hhorizon⟩

/-- Settings with the longest time to wait with which a run starts. -/
def waiting : Config := { storage := { busyTimeoutSecs := 2147483 } }

/-- No database of theirs breaks down, and their worker has horizons. -/
theorem starts_iff_waiting :
    waiting.validate = .ok () ∧
      (∀ files directory path at_,
        Database.openAt files directory path (.ofSeconds waiting.storage.busyTimeoutSecs) ≠
          .crashed at_) ∧ HasHorizons waiting.worker := by
  have hvalid : waiting.validate = .ok () := by decide +kernel
  obtain ⟨hopens, -, -, hhorizons⟩ := starts_iff hvalid
  exact ⟨hvalid, hopens.mpr (by decide), hhorizons⟩

/-- Settings with one second more. -/
def patient : Config := { storage := { busyTimeoutSecs := 2147484 } }

/-- They are valid, and opening their database breaks the program down. -/
theorem patient_crashes :
    patient.validate = .ok () ∧
      Database.openAt Tree.empty "" patient.storage.path
        (.ofSeconds patient.storage.busyTimeoutSecs) = .crashed (.file ["bughunt.db"]) := by
  have hvalid : patient.validate = .ok () := by decide +kernel
  exact ⟨hvalid, by rfl⟩

end Config

end LintPatrol
