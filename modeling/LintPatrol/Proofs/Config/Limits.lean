import LintPatrol.Config.Basic
import LintPatrol.Proofs.Time.Shift

/-!
# LintPatrol.Proofs.Config.Limits

What the settings that a run can work with have in common: `validate` accepts
just the settings that keep to all limits (`Accepted`), and an accepted amount
of memory is one of at least a byte.
-/

namespace LintPatrol

open Time

/-- An amount of memory that can be read is positive and fits 64 bits. -/
theorem MemorySize.bounds_of_parse {value : String} {n : Int} (h : parse value = .ok n) :
    0 < n ∧ n ≤ Number.maxInt64 := by
  unfold parse at h
  simp only at h
  split at h
  · cases h
  · split at h
    · next hbounds =>
      cases h
      exact hbounds
    · cases h

namespace Config

/-- The settings keep to all limits. -/
structure Accepted (c : Config) : Prop where
  timeouts : ∀ t ∈ c.timeouts, t.2 ≠ 0 ∧ t.2 ≤ maxTimeoutSecs
  cpus : c.sandbox.cpus.isPositive = true
  pidsLimit : 0 < c.sandbox.pidsLimit
  memory : ∃ n, c.sandbox.memoryBytes = .ok n
  maxOutput : ∃ n, c.sandbox.maxOutputBytes = .ok n
  mountPath : isAbsolute c.worker.mountPath = true

/-- A timeout is accepted just if it is positive and a year at most. -/
theorem timeoutProblem?_eq_none_iff (name : String) (value : UInt64) :
    timeoutProblem? name value = none ↔ value ≠ 0 ∧ value ≤ maxTimeoutSecs := by
  unfold timeoutProblem?
  split
  · next hzero => simp [hzero]
  · next hpos =>
    split
    · next hlong => simp [UInt64.not_le.mpr hlong]
    · next hshort => simp [hpos, UInt64.not_lt.mp hshort]

/-- An amount of memory is accepted just if it can be read. -/
theorem memoryProblem?_eq_none_iff (name : String) (size : Except Failure Int) :
    memoryProblem? name size = none ↔ ∃ n, size = .ok n := by
  cases size <;> simp [memoryProblem?]

/-- **Settings are accepted just if they keep to all limits.** -/
theorem validate_eq_ok_iff (c : Config) : c.validate = .ok () ↔ c.Accepted := by
  have hproblems : c.validate = .ok () ↔ c.problems = [] := by
    unfold validate
    split <;> simp_all
  simp only [hproblems, problems, List.append_eq_nil_iff, List.filterMap_eq_nil_iff,
    Option.toList_eq_nil_iff, timeoutProblem?_eq_none_iff, memoryProblem?_eq_none_iff,
    ite_eq_left_iff, List.cons_ne_nil, imp_false, Decidable.not_not]
  constructor
  · rintro ⟨⟨⟨⟨⟨timeouts, cpus⟩, pidsLimit⟩, memory⟩, maxOutput⟩, mountPath⟩
    exact ⟨timeouts, cpus, pidsLimit, memory, maxOutput, mountPath⟩
  · rintro ⟨timeouts, cpus, pidsLimit, memory, maxOutput, mountPath⟩
    exact ⟨⟨⟨⟨⟨timeouts, cpus⟩, pidsLimit⟩, memory⟩, maxOutput⟩, mountPath⟩

section Valid

variable {config : Config} (hvalid : config.validate = .ok ())

include hvalid

/-- Valid settings have no timeout of zero or of more than a year. -/
theorem timeout_bounds {name : String} {value : UInt64} (hmem : (name, value) ∈ config.timeouts) :
    0 < value.toNat ∧ value.toNat ≤ 31536000 := by
  obtain ⟨hpos, hle⟩ := (config.validate_eq_ok_iff.mp hvalid).timeouts _ hmem
  refine ⟨Nat.pos_of_ne_zero fun hzero => hpos (UInt64.toNat_inj.mp hzero), ?_⟩
  exact UInt64.le_iff_toNat_le.mp hle

/-- Nor a lease of zero or of more than a year. -/
theorem lock_bounds :
    0 < config.worker.lockDurationSecs.toNat ∧
      config.worker.lockDurationSecs.toNat ≤ 31536000 := by
  have hmem : ("worker.lock_duration_secs", config.worker.lockDurationSecs) ∈ config.timeouts := by
    simp [timeouts]
  exact timeout_bounds hvalid hmem

/-- A worker with valid settings knows since when a lease has ended, unless its
clock shows a time before 1970. -/
theorem exists_horizon {now : Instant} (hnow : 0 ≤ now.seconds) :
    ∃ horizon, now.before? (.ofSeconds config.worker.lockDurationSecs) = some horizon := by
  have hlock := (lock_bounds hvalid).2
  refine Instant.before?_isSome ?_
  simp only [Instant.sinceEpoch, Duration.ofSeconds, nanosPerSecond, minSeconds]
  omega

end Valid

end Config

end LintPatrol
