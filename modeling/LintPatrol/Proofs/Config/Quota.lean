import LintPatrol.Proofs.Config.Startup
import LintPatrol.Proofs.Number.Word

/-!
# LintPatrol.Proofs.Config.Quota

What valid settings limit a container to.  Its memory and its processes are
limited always.  Its processor time is limited only if the share is large
enough: a share below half a microsecond in each period is rounded to none, and
the daemon takes a quota of zero for no limit at all.

The quota is that of the rounded product, `exactQuota` that of the exact one.
Both are positive from some share on (`cpuQuota_pos_iff`, `exactQuota_pos_iff`),
and differ in that at one share only.
-/

namespace LintPatrol

open Number

/-! ## Rounding to integers -/

namespace Number.Binary64

/-- A quotient is rounded to something just if it is at least a half. -/
theorem divHalfUp_pos_iff (num : Nat) {den : Nat} (hden : 0 < den) :
    0 < divHalfUp num den ↔ 1 / 2 ≤ (num : ℚ) / den := by
  have hden' : (0 : ℚ) < den := by exact_mod_cast hden
  have hnat : 0 < divHalfUp num den ↔ den ≤ 2 * num := by
    unfold divHalfUp
    rw [Nat.div_pos_iff]
    omega
  rw [hnat, div_le_div_iff₀ two_pos hden', one_mul, mul_comm]
  exact_mod_cast Iff.rfl

/-- Clamping does not make a number vanish. -/
theorem clamp_pos_iff {lo hi : Int} (hlo : lo ≤ 0) (hhi : 0 < hi) (n : Nat) :
    0 < max lo (min hi (n : Int)) ↔ 0 < n := by
  omega

/-- A number is rounded to one above zero from one half on. -/
theorem roundBetween_pos_iff {lo hi : Int} (hlo : lo ≤ 0) (hhi : 0 < hi) {x : Binary64} {m : Nat}
    {q : Int} (hx : x.view = .finite false m q) :
    0 < x.roundBetween lo hi ↔ 1 / 2 ≤ (m : ℚ) * 2 ^ q := by
  obtain ⟨hden, heq⟩ := fraction_eq m q
  simp only [roundBetween, hx, Bool.false_eq_true, if_false]
  rw [clamp_pos_iff hlo hhi, divHalfUp_pos_iff _ hden, heq]

/-- One half. -/
theorem half_canonical : Canonical (2 ^ 52) (-53) := ⟨by decide, by decide, by decide, .inr le_rfl⟩

/-- What is nearest to a fraction is rounded to an integer above zero from the
word of one half on. -/
theorem roundBetween_ofFraction_pos_iff {lo hi : Int} (hlo : lo ≤ 0) (hhi : 0 < hi)
    (num den : Nat) :
    0 < (ofFraction false num den).roundBetween lo hi ↔ pack (2 ^ 52) (-53) ≤ nearest num den := by
  by_cases hinf : nearest num den = infinityBits
  · have hle : pack (2 ^ 52) (-53) ≤ infinityBits := by decide
    rw [ofFraction, hinf]
    simp only [roundBetween, view_infinity, Bool.false_eq_true, if_false, hhi, hle]
  · have hlt : nearest num den < infinityBits := lt_of_le_of_ne (nearest_le num den) hinf
    obtain ⟨m, q, hm, hpack⟩ := exists_canonical hlt
    rw [ofFraction, ← hpack, roundBetween_pos_iff hlo hhi (hm.withSign_pack false),
      half_canonical.pack_le_iff hm]
    norm_num

/-- The word of a product with a finite number grows with the word of the other
factor. -/
theorem nearest_product_mono {m k n : Nat} {q r e : Int} (hm : Canonical m q) (hk : Canonical k r)
    (h : pack m q ≤ pack k r) :
    nearest (fraction (m * n) (q + e)).1 (fraction (m * n) (q + e)).2 ≤
      nearest (fraction (k * n) (r + e)).1 (fraction (k * n) (r + e)).2 := by
  obtain ⟨hden, heq⟩ := fraction_eq (m * n) (q + e)
  obtain ⟨hden', heq'⟩ := fraction_eq (k * n) (r + e)
  refine nearest_mono hden hden' ?_
  rw [heq, heq', zpow_add₀ two_ne_zero, zpow_add₀ two_ne_zero]
  push_cast
  have hle := (hm.pack_le_iff hk).mp h
  calc (m : ℚ) * n * (2 ^ q * 2 ^ e) = m * 2 ^ q * (n * 2 ^ e) := by ring
    _ ≤ k * 2 ^ r * (n * 2 ^ e) := mul_le_mul_of_nonneg_right hle (by positivity)
    _ = k * n * (2 ^ r * 2 ^ e) := by ring

end Number.Binary64

/-- The number is `y` or more. -/
def Number.Binary64.AtLeast (y : ℚ) (x : Binary64) : Prop :=
  match x.view with
  | .nan _ => False
  | .infinite negative => negative = false
  | .finite negative m q => y ≤ (if negative then -1 else 1) * (m * 2 ^ q)

/-- A positive number is compared by its exact value. -/
theorem Number.Binary64.atLeast_finite {x : Binary64} {m : Nat} {q : Int}
    (h : x.view = .finite false m q) (y : ℚ) : x.AtLeast y ↔ y ≤ m * 2 ^ q := by
  simp [AtLeast, h]

/-! ## The share of the processors -/

namespace SandboxConfig

open Binary64

/-- The quota without the rounding of the product: the exact value of the share
times the period, rounded to an integer, a half away from zero. -/
def exactQuota (c : SandboxConfig) : Int :=
  match c.cpus.view with
  | .nan _ => 0
  | .infinite negative => if negative then minInt64 else maxInt64
  | .finite negative m q =>
    let (num, den) := fraction (m * cpuPeriod) q
    let quota : Int := divHalfUp num den
    saturateInt64 (if negative then -quota else quota)

/-- The least share that gets any time, the number nearest to 0.0000005. -/
def leastShare : ℚ := 4722366482869645 / 2 ^ 73

example : (ofDecimal false 5 (-7)).view = .finite false 4722366482869645 (-73) := by decide +kernel

variable {c : SandboxConfig}

/-- The period is a whole number, exactly. -/
theorem period_view : (ofInt cpuPeriod).view = .finite false 8589934592000000 (-33) := by
  decide +kernel

/-- A positive share is a number or infinity. -/
theorem view_of_isPositive {x : Binary64} (h : x.isPositive = true) :
    x.view = .infinite false ∨ ∃ m q, x.view = .finite false m q := by
  unfold isPositive at h
  split at h
  · cases h
  · next negative hview =>
    cases negative
    · exact .inl hview
    · cases h
  · next negative m q hview =>
    cases negative
    · exact .inr ⟨m, q, hview⟩
    · cases h

/-- The quota is positive from the share on that is nearest to half a
microsecond in each period. -/
theorem cpuQuota_pos_iff (h : c.cpus.isPositive = true) :
    0 < c.cpuQuota ↔ c.cpus.AtLeast leastShare := by
  rcases view_of_isPositive h with hview | ⟨m, q, hview⟩
  · have hquota : c.cpuQuota = maxInt64 := by
      simp only [cpuQuota, mul, hview, period_view]
      decide +kernel
    simp [hquota, AtLeast, hview, maxInt64]
  · obtain ⟨hm, -⟩ := eq_of_view_finite hview
    have hleast : Canonical 4722366482869645 (-73) :=
      ⟨by decide, by decide, by decide, .inr (by decide)⟩
    have hbefore : Canonical 4722366482869644 (-73) :=
      ⟨by decide, by decide, by decide, .inr (by decide)⟩
    have hshare : c.cpus.AtLeast leastShare ↔ pack 4722366482869645 (-73) ≤ pack m q := by
      rw [atLeast_finite hview, hleast.pack_le_iff hm, leastShare]
      norm_num
    have hproduct : c.cpus.mul (ofInt cpuPeriod) = ofFraction false
        (fraction (m * 8589934592000000) (q + -33)).1
        (fraction (m * 8589934592000000) (q + -33)).2 := by
      simp only [mul, hview, period_view]
      rfl
    rw [cpuQuota, hproduct, roundBetween_ofFraction_pos_iff (by decide) (by decide), hshare]
    constructor
    · intro hhalf
      by_contra hlt
      have hle : pack m q ≤ pack 4722366482869644 (-73) := by
        have hnext : pack 4722366482869645 (-73) = pack 4722366482869644 (-73) + 1 := by decide
        omega
      have hbelow : nearest (fraction (4722366482869644 * 8589934592000000) (-73 + -33)).1
          (fraction (4722366482869644 * 8589934592000000) (-73 + -33)).2 < pack (2 ^ 52) (-53) := by
        decide +kernel
      exact absurd (hhalf.trans (nearest_product_mono hm hbefore hle)) (Nat.not_le.mpr hbelow)
    · intro hle
      have hhalf : nearest (fraction (4722366482869645 * 8589934592000000) (-73 + -33)).1
          (fraction (4722366482869645 * 8589934592000000) (-73 + -33)).2 = pack (2 ^ 52) (-53) := by
        decide +kernel
      exact hhalf ▸ nearest_product_mono hleast hm hle

/-- The exact quota is positive from half a microsecond on. -/
theorem exactQuota_pos_iff (h : c.cpus.isPositive = true) :
    0 < c.exactQuota ↔ c.cpus.AtLeast (1 / 2000000) := by
  rcases view_of_isPositive h with hview | ⟨m, q, hview⟩
  · simp [exactQuota, AtLeast, hview, maxInt64]
  · obtain ⟨hden, heq⟩ := fraction_eq (m * cpuPeriod) q
    rw [atLeast_finite hview]
    simp only [exactQuota, hview, Bool.false_eq_true, if_false, saturateInt64]
    rw [clamp_pos_iff (by decide) (by decide), divHalfUp_pos_iff _ hden, heq, cpuPeriod]
    push_cast
    constructor <;> intro h <;> linarith

end SandboxConfig

/-! ## Containers -/

/-- The limit of that name in what a request says of the host. -/
def SandboxRequest.limit? (name : String) (r : SandboxRequest) : Option Int :=
  (((r.body?.bind (·.field? "HostConfig")).bind (·.field? name)).bind Json.int?)

/-- The limits stand in the request as they are. -/
theorem SandboxRequest.limit?_create (image mount host : String) (limits : SandboxLimits) :
    (create image mount host limits).limit? "Memory" = some limits.memory ∧
      (create image mount host limits).limit? "CpuQuota" = some limits.cpuQuota ∧
      (create image mount host limits).limit? "PidsLimit" = some limits.pids := by
  refine ⟨?_, ?_, ?_⟩ <;> rfl

/-- **Valid settings limit the memory and the processes of every container**, and
its processor time just if the share is large enough. -/
theorem Config.create_limits {config : Config} (hvalid : config.validate = .ok ()) :
    (∃ limits, SandboxLimits.ofConfig config.sandbox = .ok limits ∧
      ∀ image mount host, ∃ memory quota pids,
        (SandboxRequest.create image mount host limits).limit? "Memory" = some memory ∧
        (SandboxRequest.create image mount host limits).limit? "CpuQuota" = some quota ∧
        (SandboxRequest.create image mount host limits).limit? "PidsLimit" = some pids ∧
        0 < memory ∧ 0 < pids ∧
        (0 < quota ↔ config.sandbox.cpus.AtLeast SandboxConfig.leastShare)) ∧
      (0 < config.sandbox.exactQuota ↔ config.sandbox.cpus.AtLeast (1 / 2000000)) := by
  have haccepted := config.validate_eq_ok_iff.mp hvalid
  obtain ⟨memory, hmemory⟩ := haccepted.memory
  obtain ⟨output, houtput⟩ := haccepted.maxOutput
  refine ⟨⟨_, SandboxLimits.ofConfig_eq hmemory houtput, fun image mount host => ?_⟩,
    SandboxConfig.exactQuota_pos_iff haccepted.cpus⟩
  obtain ⟨hm, hq, hp⟩ := SandboxRequest.limit?_create image mount host
    ⟨memory, config.sandbox.cpuQuota, config.sandbox.pidsLimit.toInt, output.toNat⟩
  exact ⟨_, _, _, hm, hq, hp, (MemorySize.bounds_of_parse hmemory).1,
    Int64.lt_iff_toInt_lt.mp haccepted.pidsLimit, SandboxConfig.cpuQuota_pos_iff haccepted.cpus⟩

/-- The usual settings leave a container four processors. -/
theorem Config.create_limits_usual :
    ({} : Config).validate = .ok () ∧ ∃ limits quota,
      SandboxLimits.ofConfig ({} : Config).sandbox = .ok limits ∧
        (SandboxRequest.create "acme/lint" "/src" "/tmp/checkout" limits).limit? "CpuQuota" =
          some quota ∧ 0 < quota := by
  have hvalid : ({} : Config).validate = .ok () := by decide +kernel
  have hview : ({} : Config).sandbox.cpus.view = .finite false 4503599627370496 (-50) := by
    decide +kernel
  have hshare : ({} : Config).sandbox.cpus.AtLeast SandboxConfig.leastShare := by
    rw [Binary64.atLeast_finite hview, SandboxConfig.leastShare]
    norm_num
  obtain ⟨⟨limits, hlimits, hcreate⟩, -⟩ := create_limits hvalid
  obtain ⟨_, quota, _, -, hq, -, -, -, hpos⟩ := hcreate "acme/lint" "/src" "/tmp/checkout"
  exact ⟨hvalid, limits, quota, hlimits, hq, hpos.mpr hshare⟩

/-- Settings with a share of a tenth of a microsecond in each period. -/
def Config.idle : Config := { sandbox := { cpus := ⟨0x3E7AD7F29ABCAF48⟩ } }

/-- They are valid, and the quota of their containers is zero, however it is
rounded. -/
theorem Config.idle_unlimited :
    idle.sandbox.cpus = Binary64.ofDecimal false 1 (-7) ∧ idle.validate = .ok () ∧
      idle.sandbox.exactQuota = 0 ∧
      ∃ limits, SandboxLimits.ofConfig idle.sandbox = .ok limits ∧ ∀ image mount host,
        (SandboxRequest.create image mount host limits).limit? "CpuQuota" = some 0 := by
  have hshare : idle.sandbox.cpus = Binary64.ofDecimal false 1 (-7) := by decide +kernel
  have hvalid : idle.validate = .ok () := by decide +kernel
  have hexact : idle.sandbox.exactQuota = 0 := by decide +kernel
  have hquota : idle.sandbox.cpuQuota = 0 := by decide +kernel
  refine ⟨hshare, hvalid, hexact, ⟨4294967296, 0, 1024, 67108864⟩, by decide +kernel, ?_⟩
  intro image mount host
  rfl

end LintPatrol
