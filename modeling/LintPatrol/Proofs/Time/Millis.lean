import LintPatrol.Time.Instant

/-!
# LintPatrol.Proofs.Time.Millis

Instants kept as whole milliseconds: what is below a millisecond is lost, and
nothing else.  So `millis (ofMillis t.millis) = t.millis` for every instant,
and instants that differ in their milliseconds are still told apart once they
have been kept.
-/

namespace LintPatrol.Time

/-- An instant lies in the range of years, and has more than a second's nanoseconds only
in the last second of a minute. -/
theorem isInstant_iff (seconds : Int) (nanos : Nat) :
    isInstant seconds nanos = true ↔
      minSeconds ≤ seconds ∧ seconds ≤ maxSeconds ∧ nanos < nanosLimit ∧
        (1000000000 ≤ nanos → seconds % 60 = 59 ∧ seconds < maxSeconds) := by
  simp only [isInstant, decide_eq_true_eq]

namespace Instant

/-- The parts of an instant make it up again. -/
@[simp] theorem ofParts?_parts (t : Instant) : ofParts? t.seconds t.nanos = some t := by
  simp [ofParts?, t.isInstant_eq]

theorem ofParts?_eq_some {seconds : Int} {nanos : Nat} {t : Instant}
    (h : ofParts? seconds nanos = some t) : t.seconds = seconds ∧ t.nanos = nanos := by
  unfold ofParts? at h
  split at h
  · cases h
    exact ⟨rfl, rfl⟩
  · contradiction

/-- An instant made of milliseconds has them. -/
theorem millis_eq_of_ofMillis? {ms : Int} {t : Instant} (h : ofMillis? ms = some t) :
    t.millis = ms := by
  obtain ⟨hs, hn⟩ := ofParts?_eq_some h
  have hnano : t.nanos / 1000000 = (ms % 1000).toNat := by
    rw [hn]
    exact Nat.mul_div_cancel _ (by decide)
  rw [millis, hnano, hs]
  omega

/-- The milliseconds of an instant make an instant. -/
theorem ofMillis?_millis (t : Instant) : ∃ u, ofMillis? t.millis = some u := by
  obtain ⟨hlo, hhi, hn, hleap⟩ := (isInstant_iff _ _).mp t.isInstant_eq
  have hvalid : isInstant (t.millis / 1000) ((t.millis % 1000).toNat * 1000000) = true := by
    rw [isInstant_iff]
    simp only [millis, minSeconds, maxSeconds, nanosLimit] at *
    omega
  exact ⟨_, by rw [ofMillis?, ofParts?, dif_pos hvalid]⟩

/-- The milliseconds of an instant are kept. -/
@[simp] theorem millis_ofMillis (t : Instant) : (ofMillis t.millis).millis = t.millis := by
  obtain ⟨u, hu⟩ := ofMillis?_millis t
  rw [ofMillis, hu, Option.getD_some]
  exact millis_eq_of_ofMillis? hu

end Instant

end LintPatrol.Time
