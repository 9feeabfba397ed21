import LintPatrol.Proofs.Time.Millis
import LintPatrol.Time.Instant

/-!
# LintPatrol.Proofs.Time.Shift

When there is an instant a length of time before another one, and how far they
are apart.
-/

namespace LintPatrol.Time.Instant

/-- Nanoseconds below one second make an instant if the second has one. -/
theorem ofNanos?_isSome {n : Int} (hmin : minSeconds ≤ n / nanosPerSecond)
    (hmax : n / nanosPerSecond ≤ maxSeconds) : ∃ t, ofNanos? n = some t := by
  have hnanos : (n % nanosPerSecond).toNat < 1000000000 := by
    simp only [nanosPerSecond]
    omega
  have hvalid : isInstant (n / nanosPerSecond) (n % nanosPerSecond).toNat = true := by
    rw [isInstant_iff]
    refine ⟨hmin, hmax, ?_, fun hleap => absurd hnanos (by omega)⟩
    simp only [nanosLimit]
    omega
  exact ⟨_, by rw [ofNanos?, ofParts?, dif_pos hvalid]⟩

/-- The nanoseconds of an instant lie in a second that has one. -/
theorem sinceEpoch_div_le (t : Instant) : t.sinceEpoch / nanosPerSecond ≤ maxSeconds := by
  obtain ⟨-, hmax, hnanos, hleap⟩ := (isInstant_iff _ _).mp t.isInstant_eq
  simp only [sinceEpoch, nanosPerSecond, nanosLimit, maxSeconds] at *
  omega

/-- The milliseconds of an instant are its nanoseconds, rounded down. -/
theorem millis_eq_div (t : Instant) : t.millis = t.sinceEpoch / nanosPerMilli := by
  simp only [millis, sinceEpoch, nanosPerSecond, nanosPerMilli]
  omega

/-- The instant of some nanoseconds has them. -/
theorem sinceEpoch_of_ofNanos? {n : Int} {t : Instant} (h : ofNanos? n = some t) :
    t.sinceEpoch = n := by
  obtain ⟨hseconds, hnanos⟩ := ofParts?_eq_some h
  simp only [sinceEpoch, hseconds, hnanos, nanosPerSecond]
  omega

/-- There is an instant for every number of seconds that is not too great. -/
theorem exists_sinceEpoch {n : Nat} (h : n ≤ maxSeconds) :
    ∃ t : Instant, t.sinceEpoch = n * nanosPerSecond := by
  have hseconds : ((n : Int) * nanosPerSecond) / nanosPerSecond = n :=
    Int.mul_ediv_cancel _ (by decide)
  have hmin : minSeconds ≤ n := by
    simp only [minSeconds]
    omega
  obtain ⟨t, ht⟩ := ofNanos?_isSome (hseconds.symm ▸ hmin) (hseconds.symm ▸ h)
  exact ⟨t, sinceEpoch_of_ofNanos? ht⟩

/-- An instant that lies a length of time before another one does so to the
nanosecond. -/
theorem sinceEpoch_of_before? {t u : Instant} {d : Duration} (h : t.before? d = some u) :
    u.sinceEpoch = t.sinceEpoch - d.nanos := sinceEpoch_of_ofNanos? h

/-- Any length of time can be taken from an instant, if what remains does not
lie before the first one. -/
theorem before?_isSome {t : Instant} {d : Duration}
    (h : minSeconds * nanosPerSecond ≤ t.sinceEpoch - d.nanos) : ∃ u, t.before? d = some u := by
  have hmax := t.sinceEpoch_div_le
  refine ofNanos?_isSome ?_ ?_ <;> simp only [nanosPerSecond, minSeconds, maxSeconds] at * <;> omega

/-- A length of time that can be taken from an instant is no longer than all of
time. -/
theorem nanos_le_of_before? {t u : Instant} {d : Duration} (h : t.before? d = some u) :
    (d.nanos : Int) ≤ (maxSeconds - minSeconds + 1) * nanosPerSecond := by
  obtain ⟨hseconds, -⟩ := ofParts?_eq_some h
  obtain ⟨hmin, -, -, -⟩ := (isInstant_iff _ _).mp u.isInstant_eq
  have hmax := t.sinceEpoch_div_le
  simp only [nanosPerSecond, minSeconds, maxSeconds] at *
  omega

end LintPatrol.Time.Instant
