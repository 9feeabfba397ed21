import LintPatrol.Proofs.Chain.Step
import Mathlib.Data.List.Chain
import Mathlib.Order.Bounds.Basic

/-!
# LintPatrol.Proofs.Chain.Rhythm

The rhythm of a source that repeats itself, said of what is noted of it alone.
It emits at its start; after each report it pauses for as long as the report
says, and emits again when the pause is over; it ends at its start or during a
pause, but not while it awaits a report.

A pause is over at the first whole millisecond that does not come too early
(`Timeline.isLeast_tick`).

## Main statements

* `Rhythm.due_eq`: a pause is as long as it should be if it ends at a whole
  millisecond.
* `Rhythm.Keeps.append`: what is noted next has to follow what was noted last.
* `Rhythm.Keeps.outstanding`: of what was emitted, all but the last one have
  been reported on.
-/

namespace LintPatrol

open Time

/-- A timer goes off at the first whole millisecond that is not before its
moment. -/
theorem Timeline.isLeast_tick (moment : Nat) :
    IsLeast {m | nanosPerMilli ∣ m ∧ moment ≤ m} (tick moment) := by
  unfold tick nanosPerMilli
  refine ⟨⟨Nat.dvd_mul_left .., ?_⟩, ?_⟩
  · omega
  · rintro _ ⟨⟨k, rfl⟩, hle⟩
    have hk : (moment + 1000000 - 1) / 1000000 ≤ k := by omega
    omega

namespace Chain

/-- What is noted of a source that repeats itself: it emits, it hears the report on
what it emitted, or it stops. -/
inductive Beat where
  | emitted (moment : Nat)
  | heard (moment : Nat) (failed : Bool)
  | ended (moment : Nat)
deriving DecidableEq

/-- When a source begins, and how long it pauses. -/
structure Rhythm where
  start : Nat
  failDelay : Duration
  successDelay : Duration

namespace Rhythm

/-- How long the pause is after such a report. -/
def delay (ρ : Rhythm) (failed : Bool) : Duration := if failed then ρ.failDelay else ρ.successDelay

/-- The moment at which the pause is over that begins with such a report. -/
def due (ρ : Rhythm) (heard : Nat) (failed : Bool) : Nat :=
  Timeline.tick (heard + Timeline.pauseFrom heard (ρ.delay failed))

/-- An emission is due at the first whole millisecond at which the pause is over. -/
theorem isLeast_due (ρ : Rhythm) (heard : Nat) (failed : Bool) :
    IsLeast {m | nanosPerMilli ∣ m ∧ heard + Timeline.pauseFrom heard (ρ.delay failed) ≤ m}
      (ρ.due heard failed) :=
  Timeline.isLeast_tick _

/-- Nothing is due before the report has come. -/
theorem le_due (ρ : Rhythm) (heard : Nat) (failed : Bool) : heard ≤ ρ.due heard failed :=
  Nat.le_trans (Nat.le_add_right ..) (ρ.isLeast_due heard failed).1.2

/-- A pause that ends at a whole millisecond which the clock can show is as
long as it should be. -/
theorem due_eq {ρ : Rhythm} {heard : Nat} {failed : Bool}
    (hclock : heard + (ρ.delay failed).nanos < Timeline.clockLimit)
    (hwhole : nanosPerMilli ∣ heard + (ρ.delay failed).nanos) :
    ρ.due heard failed = heard + (ρ.delay failed).nanos := by
  have hleast := ρ.isLeast_due heard failed
  rw [Timeline.pauseFrom, if_pos hclock] at hleast
  exact hleast.unique ⟨⟨hwhole, Nat.le_refl _⟩, fun _ h => h.2⟩

/-- The one may be noted right after the other. -/
def Follows (ρ : Rhythm) : Beat → Beat → Prop
  | .emitted e, .heard r _ => e ≤ r
  | .heard r failed, .emitted e => e = ρ.due r failed
  | .heard r failed, .ended z => r ≤ z ∧ z ≤ ρ.due r failed
  | _, _ => False

/-- It may be noted first. -/
def Begins (ρ : Rhythm) : Beat → Prop
  | .emitted e => e = ρ.start
  | .heard .. => False
  | .ended z => z = ρ.start

/-- What was noted keeps to the rhythm. -/
structure Keeps (ρ : Rhythm) (log : List Beat) : Prop where
  begins : ∀ b ∈ log.head?, ρ.Begins b
  follows : log.IsChain ρ.Follows

variable {ρ : Rhythm} {log : List Beat} {b last : Beat}

theorem keeps_nil (ρ : Rhythm) : ρ.Keeps [] := ⟨by simp, .nil⟩

/-- The first thing is noted. -/
theorem keeps_singleton (h : ρ.Begins b) : ρ.Keeps [b] := ⟨by simpa using h, .singleton b⟩

/-- One thing more is noted. -/
theorem Keeps.append (h : ρ.Keeps log) (hlast : log.getLast? = some last)
    (hb : ρ.Follows last b) : ρ.Keeps (log ++ [b]) where
  begins b' hb' := by
    refine h.begins b' ?_
    cases log with
    | nil => cases hlast
    | cons => exact hb'
  follows := by
    rw [List.isChain_append]
    refine ⟨h.follows, .singleton b, fun x hx y hy => ?_⟩
    rw [hlast] at hx
    cases hx
    cases hy
    exact hb

def emissions (log : List Beat) : Nat := log.countP fun | .emitted _ => true | _ => false

def reports (log : List Beat) : Nat := log.countP fun | .heard .. => true | _ => false

/-- Of what was emitted, all but the last one have been reported on; and
behind a report, all but the last one of what is emitted then. -/
theorem emissions_le (h : log.IsChain ρ.Follows) :
    emissions log ≤ reports log + 1 ∧
      ∀ r failed rest, log = .heard r failed :: rest → emissions log ≤ reports log := by
  induction h with
  | nil => exact ⟨Nat.zero_le _, fun _ _ _ h => nomatch h⟩
  | singleton b => cases b <;> simp [emissions, reports]
  | @cons_cons b b' l hb _ ih =>
    obtain ⟨hle, hheard⟩ := ih
    cases b with
    | emitted e =>
      cases b' with
      | emitted e' => exact hb.elim
      | heard r failed =>
        have hrest := hheard r failed l rfl
        refine ⟨?_, fun _ _ _ h => nomatch h⟩
        simpa [emissions, reports] using hrest
      | ended z => exact hb.elim
    | heard r failed =>
      have hrest :
          emissions (.heard r failed :: b' :: l) ≤ reports (.heard r failed :: b' :: l) := by
        simpa [emissions, reports] using hle
      exact ⟨Nat.le_succ_of_le hrest, fun _ _ _ _ => hrest⟩
    | ended z => exact hb.elim

/-- There is never more than one emission that has not been reported on. -/
theorem Keeps.outstanding (h : ρ.Keeps log) (n : Nat) :
    emissions (log.take n) ≤ reports (log.take n) + 1 :=
  (emissions_le (h.follows.take n)).1

/-! ## where a source stands -/

/-- Where a source stands at a moment, going by what was noted last. -/
inductive Stands (ρ : Rhythm) (now : Nat) : Pace → Option Beat → Prop
  | first (start : now = ρ.start) : Stands ρ now .ready none
  | due {r : Nat} {failed : Bool} (due : now = ρ.due r failed) :
    Stands ρ now .ready (some (.heard r failed))
  | waiting {e : Nat} (emitted : e ≤ now) : Stands ρ now .waiting (some (.emitted e))
  | resting {r : Nat} {failed : Bool} (heard : r ≤ now) (early : now ≤ ρ.due r failed) :
    Stands ρ now (.resting (ρ.due r failed)) (some (.heard r failed))
  | stopped {z : Nat} : Stands ρ now .stopped (some (.ended z))

variable {now : Nat} {pace : Pace}

/-- It is about to emit. -/
theorem Keeps.emitted (h : ρ.Keeps log) (hs : ρ.Stands now .ready log.getLast?) :
    ρ.Keeps (log ++ [.emitted now]) := by
  cases hlast : log.getLast? with
  | none =>
    rw [hlast] at hs
    cases hs with
    | first start =>
      obtain rfl := List.getLast?_eq_none_iff.mp hlast
      exact keeps_singleton start
  | some last =>
    rw [hlast] at hs
    cases hs with
    | due due => exact h.append hlast due

/-- It awaits a report. -/
theorem Keeps.heard (h : ρ.Keeps log) (hs : ρ.Stands now .waiting log.getLast?) (failed : Bool) :
    ρ.Keeps (log ++ [.heard now failed]) := by
  cases hlast : log.getLast? with
  | none =>
    rw [hlast] at hs
    cases hs
  | some last =>
    rw [hlast] at hs
    cases hs with
    | waiting emitted => exact h.append hlast emitted

/-- It awaits nothing. -/
theorem Keeps.ended (h : ρ.Keeps log) (hs : ρ.Stands now pace log.getLast?)
    (hw : pace ≠ .waiting) (hp : pace ≠ .stopped) : ρ.Keeps (log ++ [.ended now]) := by
  cases hlast : log.getLast? with
  | none =>
    rw [hlast] at hs
    cases hs with
    | first start =>
      obtain rfl := List.getLast?_eq_none_iff.mp hlast
      exact keeps_singleton start
  | some last =>
    rw [hlast] at hs
    cases hs with
    | due due => exact h.append hlast ⟨due ▸ ρ.le_due _ _, Nat.le_of_eq due⟩
    | waiting => exact absurd rfl hw
    | resting heard early => exact h.append hlast ⟨heard, early⟩
    | stopped => exact absurd rfl hp

/-- It has emitted nothing that it has not heard of. -/
theorem Stands.of_resting {last : Option Beat} {m : Nat} (hs : ρ.Stands now (.resting m) last) :
    ∃ r failed, last = some (.heard r failed) ∧ m = ρ.due r failed ∧ r ≤ now ∧ now ≤ m := by
  cases hs with
  | resting heard early => exact ⟨_, _, rfl, rfl, heard, early⟩

end Rhythm

end Chain

end LintPatrol
