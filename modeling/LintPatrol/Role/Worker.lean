import LintPatrol.Config.Basic
import LintPatrol.Lint.Run
import LintPatrol.Role.Step
import LintPatrol.Time.Instant

/-!
# LintPatrol.Role.Worker

A worker frees what stopped containers hold, takes a task, runs its linter
and records the result.  Workers know nothing of each other; the lease on a
task is all that keeps them apart.  It has ended once it is older than the
lock duration.
-/

namespace LintPatrol

open Time

/-- The longest lock duration that is understood, in nanoseconds. -/
def maxLock : Nat := 0x7FFFFFFFFFFFFFFF * nanosPerMilli

namespace Services

variable {δ ε : Type}

/-! ## The stages -/

/-- Frees what stopped containers hold. -/
def cleanUp (sv : Services δ ε) (s : Scope) (_ : Unit) (w : World δ ε) : Ending Unit × World δ ε :=
  match sv.cleanup s w with
  | (.error e, w) => (.failed (e.failure.within "Sandbox cleanup failed"), w)
  | (.ok _, w) => (.produced [()], w)

/-- Takes a task, if there is one.  A horizon before the beginning of time
cannot be had. -/
def takeTask (sv : Services δ ε) (lock : Duration) (s : Scope) (_ : Unit) (w : World δ ε) :
    Ending Task × World δ ε :=
  let now := sv.clock w.time
  if maxLock < lock.nanos then
    (.failed ⟨"Lock duration out of range",
      ["Source duration value is out of range for the target type"]⟩, w)
  else
    match now.before? lock with
    | none => (.crashed, w)
    | some horizon =>
      match w.call s (sv.keeper.tryTake horizon now) with
      | (none, w) => (.failed (.plain Scope.expiredMessage), w)
      | (some (.ok t), w) => (.produced [t], w)
      | (some (.error .noTasksAvailable), w) => (.produced [], w)
      | (some (.error e), w) => (.failed (e.failure.within "Failed to take lint task"), w)

/-- Runs the linter of a task. -/
def lintTask (sv : Services δ ε) (scratch mount : String) (s : Scope) (t : Task) (w : World δ ε) :
    Ending (Task × LintOutcome) × World δ ε :=
  let started := w.time.now
  let (result, w) := sv.lint scratch mount s t.repo t.linter w
  let duration := (Duration.ofNanos? (w.time.now - started)).getD Duration.max
  (.produced [(t, ⟨result, duration⟩)], w)

/-- Records the outcome of a task; an outcome without findings is reported as
a failure once it has been recorded. -/
def persist (sv : Services δ ε) (s : Scope) (done : Task × LintOutcome) (w : World δ ε) :
    Ending Unit × World δ ε :=
  let (t, outcome) := done
  match w.call s (sv.keeper.set t outcome.toResult (sv.clock w.time)) with
  | (none, w) => (.failed (.plain Scope.expiredMessage), w)
  | (some (.error e), w) =>
    (.failed (e.failure.within ("Failed to store result of lint task " ++ t.id)), w)
  | (some (.ok ()), w) =>
    match outcome.result with
    | .error e@(.fatal _) => (.failed (e.failure.within ("Lint task " ++ t.id ++ " failed")), w)
    | .error e@(.temporary _) =>
      (.failed (e.failure.within ("Lint task " ++ t.id ++ " will be retried")), w)
    | _ => (.produced [], w)

end Services

/-! ## The chain -/

namespace Worker

variable {δ ε : Type}

/-- One iteration, with checkouts in a scratch directory. -/
def iteration (c : WorkerConfig) (scratch : String) (sv : Services δ ε) : World.Rest δ ε Unit :=
  World.step "cleanup" (.ofSeconds c.cleanupTimeoutSecs) sv.cleanUp <|
    World.step "take" (.ofSeconds c.takeTimeoutSecs)
        (sv.takeTask (.ofSeconds c.lockDurationSecs)) <|
      World.step "lint" (.ofSeconds c.lintTimeoutSecs) (sv.lintTask scratch c.mountPath) <|
        World.step "persist" (.ofSeconds c.updateTimeoutSecs) sv.persist World.done

/-- Iterations until the scope is at its end. -/
def run (c : WorkerConfig) (scratch : String) (sv : Services δ ε) (s : Scope) (rounds : Nat) :
    World δ ε → World δ ε :=
  World.repeatedly (.ofSeconds c.failDelaySecs) (.ofSeconds c.successDelaySecs) s
    (iteration c scratch sv) rounds

end Worker

end LintPatrol
