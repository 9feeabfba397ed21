import LintPatrol.Chain.Stage
import LintPatrol.Role.World
import LintPatrol.Scope.Wait

/-!
# LintPatrol.Role.Step

A chain of stages walked through in the world.  Each item a stage produces
goes through the rest of the chain before the next one does, and a stage
reports once all it produced has.  A stage works in a scope of its own; what
follows works in the scope the item came with.
-/

namespace LintPatrol

open Chain Time

/-- What working on an item comes to. -/
inductive Ending (β : Type) where
  | produced (items : List β)
  | failed (reason : Failure)
  /-- The stage broke down and will never report. -/
  | crashed
deriving Repr

namespace World

variable {δ ε α β : Type}

/-- The rest of a chain: what it reports of an item. -/
abbrev Rest (δ ε α : Type) := Scope → α → World δ ε → Option Report × World δ ε

def done : Rest δ ε α := fun _ _ w => (none, w)

/-- Sends items through the rest of a chain, one after the other. -/
def through (rest : Rest δ ε α) (s : Scope) :
    List α → World δ ε → List (Option Report) × World δ ε
  | [], w => ([], w)
  | a :: as, w =>
    let (r, w) := rest s a w
    let (rs, w) := through rest s as w
    (r :: rs, w)

/-- One stage with the rest of the chain behind it. -/
def step (name : String) (timeout : Duration)
    (body : Scope → α → World δ ε → Ending β × World δ ε) (rest : Rest δ ε β) : Rest δ ε α :=
  fun s a w =>
    let (inner, time) := w.time.child s timeout
    match body inner a { w with time := time } with
    | (.crashed, w) => (some Report.dropped, w)
    | (.failed reason, w) =>
      (reportOf (some (blame name timeout (w.time.isExpired inner) (w.time.isExpired s) reason)) [],
        w)
    | (.produced items, w) =>
      let (reports, w) := through rest s items w
      (reportOf none reports, w)

/-- Goes through a chain and pauses, again and again until the scope is at
its end; `rounds` is how often at most. -/
def repeatedly (failDelay successDelay : Duration) (s : Scope) (iteration : Rest δ ε Unit) :
    (rounds : Nat) → World δ ε → World δ ε
  | 0, w => w
  | rounds + 1, w =>
    if w.time.isExpired s then w
    else
      let (report, w) := iteration s () w
      let pause := if report.isNone then successDelay else failDelay
      let (slept, time) := w.time.run s (Timeline.pauseFrom w.time.now pause)
      let w := { w with time := time }
      if slept then repeatedly failDelay successDelay s iteration rounds w else w

end World

end LintPatrol
