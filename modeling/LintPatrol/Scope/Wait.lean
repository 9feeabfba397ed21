import LintPatrol.Scope.Basic

/-!
# LintPatrol.Scope.Wait

Waiting within a scope.  Work that is waited for either comes to its end, or
the scope does; work in a scope that is at its end is not begun.
-/

namespace LintPatrol.Timeline

open Time

/-! ## Pauses -/

/-- A time far off: thirty years. -/
def farOff : Nat := 946080000 * nanosPerSecond

/-- How long a pause lasts that begins at a moment.  One that would end at a
moment the clock cannot show ends at a time far off. -/
def pauseFrom (moment : Nat) (length : Duration) : Nat :=
  if moment + length.nanos < clockLimit then length.nanos else farOff

/-! ## The end of a scope -/

/-- The next moment the scope may be found at its end, as far as is known. -/
def expiry? (t : Timeline) (s : Scope) : Option Nat :=
  (t.scheduled.filter (·.2.isSuffixOf s.token)).foldl
    (fun m c => earlier m (some (max t.now c.1)))
    (s.deadline.map tick)

/-- Waits for work of some length; says whether it was done before the scope
came to its end. -/
def run (t : Timeline) (s : Scope) (length : Nat) : Bool × Timeline :=
  if t.isExpired s then (false, t)
  else if length = 0 then (true, t)
  else
    let finish := tick (t.now + length)
    match t.expiry? s with
    | none => (true, t.advanceTo finish)
    | some e => if finish ≤ e then (true, t.advanceTo finish) else (false, t.advanceTo e)

/-- Waits until the scope is at its end; a scope whose end is not known is not
waited for. -/
def waitExpired (t : Timeline) (s : Scope) : Timeline :=
  if t.isExpired s then t
  else
    match t.expiry? s with
    | none => t
    | some e => t.advanceTo e

end LintPatrol.Timeline
