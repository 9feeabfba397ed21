import LintPatrol.Chain.Inbox

/-!
# LintPatrol.Chain.Stage

One stage of a chain.  Its body is a list of acts for each item; the items it
produces go to the next stage.  An act happens in the scope of the stage,
which ends after the timeout of the stage at the latest; what is produced
carries the scope the item came with.

The body's own failure is reported under the name of the stage.  Whether the
stage is said to have exceeded its timeout is decided when it reports.
-/

namespace LintPatrol.Chain

open Time

/-- What a body does.  To `sleep` lets time pass whatever becomes of the scope; a
`scopeSleep` fails if the scope ends before.  Of the two that cancel, the one cancels
the scope of the stage and the other the one that all others descend from.  A body
that crashes takes its stage down, and a `probe` notes how the scope stands. -/
inductive Act (α : Type) where
  | sleep (length : Nat)
  | scopeSleep (length : Nat)
  | produce (items : List α)
  | fail (reason : Failure)
  | awaitExpiry
  | cancelStage
  | cancelRun
  | crash
  | probe
deriving Repr, DecidableEq

/-- One stage of a chain. -/
structure Stage (α : Type) where
  name : String
  timeout : Duration
  /-- What it does with an item, as the so-manieth one it works on. -/
  body : α → Nat → List (Act α)

/-- The failure of a body as it is reported, given whether the scope of the
stage and that of the item are at their end. -/
def blame (name : String) (timeout : Duration) (stageExpired itemExpired : Bool) (f : Failure) :
    Failure :=
  if stageExpired && !itemExpired then
    f.within ("stage " ++ name ++ " exceeded " ++ timeout.text)
  else f.within ("stage " ++ name)

/-- The report on an item: the body's own failure first, then what the items
it produced came to, in the order in which they were produced. -/
def reportOf (own : Option Failure) (products : List (Option Report)) : Option Report :=
  Report.join ((own.map Report.own).toList ++ products.filterMap id)

end LintPatrol.Chain
