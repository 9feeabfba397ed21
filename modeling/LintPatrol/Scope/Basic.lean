import LintPatrol.Time.Duration

/-!
# LintPatrol.Scope.Basic

Scopes bound how long work may take.  A scope has a token that can be
cancelled and perhaps a deadline; a scope made from another one is cancelled
with it and never outlives its deadline.

A token is the way from it up to the root it descends from, so that a token
descends from another one exactly if that one is a tail of it.  A `Timeline`
says what time it is, which tokens have been cancelled, and which will be.
The clock counts nanoseconds and stands still at whole milliseconds; a timer
for a moment in between goes off at the next one.
-/

namespace LintPatrol

open Time

/-- The way from a token up to its root. -/
abbrev Token := List Nat

/-- A bound on how long work may take: the token that cancels it, and the moment at
which it ends by itself. -/
structure Scope where
  token : Token
  deadline : Option Nat
deriving Repr, DecidableEq, Inhabited

/-- What time it is, and what has been cancelled.  Tokens are numbered as they are made. -/
structure Timeline where
  now : Nat
  cancelled : List Token
  /-- The tokens that will be cancelled, and when. -/
  scheduled : List (Nat × Token)
  made : Nat
deriving Repr, DecidableEq, Inhabited

namespace Timeline

def start : Timeline := ⟨0, [], [], 0⟩

/-- The first moment that the clock cannot show. -/
def clockLimit : Nat := 0x7FFFFFFFFFFFFFFF * nanosPerSecond

/-- The whole millisecond that a timer for a moment goes off at. -/
def tick (moment : Nat) : Nat :=
  (moment + nanosPerMilli - 1) / nanosPerMilli * nanosPerMilli

/-! ## Cancelling -/

/-- Has the token, or one that it descends from, been cancelled? -/
def isCancelled (t : Timeline) (token : Token) : Bool := t.cancelled.any (·.isSuffixOf token)

/-- Cancels a token, and with it all that descend from it. -/
def cancel (t : Timeline) (token : Token) : Timeline :=
  { t with cancelled := token :: t.cancelled }

/-- Sees to it that a token will be cancelled after some time. -/
def cancelAfter (t : Timeline) (delay : Nat) (token : Token) : Timeline :=
  { t with scheduled := t.scheduled ++ [(tick (t.now + delay), token)] }

/-- Lets time pass up to a moment. -/
def advanceTo (t : Timeline) (moment : Nat) : Timeline :=
  { t with
    now := max t.now moment
    cancelled := (t.scheduled.filter (·.1 ≤ max t.now moment)).map (·.2) ++ t.cancelled
    scheduled := t.scheduled.filter fun s => !(s.1 ≤ max t.now moment : Bool) }

/-! ## Making scopes -/

/-- A scope that nothing bounds yet. -/
def root (t : Timeline) : Scope × Timeline := (⟨[t.made], none⟩, { t with made := t.made + 1 })

/-- The earlier of two deadlines, if any. -/
def earlier : Option Nat → Option Nat → Option Nat
  | some a, some b => some (min a b)
  | some a, none => some a
  | none, b => b

/-- The moment a length of time from now ends, unless the clock cannot show
it. -/
def deadlineAfter (t : Timeline) (timeout : Duration) : Option Nat :=
  if t.now + timeout.nanos < clockLimit then some (t.now + timeout.nanos) else none

/-- A scope within another one that lasts no longer than the timeout. -/
def child (t : Timeline) (s : Scope) (timeout : Duration) : Scope × Timeline :=
  (⟨t.made :: s.token, earlier s.deadline (t.deadlineAfter timeout)⟩,
   { t with made := t.made + 1 })

/-! ## Expiry -/

/-- Has the deadline passed? -/
def isPast (t : Timeline) (s : Scope) : Bool :=
  match s.deadline with
  | some d => d ≤ t.now
  | none => false

/-- Is the scope at its end: cancelled, or past its deadline? -/
def isExpired (t : Timeline) (s : Scope) : Bool := t.isCancelled s.token || t.isPast s

end Timeline

/-- What is reported when a scope ends before the work within it. -/
def Scope.expiredMessage : String := "scope expired"

end LintPatrol
