import LintPatrol.Highlight.Basic
import LintPatrol.Time.Instant

/-!
# LintPatrol.Task.Moderation

People judge what linters find.  A verdict is `rejected`, `pending` or
`accepted`, in ascending order; where the same place is reported several
times, the highest verdict counts.
-/

namespace LintPatrol

open Time

/-- A verdict on a finding: it is no problem, nobody has judged it yet, or it is one. -/
inductive Verdict where
  | rejected
  | pending
  | accepted
deriving Repr, DecidableEq, Inhabited

namespace Verdict

/-- The name of a verdict. -/
def name : Verdict → String
  | rejected => "rejected"
  | pending => "pending"
  | accepted => "accepted"

def all : List Verdict := [rejected, pending, accepted]

def ofName? (s : String) : Option Verdict := all.find? (·.name = s)

def unknown (s : String) : String := "Invalid moderation status: " ++ s

/-- The place in the order. -/
def rank : Verdict → Nat
  | rejected => 0
  | pending => 1
  | accepted => 2

instance : LE Verdict := ⟨fun a b => a.rank ≤ b.rank⟩

instance : LT Verdict := ⟨fun a b => a.rank < b.rank⟩

instance (a b : Verdict) : Decidable (a ≤ b) := inferInstanceAs (Decidable (a.rank ≤ b.rank))

instance (a b : Verdict) : Decidable (a < b) := inferInstanceAs (Decidable (a.rank < b.rank))

instance : Max Verdict := ⟨fun a b => if a ≤ b then b else a⟩

/-- A verdict is known by its name. -/
@[simp] theorem ofName?_name (v : Verdict) : ofName? v.name = some v := by
  cases v <;> decide

end Verdict

/-- A verdict with who gave it, when and why. -/
structure Moderation where
  status : Verdict
  moderator : Option String
  moderatedAt : Option Instant
  comment : Option String
deriving Repr, DecidableEq

def Moderation.none : Moderation := ⟨.pending, .none, .none, .none⟩

instance : Inhabited Moderation := ⟨Moderation.none⟩

/-- A finding as it is kept, with its verdict. -/
structure StoredFinding where
  taskId : String
  repoId : String
  linterId : String
  commit : String
  finding : Finding
  moderation : Moderation
deriving Repr, DecidableEq, Inhabited

end LintPatrol
