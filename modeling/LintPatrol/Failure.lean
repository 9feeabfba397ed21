import LintPatrol.Text.Split

/-!
# LintPatrol.Failure

A failure as it is reported: what went wrong and the chain of its causes,
outermost first.  A cause that already appears in the message of the failure
it caused is not removed from the chain, so a report may say a thing twice.
-/

namespace LintPatrol

/-- What went wrong, and why. -/
structure Failure where
  message : String
  causes : List String
deriving Repr, DecidableEq, Inhabited

namespace Failure

def plain (message : String) : Failure := ⟨message, []⟩

def chain (f : Failure) : List String := f.message :: f.causes

/-- The failure a chain of messages stands for. -/
def ofChain : List String → Failure
  | [] => ⟨"", []⟩
  | m :: causes => ⟨m, causes⟩

/-- The same failure seen from further out. -/
def within (outer : String) (f : Failure) : Failure := ⟨outer, f.chain⟩

/-- The report on one line. -/
def full (f : Failure) : String := Text.joined ": " f.chain

/-- A failure is made up by its message and its causes. -/
@[simp] theorem ofChain_chain (f : Failure) : ofChain f.chain = f := rfl

/-- What is put around a failure comes before its message and its causes. -/
@[simp] theorem chain_within (outer : String) (f : Failure) :
    (f.within outer).chain = outer :: f.chain := rfl

end Failure

end LintPatrol
