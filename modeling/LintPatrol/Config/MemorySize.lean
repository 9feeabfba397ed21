import LintPatrol.Failure
import LintPatrol.Number.Integer
import LintPatrol.Text.Blank

/-!
# LintPatrol.Config.MemorySize

Amounts of memory as people write them: digits and perhaps a unit letter,
`"4g"`, `"512 m"`, `"1024k"`, `"1048576"`.  White space may stand around the
whole and in front of the unit; capital letters count as small ones.  The
amount must be positive and fit a signed integer of 64 bits.
-/

namespace LintPatrol.MemorySize

open Text Number

/-- The bytes of a unit. -/
def unit? : Char → Option Int
  | 'k' => some 1024
  | 'm' => some (1024 * 1024)
  | 'g' => some (1024 * 1024 * 1024)
  | 'b' => some 1
  | _ => none

/-- The digits and the unit of a trimmed amount in small letters. -/
def splitUnit (cs : List Char) : List Char × Int :=
  match cs.getLast?.bind unit? with
  | some u => (cs.dropLast, u)
  | none => (cs, 1)

/-- The bytes of an amount. -/
def parse (value : String) : Except Failure Int :=
  let (digits, u) := splitUnit ((trim value.toList).map asciiLower)
  match readInt64 (trim digits) with
  | .error e => .error ⟨"Invalid memory size '" ++ value ++ "'", [e.message]⟩
  | .ok amount =>
    if 0 < amount * u ∧ amount * u ≤ maxInt64 then .ok (amount * u)
    else .error (.plain ("Memory size '" ++ value ++ "' out of range"))

end LintPatrol.MemorySize
