import LintPatrol.Json.Value
import LintPatrol.Number.Integer

/-!
# LintPatrol.Json.Record

Records in JSON.  A record is written as an object, and read from an object
or from the list of its values in order.  `fields` gives what is there for
each name; the decoders of single values below say what a field accepts.
-/

namespace LintPatrol.Json

open Number

/-- How many values a record written as a list may have. -/
inductive ListRule where
  | exact
  | atMost
  /-- Any number; those beyond the last field are not looked at. -/
  | any
deriving Repr, DecidableEq

/-- Does the rule allow that many values for so many fields? -/
def ListRule.allows : ListRule → (values fields : Nat) → Bool
  | .exact, n, k => n == k
  | .atMost, n, k => n ≤ k
  | .any, _, _ => true

/-- The value of each named field, if the value is a record. -/
def fields (rule : ListRule) (names : List String) : Json → Option (List (Option Json))
  | obj members => some (names.map (member? · members))
  | arr items =>
    if rule.allows items.length names.length then
      some ((List.range names.length).map (items[·]?))
    else none
  | _ => none

/-- A field that has to be there. -/
def required {α : Type} (decode : Json → Option α) : Option Json → Option α
  | some v => decode v
  | none => none

/-- A field that may be missing, a default standing in for it. -/
def defaulted {α : Type} (decode : Json → Option α) (default : α) : Option Json → Option α
  | some v => decode v
  | none => some default

/-- A value that may be `null`. -/
def nullable {α : Type} (decode : Json → Option α) : Json → Option (Option α)
  | null => some none
  | v => (decode v).map some

/-- A field that may be missing or `null`. -/
def optional {α : Type} (decode : Json → Option α) : Option Json → Option (Option α)
  | some v => nullable decode v
  | none => some none

/-- An unsigned integer of 64 bits. -/
def uint64? : Json → Option UInt64
  | int n => if 0 ≤ n ∧ n ≤ maxUInt64 then some (UInt64.ofNat n.toNat) else none
  | _ => none

/-- A signed integer of 64 bits. -/
def int64? : Json → Option Int64
  | int n => if minInt64 ≤ n ∧ n ≤ maxInt64 then some (Int64.ofInt n) else none
  | _ => none

/-- A floating point number, or an integer of 64 bits in its place. -/
def number? : Json → Option Number.Binary64
  | float x => some x
  | int n => if minInt64 ≤ n ∧ n ≤ maxUInt64 then some (Number.Binary64.ofInt n) else none
  | _ => none

def ofUInt64 (n : UInt64) : Json := int n.toNat

end LintPatrol.Json
