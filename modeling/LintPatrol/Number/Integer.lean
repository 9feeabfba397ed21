/-!
# LintPatrol.Number.Integer

Powers of two and of ten, and decimal integers within bounds.  A sign may stand
in front of an integer, `+` always and `-` where the bounds admit negative
numbers; then at least one ASCII digit follows and nothing else.  A text is read
from the left, and what is found first is reported: a character that is no digit,
or a digit that takes the number out of its bounds.
-/

namespace LintPatrol.Number

/-! ## Powers -/

def twoTo (k : Nat) : Nat := Nat.pow 2 k

def tenTo (k : Nat) : Nat := Nat.pow 10 k

@[simp] theorem twoTo_zero : twoTo 0 = 1 := rfl

theorem twoTo_succ (k : Nat) : twoTo (k + 1) = twoTo k * 2 := rfl

@[simp] theorem tenTo_zero : tenTo 0 = 1 := rfl

theorem tenTo_succ (k : Nat) : tenTo (k + 1) = tenTo k * 10 := rfl

theorem twoTo_pos (k : Nat) : 0 < twoTo k := by
  induction k with
  | zero => decide
  | succ k ih => rw [twoTo_succ]; omega

theorem tenTo_pos (k : Nat) : 0 < tenTo k := by
  induction k with
  | zero => decide
  | succ k ih => rw [tenTo_succ]; omega

/-! ## Reading -/

/-- Why a text is no integer within the bounds. -/
inductive IntegerError where
  | empty
  | invalidDigit
  | tooLarge
  | tooSmall
deriving Repr, DecidableEq

/-- What is reported of the error. -/
def IntegerError.message : IntegerError → String
  | .empty => "cannot parse integer from empty string"
  | .invalidDigit => "invalid digit found in string"
  | .tooLarge => "number too large to fit in target type"
  | .tooSmall => "number too small to fit in target type"

def digit? (c : Char) : Option Nat :=
  if '0' ≤ c ∧ c ≤ '9' then some (c.toNat - '0'.toNat) else none

/-- Reads the digits after a number `acc`, which must not grow beyond
`limit`; `excess` is the error when it does. -/
def readDigits (limit : Nat) (excess : IntegerError) (acc : Nat) :
    List Char → Except IntegerError Nat
  | [] => .ok acc
  | c :: cs =>
    match digit? c with
    | none => .error .invalidDigit
    | some d =>
      if limit < acc * 10 + d then .error excess
      else readDigits limit excess (acc * 10 + d) cs

/-- Reads an integer between `lo ≤ 0` and `hi ≥ 0`. -/
def readInteger (lo hi : Int) : List Char → Except IntegerError Int
  | [] => .error .empty
  | ['+'] => .error .invalidDigit
  | ['-'] => .error .invalidDigit
  | '+' :: cs => (readDigits hi.toNat .tooLarge 0 cs).map Int.ofNat
  | '-' :: cs =>
    if lo < 0 then (readDigits (-lo).toNat .tooSmall 0 cs).map fun n => -(n : Int)
    else .error .invalidDigit
  | cs => (readDigits hi.toNat .tooLarge 0 cs).map Int.ofNat

def maxInt64 : Int := 0x7FFFFFFFFFFFFFFF

def minInt64 : Int := -0x8000000000000000

def maxUInt64 : Int := 0xFFFFFFFFFFFFFFFF

def readInt64 (cs : List Char) : Except IntegerError Int := readInteger minInt64 maxInt64 cs

def readUInt64 (cs : List Char) : Except IntegerError UInt64 :=
  (readInteger 0 maxUInt64 cs).map fun n => UInt64.ofNat n.toNat

def readUInt16 (cs : List Char) : Except IntegerError Nat :=
  (readInteger 0 0xFFFF cs).map Int.toNat

/-- A number brought between the bounds of a signed integer of 64 bits. -/
def saturateInt64 (n : Int) : Int := max minInt64 (min maxInt64 n)

end LintPatrol.Number
