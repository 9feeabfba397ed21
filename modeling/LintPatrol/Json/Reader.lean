import LintPatrol.Json.Value
import LintPatrol.Number.Integer

/-!
# LintPatrol.Json.Reader

Reads the text of a JSON value.  Every reader takes the characters that are
left and answers what it read with the rest.  The readers of nested values
count down a depth that the length of the text bounds.
-/

namespace LintPatrol.Json

open Number

/-! ## White space and numbers -/

/-- Skips the four white space characters of the format. -/
def skipSpace : List Char → List Char
  | c :: cs => if c = ' ' ∨ c = '\t' ∨ c = '\n' ∨ c = '\r' then skipSpace cs else c :: cs
  | [] => []

def maxSignificand : Nat := 0xFFFFFFFFFFFFFFFF

/-- A number in the course of reading: its significant digits as far as they
fit 64 bits, and the power of ten to be applied. -/
structure Decimal where
  significand : Nat
  exponent : Int
  /-- Did the digits fit so far? -/
  fits : Bool
deriving Repr

/-- One more digit in front of the point. -/
def Decimal.whole (x : Decimal) (d : Nat) : Decimal :=
  if x.fits && x.significand * 10 + d ≤ maxSignificand then
    { x with significand := x.significand * 10 + d }
  else { x with exponent := x.exponent + 1, fits := false }

/-- One more digit behind the point. -/
def Decimal.part (x : Decimal) (d : Nat) : Decimal :=
  if x.fits && x.significand * 10 + d ≤ maxSignificand then
    { x with significand := x.significand * 10 + d, exponent := x.exponent - 1 }
  else { x with fits := false }

/-- The digits in front, and the rest. -/
def spanDigits (cs : List Char) : List Nat × List Char :=
  (cs.takeWhile (fun c => (digit? c).isSome) |>.filterMap digit?,
   cs.dropWhile fun c => (digit? c).isSome)

/-- Scales by a power of ten: one rounded product or quotient with the
nearest number to the power, after steps of `10 ^ 308` downwards. -/
def scale (x : Binary64) (e : Int) : (steps : Nat) → Option Binary64
  | 0 => none
  | steps + 1 =>
    if e.natAbs ≤ 308 then
      let power := Binary64.ofDecimal false 1 e.natAbs
      if 0 ≤ e then
        let y := x.mul power
        if y = Binary64.infinity then none else some y
      else some (x.div power)
    else if x.bits = 0 then some x
    else if 0 ≤ e then none
    else scale (x.div (Binary64.ofDecimal false 1 308)) (e + 308) steps

/-- The floating point number of a decimal. -/
def Decimal.toFloat? (negative : Bool) (x : Decimal) : Option Binary64 :=
  (scale (Binary64.ofInt x.significand) x.exponent (x.exponent.natAbs / 308 + 2)).map fun y =>
    ⟨if negative then y.bits ^^^ 0x8000000000000000 else y.bits⟩

/-- Written exponents count up to this one, far beyond every number there is. -/
def maxExponent : Nat := 1000000

/-- The exponent at the end of a number, its sign and digits; none if there
is no digit. -/
def readExponent (cs : List Char) : Option (Int × List Char) :=
  let (negative, cs) :=
    match cs with
    | '-' :: cs => (true, cs)
    | '+' :: cs => (false, cs)
    | cs => (false, cs)
  match spanDigits cs with
  | ([], _) => none
  | (ds, rest) =>
    let n : Nat := ds.foldl (fun n d => min maxExponent (n * 10 + d)) 0
    some (if negative then -(n : Int) else n, rest)

/-- Reads a number behind its sign. -/
def readNumber (negative : Bool) (cs : List Char) : Option (Json × List Char) :=
  match spanDigits cs with
  | ([], _) => none
  | (0 :: _ :: _, _) => none
  | (ds, rest) =>
    let whole := ds.foldl Decimal.whole ⟨0, 0, true⟩
    let exact (rest : List Char) : Option (Json × List Char) :=
      let n : Int := if negative then -(whole.significand : Int) else whole.significand
      if whole.fits && (!negative || (0 < whole.significand && minInt64 ≤ n)) then
        some (.int n, rest)
      else (whole.toFloat? negative).map fun y => (.float y, rest)
    let scaled (x : Decimal) (rest : List Char) : Option (Json × List Char) :=
      match rest with
      | 'e' :: rest | 'E' :: rest =>
        match readExponent rest with
        | none => none
        | some (e, rest) =>
          (Decimal.toFloat? negative { x with exponent := x.exponent + e }).map fun y =>
            (.float y, rest)
      | rest => (x.toFloat? negative).map fun y => (.float y, rest)
    match rest with
    | '.' :: rest =>
      match spanDigits rest with
      | ([], _) => none
      | (ps, rest) => scaled (ps.foldl Decimal.part { whole with fits := whole.fits }) rest
    | 'e' :: _ | 'E' :: _ => scaled whole rest
    | rest => exact rest

/-! ## Strings -/

/-- The value of a hexadecimal digit. -/
def hexDigit? (c : Char) : Option Nat :=
  if '0' ≤ c ∧ c ≤ '9' then some (c.toNat - '0'.toNat)
  else if 'a' ≤ c ∧ c ≤ 'f' then some (c.toNat - 'a'.toNat + 10)
  else if 'A' ≤ c ∧ c ≤ 'F' then some (c.toNat - 'A'.toNat + 10)
  else none

/-- The number of four hexadecimal digits. -/
def hex4? (a b c d : Char) : Option Nat := do
  let a ← hexDigit? a
  let b ← hexDigit? b
  let c ← hexDigit? c
  let d ← hexDigit? d
  pure (((a * 16 + b) * 16 + c) * 16 + d)

def isSurrogate (n : Nat) : Bool := 0xD800 ≤ n && n < 0xE000

/-- Reads a string behind its opening quote, `acc` holding what has been read
backwards. -/
def readString (acc : List Char) : List Char → Option (List Char × List Char)
  | [] => none
  | '"' :: cs => some (acc.reverse, cs)
  | '\\' :: 'u' :: a :: b :: c :: d :: cs =>
    match hex4? a b c d with
    | none => none
    | some n =>
      if !isSurrogate n then readString (Char.ofNat n :: acc) cs
      else
        match cs with
        | '\\' :: 'u' :: e :: f :: g :: h :: cs =>
          match hex4? e f g h with
          | some m =>
            if n < 0xDC00 ∧ 0xDC00 ≤ m ∧ m < 0xE000 then
              readString (Char.ofNat (0x10000 + (n - 0xD800) * 0x400 + (m - 0xDC00)) :: acc) cs
            else none
          | none => none
        | _ => none
  | '\\' :: c :: cs =>
    match c with
    | '"' => readString ('"' :: acc) cs
    | '\\' => readString ('\\' :: acc) cs
    | '/' => readString ('/' :: acc) cs
    | 'b' => readString ('\x08' :: acc) cs
    | 'f' => readString ('\x0c' :: acc) cs
    | 'n' => readString ('\n' :: acc) cs
    | 'r' => readString ('\r' :: acc) cs
    | 't' => readString ('\t' :: acc) cs
    | _ => none
  | c :: cs => if c.toNat < 0x20 then none else readString (c :: acc) cs

/-! ## Values -/

def readWord (w : List Char) (value : Json) (cs : List Char) : Option (Json × List Char) :=
  if w.isPrefixOf cs then some (value, cs.drop w.length) else none

mutual

/-- Reads a value. -/
def readValue : (depth : Nat) → List Char → Option (Json × List Char)
  | 0, _ => none
  | depth + 1, cs =>
    match skipSpace cs with
    | 'n' :: cs => readWord ['u', 'l', 'l'] .null cs
    | 't' :: cs => readWord ['r', 'u', 'e'] (.bool true) cs
    | 'f' :: cs => readWord ['a', 'l', 's', 'e'] (.bool false) cs
    | '"' :: cs => (readString [] cs).map fun (s, cs) => (.str (String.ofList s), cs)
    | '-' :: cs => readNumber true cs
    | '[' :: cs =>
      match skipSpace cs with
      | ']' :: cs => some (.arr [], cs)
      | cs => (readItems depth cs).map fun (items, cs) => (.arr items, cs)
    | '\x7b' :: cs =>
      match skipSpace cs with
      | '\x7d' :: cs => some (.obj [], cs)
      | cs => (readMembers depth cs).map fun (members, cs) => (.obj members, cs)
    | cs => readNumber false cs

/-- Reads the items of an array and its closing bracket. -/
def readItems : (depth : Nat) → List Char → Option (List Json × List Char)
  | 0, _ => none
  | depth + 1, cs =>
    match readValue depth cs with
    | none => none
    | some (v, cs) =>
      match skipSpace cs with
      | ',' :: cs => (readItems depth cs).map fun (vs, cs) => (v :: vs, cs)
      | ']' :: cs => some ([v], cs)
      | _ => none

/-- Reads the members of an object and its closing brace. -/
def readMembers : (depth : Nat) → List Char → Option (List (String × Json) × List Char)
  | 0, _ => none
  | depth + 1, cs =>
    match skipSpace cs with
    | '"' :: cs =>
      match readString [] cs with
      | none => none
      | some (k, cs) =>
        match skipSpace cs with
        | ':' :: cs =>
          match readValue depth cs with
          | none => none
          | some (v, cs) =>
            match skipSpace cs with
            | ',' :: cs =>
              (readMembers depth cs).map fun (ms, cs) => ((String.ofList k, v) :: ms, cs)
            | '\x7d' :: cs => some ([(String.ofList k, v)], cs)
            | _ => none
        | _ => none
    | _ => none

end

/-- The value a text stands for, if it is one JSON value. -/
def read (cs : List Char) : Option Json :=
  match readValue (cs.length + 1) cs with
  | some (v, rest) => if (skipSpace rest).isEmpty then some v else none
  | none => none

/-- The value a string stands for. -/
def ofText? (s : String) : Option Json := read s.toList

end LintPatrol.Json
