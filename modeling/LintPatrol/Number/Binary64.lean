import LintPatrol.Number.Integer

/-!
# LintPatrol.Number.Binary64

Floating point numbers of 64 bits as words whose meaning is given in exact
arithmetic: a finite number is `m · 2 ^ q` with a sign.  `nearest` rounds a
non-negative fraction to the nearest such number, ties to an even `m`;
arithmetic and reading a decimal are `nearest` of the exact result.  What is
written with a fixed number of digits after the point is the exact value,
rounded to that many places, a half to the even digit.
-/

namespace LintPatrol.Number

/-- A floating point number of 64 bits. -/
structure Binary64 where
  /-- The word: sign, exponent, fraction. -/
  bits : UInt64
deriving Repr, DecidableEq, Inhabited

namespace Binary64

/-! ## Meaning -/

/-- What a word stands for: no number, an infinity, or the number `m · 2 ^ q`, each
with a sign. -/
inductive View where
  | nan (negative : Bool)
  | infinite (negative : Bool)
  | finite (negative : Bool) (m : Nat) (q : Int)
deriving Repr, DecidableEq

def minExponent : Int := -1074

/-- The word of `m · 2 ^ q` without sign, for `q ≥ -1074` and `m ≤ 2 ^ 53`,
`m` being at least `2 ^ 52` unless the exponent is the least one.  A carry
out of `m` falls into the exponent, where it belongs. -/
def pack (m : Nat) (q : Int) : Nat := (q - minExponent).toNat * twoTo 52 + m

def infinityBits : Nat := 2047 * twoTo 52

/-- The number a word stands for. -/
def view (x : Binary64) : View :=
  let n : Nat := x.bits.toNat
  let negative := n / twoTo 63 == 1
  let e : Nat := n / twoTo 52 % 2048
  let f : Nat := n % twoTo 52
  if e = 2047 then
    if f = 0 then .infinite negative else .nan negative
  else if e = 0 then .finite negative f minExponent
  else .finite negative (twoTo 52 + f) ((e : Int) - 1075)

/-- Is it no number? -/
def isNaN (x : Binary64) : Bool :=
  match x.view with
  | .nan _ => true
  | _ => false

/-- Is it a number above zero? -/
def isPositive (x : Binary64) : Bool :=
  match x.view with
  | .nan _ => false
  | .infinite negative => !negative
  | .finite negative m _ => !negative && 0 < m

/-! ## Rounding -/

/-- The quotient rounded to the nearest integer, a half to the even one. -/
def divHalfEven (num den : Nat) : Nat :=
  let d := num / den
  let r := num % den
  if den < 2 * r ∨ (2 * r = den ∧ d % 2 = 1) then d + 1 else d

/-- The quotient rounded to the nearest integer, a half upwards. -/
def divHalfUp (num den : Nat) : Nat := (2 * num + den) / (2 * den)

/-- The fraction `num / den` divided by `2 ^ q`. -/
def unscale (num den : Nat) (q : Int) : Nat × Nat :=
  if 0 ≤ q then (num, den * twoTo q.toNat) else (num * twoTo (-q).toNat, den)

/-- The exponent at which the fraction has an `m` of 53 bits, or the least
one if that is larger. -/
def exponentOf (num den : Nat) : Int :=
  let q : Int := (Nat.log2 num : Int) - Nat.log2 den - 53
  let (n, d) := unscale num den q
  max minExponent (if twoTo 53 ≤ n / d then q + 1 else q)

/-- The word of the number nearest to the fraction `num / den`. -/
def nearest (num den : Nat) : Nat :=
  if num = 0 then 0
  else
    let q := exponentOf num den
    let (n, d) := unscale num den q
    min infinityBits (pack (divHalfEven n d) q)

def withSign (negative : Bool) (word : Nat) : Binary64 :=
  ⟨UInt64.ofNat (if negative then twoTo 63 + word else word)⟩

def ofFraction (negative : Bool) (num den : Nat) : Binary64 := withSign negative (nearest num den)

def ofInt (n : Int) : Binary64 := ofFraction (decide (n < 0)) n.natAbs 1

def infinity : Binary64 := withSign false infinityBits

def nan : Binary64 := ⟨0x7FF8000000000000⟩

def decimalLength (n : Nat) : Nat := if n < 10 then 1 else decimalLength (n / 10) + 1

/-- The number nearest to `digits · 10 ^ e`.  Exponents far outside the range
are decided without computing the power. -/
def ofDecimal (negative : Bool) (digits : Nat) (e : Int) : Binary64 :=
  if digits = 0 then withSign negative 0
  else if 310 < e then withSign negative infinityBits
  else if e + decimalLength digits < -330 then withSign negative 0
  else if 0 ≤ e then ofFraction negative (digits * tenTo e.toNat) 1
  else ofFraction negative digits (tenTo (-e).toNat)

/-! ## Arithmetic -/

/-- The exact fraction of `m · 2 ^ q`. -/
def fraction (m : Nat) (q : Int) : Nat × Nat :=
  if 0 ≤ q then (m * twoTo q.toNat, 1) else (m, twoTo (-q).toNat)

/-- The product, rounded. -/
def mul (x y : Binary64) : Binary64 :=
  match x.view, y.view with
  | .finite s m q, .finite t n r =>
    let (num, den) := fraction (m * n) (q + r)
    ofFraction (s != t) num den
  | .nan _, _ | _, .nan _ => nan
  | .infinite s, .infinite t => withSign (s != t) infinityBits
  | .infinite s, .finite t m _ | .finite s m _, .infinite t =>
    if m = 0 then nan else withSign (s != t) infinityBits

/-- The quotient, rounded. -/
def div (x y : Binary64) : Binary64 :=
  match x.view, y.view with
  | .finite s m q, .finite t n r =>
    if n = 0 then
      if m = 0 then nan else withSign (s != t) infinityBits
    else
      let (num, den) := fraction m (q - r)
      ofFraction (s != t) num (den * n)
  | .nan _, _ | _, .nan _ | .infinite _, .infinite _ => nan
  | .infinite s, .finite t _ _ => withSign (s != t) infinityBits
  | .finite s _ _, .infinite t => withSign (s != t) 0

def signed (negative : Bool) (m : Nat) : Int := if negative then -(m : Int) else m

/-- The sum, rounded.  Numbers that cancel out give a zero without sign. -/
def add (x y : Binary64) : Binary64 :=
  match x.view, y.view with
  | .finite s m q, .finite t n r =>
    let e := min q r
    let sum : Int := signed s (m * twoTo (q - e).toNat) + signed t (n * twoTo (r - e).toNat)
    let (num, den) := fraction sum.natAbs e
    ofFraction (if sum = 0 then s && t else decide (sum < 0)) num den
  | .nan _, _ | _, .nan _ => nan
  | .infinite s, .infinite t => if s = t then withSign s infinityBits else nan
  | .infinite s, .finite .. | .finite .., .infinite s => withSign s infinityBits

/-- The number rounded to an integer, a half away from zero, and brought
between the given bounds; what is no number becomes zero. -/
def roundBetween (lo hi : Int) (x : Binary64) : Int :=
  match x.view with
  | .nan _ => 0
  | .infinite negative => if negative then lo else hi
  | .finite negative m q =>
    let (n, d) := fraction m q
    let r : Int := divHalfUp n d
    max lo (min hi (if negative then -r else r))

end Binary64

/-! ## Fixed places -/

/-- The digits of a number of units of `10 ^ -places`, with the point. -/
def pointedDigits (places units : Nat) : String :=
  if places = 0 then toString units
  else
    let ds := (toString units).toList
    let padded := List.replicate (places + 1 - ds.length) '0' ++ ds
    let cut := padded.length - places
    String.ofList (padded.take cut) ++ "." ++ String.ofList (padded.drop cut)

/-- The number with that many digits after the point. -/
def Binary64.fixed (places : Nat) (x : Binary64) : String :=
  match x.view with
  | .nan _ => "NaN"
  | .infinite negative => if negative then "-inf" else "inf"
  | .finite negative m q =>
    let (num, den) := fraction m q
    (if negative then "-" else "") ++ pointedDigits places (divHalfEven (num * tenTo places) den)

end LintPatrol.Number
