import LintPatrol.Number.Binary64

/-!
# LintPatrol.Number.Shortest

The shortest decimal that reads back as a given floating point number.  A
decimal reads back if it lies in the interval of reals that round to the
number.  For one digit, two digits and so on the two neighbours of the
number on the grid of that many digits are tried; the first grid with a hit
wins, and of two hits the nearer one.  `plain` writes the digits without
exponent.
-/

namespace LintPatrol.Number.Shortest

/-! ## The interval -/

/-- The reals that round to `m · 2 ^ q`, in quarters of `2 ^ q`: from
`4 m - below` to `4 m + 2`, the ends belonging to it if `m` is even. -/
structure Interval where
  m : Nat
  q : Int
deriving Repr, DecidableEq

/-- How far the interval reaches below, in quarters: half of that at a power
of two, where the numbers below lie closer. -/
def Interval.below (i : Interval) : Nat :=
  if i.m = twoTo 52 ∧ i.q ≠ Binary64.minExponent then 1 else 2

/-- Does the fraction `num / den` lie in the interval? -/
def Interval.contains (i : Interval) (num den : Nat) : Bool :=
  let (n, d) := Binary64.unscale (4 * num) den i.q
  let low := (4 * i.m - i.below) * d
  let high := (4 * i.m + 2) * d
  if i.m % 2 = 0 then low ≤ n && n ≤ high else low < n && n < high

/-! ## The grids -/

/-- The `k` with `10 ^ (k - 1) ≤ num / den < 10 ^ k`. -/
def magnitude (num den : Nat) : Int :=
  if den ≤ num then Binary64.decimalLength (num / den)
  else 1 - (Binary64.decimalLength ((den + num - 1) / num - 1) : Int)

def decimal (d : Nat) (e : Int) : Nat × Nat :=
  if 0 ≤ e then (d * tenTo e.toNat, 1) else (d, tenTo (-e).toNat)

/-- The integer part of the fraction `num / den` divided by `10 ^ e`, and
whether the rest is at least one half. -/
def neighbours (num den : Nat) (e : Int) : Nat × Bool :=
  let (n, d) := if 0 ≤ e then (num, den * tenTo e.toNat) else (num * tenTo (-e).toNat, den)
  (n / d, decide (d ≤ 2 * (n % d)))

/-- The neighbour of the number on the grid `10 ^ e` that reads back, the
nearer of two. -/
def hit? (i : Interval) (e : Int) : Option Nat :=
  let (num, den) := Binary64.fraction i.m i.q
  let (d, upper) := neighbours num den e
  let reads (d : Nat) : Bool :=
    let (n, k) := decimal d e
    i.contains n k
  match reads d, reads (d + 1) with
  | true, true => some (if upper then d + 1 else d)
  | true, false => some d
  | false, true => some (d + 1)
  | false, false => none

/-- Tries the grids of ever more digits, `left` of them, from the exponent
`e` downwards. -/
def search (i : Interval) : (left : Nat) → (e : Int) → Nat × Int
  | 0, e =>
    let (num, den) := Binary64.fraction i.m i.q
    ((neighbours num den e).1, e)
  | left + 1, e =>
    match hit? i e with
    | some d => (d, e)
    | none => search i left (e - 1)

/-- The same decimal without zeros at the end of its digits. -/
def stripZeros (d : Nat) (e : Int) : Nat × Int :=
  if h : d ≠ 0 ∧ d % 10 = 0 then stripZeros (d / 10) (e + 1) else (d, e)
termination_by d
decreasing_by omega

/-- The shortest digits `d` and exponent `e` such that `d · 10 ^ e` reads back
as `m · 2 ^ q`, for `m > 0`. -/
def digits (m : Nat) (q : Int) : Nat × Int :=
  let (num, den) := Binary64.fraction m q
  let (d, e) := search ⟨m, q⟩ 17 (magnitude num den - 1)
  stripZeros d e

/-! ## Text -/

/-- The number `d · 10 ^ e` without exponent, with at least `places` digits
after the point (and no point where there are none). -/
def positional (places : Nat) (d : Nat) (e : Int) : String :=
  let ds := (toString d).toList
  if 0 ≤ e then
    let whole := String.ofList ds ++ String.ofList (List.replicate e.toNat '0')
    if places = 0 then whole else whole ++ "." ++ String.ofList (List.replicate places '0')
  else
    let k := (-e).toNat
    let padded := List.replicate (k + 1 - ds.length) '0' ++ ds
    let cut := padded.length - k
    String.ofList (padded.take cut) ++ "." ++ String.ofList (padded.drop cut)

/-- How a finite number is written: the digits after the point that are
written at least. -/
def finiteText (places : Nat) (negative : Bool) (m : Nat) (q : Int) : String :=
  let sign := if negative then "-" else ""
  if m = 0 then sign ++ positional places 0 0
  else
    let (d, e) := digits m q
    sign ++ positional places d e

end LintPatrol.Number.Shortest

namespace LintPatrol.Number.Binary64

/-- The number as messages write it: shortest digits, no exponent, no point
in an integer. -/
def plain (x : Binary64) : String :=
  match x.view with
  | .nan _ => "NaN"
  | .infinite negative => if negative then "-inf" else "inf"
  | .finite negative m q => Shortest.finiteText 0 negative m q

/-- The number as configuration files write it: shortest digits, no exponent,
at least one digit after the point. -/
def pointed (x : Binary64) : String :=
  match x.view with
  | .nan negative => if negative then "-nan" else "nan"
  | .infinite negative => if negative then "-inf" else "inf"
  | .finite negative m q => Shortest.finiteText 1 negative m q

end LintPatrol.Number.Binary64
