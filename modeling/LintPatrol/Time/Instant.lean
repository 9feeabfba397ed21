import LintPatrol.Number.Integer
import LintPatrol.Text.Blank
import LintPatrol.Time.Calendar
import LintPatrol.Time.Duration

/-!
# LintPatrol.Time.Instant

Points in time, in universal time: seconds since the beginning of 1970 and
nanoseconds.  The nanoseconds of a leap second run from one thousand million
on, in the second before it, which is the last one of a minute.  Instants lie
in the years from -262143 to 262142.  `text` writes an instant in one normal
form, `read` takes the many ways of writing a date, a time and an offset.
-/

namespace LintPatrol.Time

open Number Text

def minSeconds : Int := -8334601228800

def maxSeconds : Int := 8210266876799

/-- The first number of nanoseconds that no second has, leap seconds being
counted in. -/
def nanosLimit : Nat := 2000000000

/-- Is there an instant with these seconds and nanoseconds?  A leap second
comes at the end of a minute only, and none is later than the last nanosecond
of the last second. -/
def isInstant (seconds : Int) (nanos : Nat) : Bool :=
  minSeconds ≤ seconds ∧ seconds ≤ maxSeconds ∧ nanos < nanosLimit ∧
    (1000000000 ≤ nanos → seconds % 60 = 59 ∧ seconds < maxSeconds)

/-- A point in time. -/
structure Instant where
  seconds : Int
  /-- Nanoseconds, below one thousand million except in a leap second. -/
  nanos : Nat
  isInstant_eq : isInstant seconds nanos = true
deriving Repr, DecidableEq

namespace Instant

def minYear : Int := -262143

def maxYear : Int := 262142

def secondsPerDay : Int := 86400

/-- The instant of these seconds and nanoseconds, if there is one. -/
def ofParts? (seconds : Int) (nanos : Nat) : Option Instant :=
  if h : isInstant seconds nanos then some ⟨seconds, nanos, h⟩ else none

def epoch : Instant := ⟨0, 0, by decide⟩

instance : Inhabited Instant := ⟨epoch⟩

/-! ## Milliseconds -/

/-- Whole milliseconds since the beginning of 1970. -/
def millis (t : Instant) : Int := t.seconds * 1000 + (t.nanos / 1000000 : Nat)

def ofMillis? (ms : Int) : Option Instant := ofParts? (ms / 1000) ((ms % 1000).toNat * 1000000)

/-- The instant of that many milliseconds, and the epoch where there is none. -/
def ofMillis (ms : Int) : Instant := (ofMillis? ms).getD epoch

/-! ## Text -/

/-- A number in decimal with at least `width` digits. -/
def padded (width n : Nat) : String :=
  let ds := (toString n).toList
  String.ofList (List.replicate (width - ds.length) '0' ++ ds)

/-- A year: four digits, or a sign and at least four digits outside of the
years 0 to 9999. -/
def yearText (y : Int) : String :=
  if 0 ≤ y ∧ y ≤ 9999 then padded 4 y.toNat
  else (if y < 0 then "-" else "+") ++ padded 4 y.natAbs

/-- A fraction of a second in 0, 3, 6 or 9 digits, as few as it needs. -/
def fractionText (nanos : Nat) : String :=
  if nanos = 0 then ""
  else if nanos % 1000000 = 0 then "." ++ padded 3 (nanos / 1000000)
  else if nanos % 1000 = 0 then "." ++ padded 6 (nanos / 1000)
  else "." ++ padded 9 nanos

/-- The instant as date and time in universal time. -/
def text (t : Instant) : String :=
  let d := Date.ofDays (t.seconds / secondsPerDay)
  let s := (t.seconds % secondsPerDay).toNat
  let leap := if 1000000000 ≤ t.nanos then 1 else 0
  yearText d.year ++ "-" ++ padded 2 d.month ++ "-" ++ padded 2 d.day ++ "T" ++
    padded 2 (s / 3600) ++ ":" ++ padded 2 (s / 60 % 60) ++ ":" ++ padded 2 (s % 60 + leap) ++
    fractionText (t.nanos % 1000000000) ++ "Z"

/-! ## Reading -/

/-- The digits in front, at most `limit` of them, as a number with their
count. -/
def spanNumber : (limit : Nat) → List Char → Nat → Nat → Nat × Nat × List Char
  | 0, cs, n, k => (n, k, cs)
  | _ + 1, [], n, k => (n, k, [])
  | limit + 1, c :: cs, n, k =>
    match digit? c with
    | some d => spanNumber limit cs (n * 10 + d) (k + 1)
    | none => (n, k, c :: cs)

/-- Reads a number of one digit at least and `limit` at most, blanks in front
being skipped. -/
def readNumber (limit : Nat) (cs : List Char) : Option (Nat × List Char) :=
  match spanNumber limit (trimStart cs) 0 0 with
  | (_, 0, _) => none
  | (n, _, rest) => some (n, rest)

/-- Reads a year: up to four digits, or a sign and any number of them. -/
def readYear (cs : List Char) : Option (Int × List Char) :=
  match trimStart cs with
  | '-' :: cs => signed true cs
  | '+' :: cs => signed false cs
  | cs => (readNumber 4 cs).map fun (n, rest) => ((n : Int), rest)
where
  signed (negative : Bool) (cs : List Char) : Option (Int × List Char) :=
    match spanNumber cs.length cs 0 0 with
    | (_, 0, _) => none
    | (n, _, rest) => some (if negative then -(n : Int) else n, rest)

/-- Reads one character, blanks in front being skipped. -/
def readMark (mark : Char) (cs : List Char) : Option (List Char) :=
  match trimStart cs with
  | c :: cs => if c = mark then some cs else none
  | [] => none

/-- Reads a fraction of a second behind its point, to the nanosecond. -/
def readFraction (cs : List Char) : Option (Nat × List Char) :=
  match cs with
  | '.' :: cs =>
    match spanNumber 9 cs 0 0 with
    | (_, 0, _) => none
    | (n, k, rest) => some (n * tenTo (9 - k), rest.dropWhile fun c => (digit? c).isSome)
  | cs => some (0, cs)

/-- Reads an offset from universal time, in seconds. -/
def readOffset (cs : List Char) : Option (Int × List Char) :=
  match cs with
  | 'Z' :: cs | 'z' :: cs => some (0, cs)
  | '+' :: cs => signed 1 cs
  | '-' :: cs | '−' :: cs => signed (-1) cs
  | _ => none
where
  signed (sign : Int) (cs : List Char) : Option (Int × List Char) :=
    match spanNumber 2 cs 0 0 with
    | (h, 2, cs) =>
      match spanNumber 2 (cs.dropWhile fun c => c = ':' || isBlank c) 0 0 with
      | (m, 2, cs) =>
        if m < 60 then some (sign * (h * 3600 + m * 60 : Nat), cs) else none
      | _ => none
    | _ => none

/-- The instant of a local date and time, seconds from 0 to 60, the sixtieth
being a leap second. -/
def ofLocal (d : Date) (hour minute second nanos : Nat) (offset : Int) : Option Instant :=
  if d.isValid ∧ minYear ≤ d.year ∧ d.year ≤ maxYear ∧ hour < 24 ∧ minute < 60 ∧ second ≤ 60 ∧
      -86400 < offset ∧ offset < 86400 then
    let leap := second = 60
    let inMinute : Nat := if leap then 59 else second
    ofParts? (d.toDays * secondsPerDay + (hour * 3600 + minute * 60 + inMinute : Nat) - offset)
      (if leap then nanos + 1000000000 else nanos)
  else none

/-- Reads a date, one character `T`, `t` or blank, a time and an offset. -/
def read (cs : List Char) : Option Instant := do
  let (year, cs) ← readYear cs
  let cs ← readMark '-' cs
  let (month, cs) ← readNumber 2 cs
  let cs ← readMark '-' cs
  let (day, cs) ← readNumber 2 cs
  let cs ←
    match cs with
    | 'T' :: cs | 't' :: cs | ' ' :: cs => some cs
    | _ => none
  let (hour, cs) ← readNumber 2 cs
  let cs ← readMark ':' cs
  let (minute, cs) ← readNumber 2 cs
  let cs ← readMark ':' cs
  let (second, cs) ← readNumber 2 cs
  let (nanos, cs) ← readFraction cs
  let cs := trimStart cs
  let (offset, cs) ←
    if (cs.take 3).map asciiUpper = ['U', 'T', 'C'] then some (0, cs.drop 3) else readOffset cs
  if (trimStart cs).isEmpty then ofLocal ⟨year, month, day⟩ hour minute second nanos offset
  else none

def ofText? (s : String) : Option Instant := read s.toList

/-! ## Instants a length of time apart -/

/-- Nanoseconds since the beginning of 1970. -/
def sinceEpoch (t : Instant) : Int := t.seconds * nanosPerSecond + t.nanos

/-- The instant that many nanoseconds after the beginning of 1970, if there is
one. -/
def ofNanos? (n : Int) : Option Instant :=
  ofParts? (n / nanosPerSecond) (n % nanosPerSecond).toNat

def before? (t : Instant) (d : Duration) : Option Instant := ofNanos? (t.sinceEpoch - d.nanos)

def after? (t : Instant) (d : Duration) : Option Instant := ofNanos? (t.sinceEpoch + d.nanos)

end Instant

end LintPatrol.Time
