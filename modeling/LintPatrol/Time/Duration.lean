/-!
# LintPatrol.Time.Duration

Lengths of time: whole seconds of 64 bits and nanoseconds, held as one
number of nanoseconds below `2 ^ 64` seconds.
-/

namespace LintPatrol.Time

def nanosPerSecond : Nat := 1000000000

def nanosPerMilli : Nat := 1000000

/-- The first length that is too long. -/
def durationLimit : Nat := 0x10000000000000000 * nanosPerSecond

/-- A length of time. -/
structure Duration where
  nanos : Nat
  /-- Its whole seconds fit 64 bits. -/
  nanos_lt : nanos < durationLimit
deriving DecidableEq

namespace Duration

instance : Repr Duration := ⟨fun d _ => repr d.nanos⟩

def ofNanos? (n : Nat) : Option Duration :=
  if h : n < durationLimit then some ⟨n, h⟩ else none

def zero : Duration := ⟨0, by decide⟩

instance : Inhabited Duration := ⟨zero⟩

def max : Duration := ⟨durationLimit - 1, by decide⟩

def ofSeconds (s : UInt64) : Duration :=
  ⟨s.toNat * nanosPerSecond, Nat.mul_lt_mul_of_pos_right s.toNat_lt (by decide)⟩

/-- The length of that many milliseconds. -/
def ofMillis (ms : UInt64) : Duration :=
  ⟨ms.toNat * nanosPerMilli, by
    have h := ms.toNat_lt
    simp only [nanosPerMilli, durationLimit, nanosPerSecond]
    omega⟩

/-- Seconds and nanoseconds, whole seconds among the nanoseconds carried
over. -/
def ofParts? (seconds nanos : Nat) : Option Duration :=
  ofNanos? (seconds * nanosPerSecond + nanos)

def seconds (d : Duration) : Nat := d.nanos / nanosPerSecond

/-- The nanoseconds beyond the whole seconds. -/
def subNanos (d : Duration) : Nat := d.nanos % nanosPerSecond

def millis (d : Duration) : Nat := d.nanos / nanosPerMilli

/-! ## Text -/

/-- The digits of a fraction of `width` digits without the zeros at its end. -/
def fractionDigits (width value : Nat) : List Char :=
  let ds := (toString value).toList
  let padded := List.replicate (width - ds.length) '0' ++ ds
  (padded.reverse.dropWhile (· = '0')).reverse

/-- A number with a fraction in units of `10 ^ -width`. -/
def decimalText (whole width fraction : Nat) : String :=
  match fractionDigits width fraction with
  | [] => toString whole
  | ds => toString whole ++ "." ++ String.ofList ds

/-- The length in the largest unit of s, ms, µs, ns in which it is at least
one. -/
def text (d : Duration) : String :=
  if 0 < d.seconds then decimalText d.seconds 9 d.subNanos ++ "s"
  else if nanosPerMilli ≤ d.subNanos then
    decimalText (d.subNanos / nanosPerMilli) 6 (d.subNanos % nanosPerMilli) ++ "ms"
  else if 1000 ≤ d.subNanos then decimalText (d.subNanos / 1000) 3 (d.subNanos % 1000) ++ "µs"
  else toString d.subNanos ++ "ns"

end Duration

end LintPatrol.Time
