import LintPatrol.Json.Reader
import LintPatrol.Text.Split
import LintPatrol.Toml.Value

/-!
# LintPatrol.Toml.Scalar

The values of TOML that hold no others: strings in their four forms, and
the words that are written without quotes, which are truth values, integers
in four bases, floating point numbers, dates and times.
-/

namespace LintPatrol.Toml

open Number Text

/-! ## Strings -/

/-- Is the character forbidden in a text on one line? -/
def isControl (c : Char) : Bool := (c.toNat < 0x20 && c != '\t') || c.toNat == 0x7F

def charOf? (n : Nat) : Option Char :=
  if n < 0xD800 ∨ (0xE000 ≤ n ∧ n < 0x110000) then some (Char.ofNat n) else none

def hexNumber? (cs : List Char) : Option Nat :=
  cs.foldlM (fun n c => (Json.hexDigit? c).map (n * 16 + ·)) 0

/-- The character of `n` hexadecimal digits in front, and the rest. -/
def readCode (n : Nat) (cs : List Char) : Option (Char × List Char) :=
  if cs.length < n then none
  else ((hexNumber? (cs.take n)).bind charOf?).map fun c => (c, cs.drop n)

/-- The character of an escape behind its backslash, and the rest. -/
def readEscape : List Char → Option (Char × List Char)
  | 'b' :: cs => some ('\x08', cs)
  | 't' :: cs => some ('\t', cs)
  | 'n' :: cs => some ('\n', cs)
  | 'f' :: cs => some ('\x0c', cs)
  | 'r' :: cs => some ('\r', cs)
  | 'e' :: cs => some ('\x1b', cs)
  | '"' :: cs => some ('"', cs)
  | '\\' :: cs => some ('\\', cs)
  | 'x' :: cs => readCode 2 cs
  | 'u' :: cs => readCode 4 cs
  | 'U' :: cs => readCode 8 cs
  | _ => none

/-- The rest behind a line end. -/
def newline? : List Char → Option (List Char)
  | '\n' :: cs => some cs
  | '\r' :: '\n' :: cs => some cs
  | _ => none

/-- Reads a string in double quotes behind the opening one; `acc` holds what
has been read backwards. -/
def readBasic : (fuel : Nat) → (acc : List Char) → List Char → Option (List Char × List Char)
  | 0, _, _ => none
  | fuel + 1, acc, cs =>
    match cs with
    | [] => none
    | '"' :: cs => some (acc.reverse, cs)
    | '\\' :: cs =>
      match readEscape cs with
      | some (c, cs) => readBasic fuel (c :: acc) cs
      | none => none
    | c :: cs => if isControl c then none else readBasic fuel (c :: acc) cs

/-- Reads a string in single quotes behind the opening one. -/
def readLiteral : (acc : List Char) → List Char → Option (List Char × List Char)
  | _, [] => none
  | acc, '\'' :: cs => some (acc.reverse, cs)
  | acc, c :: cs => if isControl c then none else readLiteral (c :: acc) cs

/-- The quotes in front that belong to the text when a string of several
lines ends there, at most two, and the rest behind the end. -/
def endOfLines (quote : Char) : List Char → Option (List Char × List Char)
  | a :: b :: c :: d :: e :: cs =>
    if a = quote ∧ b = quote ∧ c = quote then
      if d = quote ∧ e = quote then some ([quote, quote], cs)
      else if d = quote then some ([quote], e :: cs)
      else some ([], d :: e :: cs)
    else none
  | [a, b, c, d] =>
    if a = quote ∧ b = quote ∧ c = quote then
      if d = quote then some ([quote], []) else some ([], [d])
    else none
  | [a, b, c] => if a = quote ∧ b = quote ∧ c = quote then some ([], []) else none
  | _ => none

/-- The rest of a text behind a backslash at the end of a line: white space
and line ends are skipped, at least one of them a line end. -/
def skipFold (cs : List Char) : Option (List Char) :=
  let blanks := cs.takeWhile fun c => c = ' ' || c = '\t'
  match newline? (cs.drop blanks.length) with
  | some rest => some (rest.dropWhile fun c => c = ' ' || c = '\t' || c = '\n' || c = '\r')
  | none => none

/-- Reads a string of several lines in double quotes behind the opening
ones. -/
def readBasicLines : (fuel : Nat) → (acc : List Char) → List Char →
    Option (List Char × List Char)
  | 0, _, _ => none
  | fuel + 1, acc, cs =>
    match endOfLines '"' cs with
    | some (more, rest) => some (acc.reverse ++ more, rest)
    | none =>
      match cs with
      | [] => none
      | '\\' :: cs =>
        match readEscape cs with
        | some (c, cs) => readBasicLines fuel (c :: acc) cs
        | none =>
          match skipFold cs with
          | some cs => readBasicLines fuel acc cs
          | none => none
      | '\r' :: '\n' :: cs => readBasicLines fuel ('\n' :: '\r' :: acc) cs
      | c :: cs =>
        if c = '\n' ∨ ¬isControl c then readBasicLines fuel (c :: acc) cs else none

/-- Reads a string of several lines in single quotes behind the opening
ones. -/
def readLiteralLines : (fuel : Nat) → (acc : List Char) → List Char →
    Option (List Char × List Char)
  | 0, _, _ => none
  | fuel + 1, acc, cs =>
    match endOfLines '\'' cs with
    | some (more, rest) => some (acc.reverse ++ more, rest)
    | none =>
      match cs with
      | [] => none
      | '\r' :: '\n' :: cs => readLiteralLines fuel ('\n' :: '\r' :: acc) cs
      | c :: cs =>
        if c = '\n' ∨ ¬isControl c then readLiteralLines fuel (c :: acc) cs else none

/-- The text without a line end right at its beginning. -/
def skipFirstNewline (cs : List Char) : List Char := (newline? cs).getD cs

/-- Reads a string in any of its forms. -/
def readString : List Char → Option (List Char × List Char)
  | '"' :: '"' :: '"' :: cs => readBasicLines (cs.length + 1) [] (skipFirstNewline cs)
  | '"' :: cs => readBasic (cs.length + 1) [] cs
  | '\'' :: '\'' :: '\'' :: cs => readLiteralLines (cs.length + 1) [] (skipFirstNewline cs)
  | '\'' :: cs => readLiteral [] cs
  | _ => none

/-! ## Numbers -/

def digitIn? (base : Nat) (c : Char) : Option Nat :=
  (Json.hexDigit? c).bind fun d => if d < base then some d else none

/-- The digits of a text of digits with single underscores between them. -/
def digits? (base : Nat) : List Char → Option (List Nat)
  | [] => none
  | [c] => (digitIn? base c).map fun d => [d]
  | c :: '_' :: cs => do
    let d ← digitIn? base c
    pure (d :: (← digits? base cs))
  | c :: cs => do
    let d ← digitIn? base c
    pure (d :: (← digits? base cs))

def ofDigits (base : Nat) (ds : List Nat) : Nat := ds.foldl (fun n d => n * base + d) 0

/-- The sign in front, and the rest; `true` is for minus. -/
def sign? : List Char → Option Bool × List Char
  | '-' :: cs => (some true, cs)
  | '+' :: cs => (some false, cs)
  | cs => (none, cs)

/-- Decimal digits without a zero in front of others. -/
def plainDigits? (cs : List Char) : Option (List Nat) :=
  match digits? 10 cs with
  | some (0 :: _ :: _) => none
  | ds => ds

/-- Reads an integer of any size; only a decimal one has a sign. -/
def anyInteger? (cs : List Char) : Option Int :=
  match cs with
  | '0' :: 'x' :: cs => (digits? 16 cs).map fun ds => (ofDigits 16 ds : Int)
  | '0' :: 'o' :: cs => (digits? 8 cs).map fun ds => (ofDigits 8 ds : Int)
  | '0' :: 'b' :: cs => (digits? 2 cs).map fun ds => (ofDigits 2 ds : Int)
  | cs =>
    let (negative, cs) := sign? cs
    (plainDigits? cs).map fun ds =>
      if negative = some true then -(ofDigits 10 ds : Int) else ofDigits 10 ds

/-- Reads an integer of at most 128 bits. -/
def integer? (cs : List Char) : Option Int :=
  (anyInteger? cs).bind fun n => if -(twoTo 127 : Int) ≤ n ∧ n < twoTo 128 then some n else none

/-- Reads an exponent: a sign perhaps, and digits. -/
def exponent? (cs : List Char) : Option Int :=
  let (negative, cs) := sign? cs
  (digits? 10 cs).map fun ds =>
    if negative = some true then -(ofDigits 10 ds : Int) else ofDigits 10 ds

/-- The parts of a text at the first `e` or `E`. -/
def cutExponent (cs : List Char) : List Char × Option (List Char) :=
  let isMark (c : Char) : Bool := c = 'e' || c = 'E'
  let front := cs.takeWhile fun c => !isMark c
  match cs.drop front.length with
  | [] => (front, none)
  | _ :: rest => (front, some rest)

/-- Reads a floating point number that has a fraction, an exponent or both.
One beyond the greatest number is refused. -/
def fraction? (cs : List Char) : Option Binary64 := do
  let (negative, cs) := sign? cs
  let (front, exponent) := cutExponent cs
  let e ←
    match exponent with
    | some cs => exponent? cs
    | none => some 0
  let (whole, part) ←
    match cutAt ['.'] front with
    | some (whole, part) => do
      let part ← digits? 10 part
      pure (whole, part)
    | none => if exponent.isSome then some (front, []) else none
  let whole ← plainDigits? whole
  let x := Binary64.ofDecimal (negative = some true) (ofDigits 10 (whole ++ part)) (e - part.length)
  match x.view with
  | .infinite _ => none
  | _ => some x

/-- Reads a floating point number. -/
def float? (cs : List Char) : Option Binary64 :=
  let (negative, word) := sign? cs
  if word = ['i', 'n', 'f'] then
    some (Binary64.withSign (negative = some true) Binary64.infinityBits)
  else if word = ['n', 'a', 'n'] then
    some (Binary64.withSign (negative = some true) Binary64.nan.bits.toNat)
  else fraction? cs

/-! ## Dates and times -/

/-- A number of exactly `n` digits in front, and the rest. -/
def fixedNumber? (n : Nat) (cs : List Char) : Option (Nat × List Char) :=
  if cs.length < n then none
  else ((cs.take n).mapM digit?).map fun ds => (ofDigits 10 ds, cs.drop n)

/-- The rest behind a character. -/
def mark? (c : Char) : List Char → Option (List Char)
  | d :: cs => if d = c then some cs else none
  | [] => none

/-- The days of a month. -/
def daysIn (year month : Nat) : Nat :=
  if month = 2 then
    if year % 4 = 0 ∧ (year % 100 ≠ 0 ∨ year % 400 = 0) then 29 else 28
  else if month = 4 ∨ month = 6 ∨ month = 9 ∨ month = 11 then 30
  else 31

/-- The rest behind a date. -/
def date? (cs : List Char) : Option (List Char) := do
  let (year, cs) ← fixedNumber? 4 cs
  let cs ← mark? '-' cs
  let (month, cs) ← fixedNumber? 2 cs
  let cs ← mark? '-' cs
  let (day, cs) ← fixedNumber? 2 cs
  if 1 ≤ month ∧ month ≤ 12 ∧ 1 ≤ day ∧ day ≤ daysIn year month then some cs else none

/-- The rest behind a time; the seconds may be left out. -/
def time? (cs : List Char) : Option (List Char) := do
  let (hour, cs) ← fixedNumber? 2 cs
  let cs ← mark? ':' cs
  let (minute, cs) ← fixedNumber? 2 cs
  if 24 ≤ hour ∨ 60 ≤ minute then none
  else
    match cs with
    | ':' :: cs => do
      let (second, cs) ← fixedNumber? 2 cs
      if 60 < second then none
      else
        match cs with
        | '.' :: cs =>
          let ds := cs.takeWhile fun c => (digit? c).isSome
          if ds.isEmpty then none else some (cs.drop ds.length)
        | cs => some cs
    | cs => some cs

/-- The rest behind an offset; there may be none. -/
def offset? (cs : List Char) : Option (List Char) :=
  match cs with
  | 'Z' :: cs | 'z' :: cs => some cs
  | '+' :: cs | '-' :: cs => do
    let (hour, cs) ← fixedNumber? 2 cs
    let cs ← mark? ':' cs
    let (minute, cs) ← fixedNumber? 2 cs
    if 24 ≤ hour ∨ 60 ≤ minute then none else some cs
  | cs => some cs

/-- Is the word a date, a time or both? -/
def isDatetime (cs : List Char) : Bool :=
  let whole : Option (List Char) :=
    match date? cs with
    | some [] => some []
    | some (c :: cs) =>
      if c = 'T' ∨ c = 't' ∨ c = ' ' then (time? cs).bind offset? else none
    | none => time? cs
  whole = some []

/-! ## Words -/

/-- May the character stand in a word without quotes? -/
def isWordChar (c : Char) : Bool :=
  ('a' ≤ c ∧ c ≤ 'z') ∨ ('A' ≤ c ∧ c ≤ 'Z') ∨ ('0' ≤ c ∧ c ≤ '9') ∨ c = '+' ∨ c = '-' ∨
    c = '_' ∨ c = '.' ∨ c = ':'

/-- The value of a word. -/
def word? (cs : List Char) : Option Toml :=
  if cs = ['t', 'r', 'u', 'e'] then some (.boolean true)
  else if cs = ['f', 'a', 'l', 's', 'e'] then some (.boolean false)
  else
    match anyInteger? cs with
    | some _ => (integer? cs).map .integer
    | none =>
      match float? cs with
      | some x => some (.float x)
      | none => if isDatetime cs then some .datetime else none

/-- The word in front and the rest.  A date and a time with one blank between
them are one word. -/
def spanWord (cs : List Char) : List Char × List Char :=
  let w := cs.takeWhile isWordChar
  let rest := cs.drop w.length
  match date? w, rest with
  | some [], ' ' :: c :: more =>
    if (digit? c).isSome then
      let t := (c :: more).takeWhile isWordChar
      (w ++ ' ' :: t, (c :: more).drop t.length)
    else (w, rest)
  | _, _ => (w, rest)

end LintPatrol.Toml
