import LintPatrol.Stream.Frame
import LintPatrol.Text.Utf8

/-!
# LintPatrol.Stream.Lines

Output as lines of text.  A `LineReader` fills its buffer piece by piece, and
takes bytes out of it up to the next line feed, or until the output ends.  One
byte more than is accepted may be taken, so that too much is noticed by the
number of the bytes; what follows that byte is never asked for.  Line feeds
and carriage returns at the end of a line do not belong to it, and bytes that
are not UTF-8 are replaced.
-/

namespace LintPatrol

/-- Where a reader of lines stands: how many more bytes may be taken, what is in the
buffer, and what it will be filled with, one piece after the other. -/
structure LineReader where
  left : Nat
  buffer : List UInt8
  pieces : List (List UInt8)
  /-- Why it cannot be filled after that, if the output does not just end. -/
  error? : Option StreamError
  /-- Nothing comes only at the end. -/
  nil_notMem_pieces : [] ∉ pieces
deriving Repr, DecidableEq

namespace LineReader

/-! ## The buffer -/

/-- The bytes that can be taken next; an empty buffer is filled.  There are
none at the end.  Where no more may be taken there are none either, and the
output is not asked for any. -/
def fill (r : LineReader) : Except StreamError (List UInt8 × LineReader) :=
  match r with
  | ⟨0, _, _, _, _⟩ => .ok ([], r)
  | ⟨left + 1, b :: bs, _, _, _⟩ => .ok ((b :: bs).take (left + 1), r)
  | ⟨left + 1, [], p :: ps, error?, h⟩ =>
    .ok (p.take (left + 1), ⟨left + 1, p, ps, error?, List.not_mem_of_not_mem_cons h⟩)
  | ⟨_ + 1, [], [], some e, _⟩ => .error e
  | ⟨_ + 1, [], [], none, _⟩ => .ok ([], r)

def consume (n : Nat) (r : LineReader) : LineReader :=
  { r with left := r.left - n, buffer := r.buffer.drop n }

/-- No more can be taken than may be. -/
theorem length_fill_le {r r' : LineReader} {bs : List UInt8} (h : r.fill = .ok (bs, r')) :
    bs.length ≤ r.left ∧ r'.left = r.left := by
  revert h
  fun_cases fill r with
  | case1 => rintro ⟨⟩; exact ⟨Nat.zero_le _, rfl⟩
  | case2 => rintro ⟨⟩; exact ⟨List.length_take_le .., rfl⟩
  | case3 => rintro ⟨⟩; exact ⟨List.length_take_le .., rfl⟩
  | case4 => nofun
  | case5 => rintro ⟨⟩; exact ⟨Nat.zero_le _, rfl⟩

/-! ## One line -/

/-- The byte that ends a line. -/
def lineFeed : UInt8 := 10

/-- Takes bytes up to a line feed, and with it, or until the output ends, and
puts them behind those of `line`. -/
def readUntil (line : List UInt8) (r : LineReader) : Except StreamError (List UInt8 × LineReader) :=
  match _h : r.fill with
  | .error e => .error e
  | .ok (available, r') =>
    match available.idxOf? lineFeed with
    | some i => .ok (line ++ available.take (i + 1), r'.consume (i + 1))
    | none =>
      if _hn : available = [] then .ok (line, r')
      else readUntil (line ++ available) (r'.consume available.length)
termination_by r.left
decreasing_by
  have := length_fill_le _h
  have := List.length_pos_iff.mpr _hn
  simp only [consume]
  omega

/-- What is taken counts as taken. -/
theorem length_readUntil {line line' : List UInt8} {r r' : LineReader}
    (h : r.readUntil line = .ok (line', r')) : line'.length + r'.left = line.length + r.left := by
  fun_induction readUntil line r with
  | case1 => cases h
  | case2 line r available r'' hf i hi =>
    cases h
    have := length_fill_le hf
    have := (List.idxOf?_eq_some_iff.mp hi).1
    simp only [consume, List.length_append, List.length_take]
    omega
  | case3 line r r'' hf hi =>
    cases h
    have := length_fill_le hf
    omega
  | case4 line r available r'' hf hi hn ih =>
    have := length_fill_le hf
    rw [ih h]
    simp only [consume, List.length_append]
    omega

/-! ## All lines -/

/-- Is the character no part of a line that it ends? -/
def endsLine (c : Char) : Bool := c = '\n' || c = '\r'

def lineText (line : List UInt8) : String :=
  String.ofList ((Text.Utf8.decodeLossy line).reverse.dropWhile endsLine).reverse

/-- Reads line by line, `lines` being those that have been read, the latest
first, and `total` the number of their bytes. -/
def readLines (limit total : Nat) (lines : List String) (r : LineReader) :
    Except StreamError (List String) :=
  match _h : r.readUntil [] with
  | .error e => .error e
  | .ok ([], _) => .ok lines.reverse
  | .ok (b :: bs, r') =>
    let total := total + (b :: bs).length
    if limit < total then .error (.outputTooLong limit)
    else readLines limit total (lineText (b :: bs) :: lines) r'
termination_by r.left
decreasing_by
  have := length_readUntil _h
  simp only [List.length_cons, List.length_nil] at this
  omega

/-- The lines of bytes that are there at once, the limit being kept, and then
the error the stream ended with. -/
def read (limit : Nat) (bytes : List UInt8) (error? : Option StreamError) :
    Except StreamError (List String) :=
  readLines limit 0 [] ⟨limit + 1, bytes, [], error?, List.not_mem_nil⟩

/-- A reader of the payloads of a stream of frames, whose buffer has room for
`n` bytes. -/
def overFrames (n limit : Nat) (t : Transport) : LineReader :=
  let r := FrameReader.readAll n .start t
  ⟨limit + 1, [], r.pieces, r.error?, FrameReader.nil_notMem_pieces n .start t⟩

def bufferSize : Nat := 8192

def readFrames (limit : Nat) (t : Transport) : Except StreamError (List String) :=
  readLines limit 0 [] (overFrames bufferSize limit t)

end LineReader

end LintPatrol
