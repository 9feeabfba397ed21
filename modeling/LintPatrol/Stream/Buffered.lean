import LintPatrol.Stream.Lines

/-!
# LintPatrol.Stream.Buffered

A connection that is read through a buffer.  The buffer is filled from one
piece of the connection at a time, and only when it is empty; so when a line
has been taken out of it, bytes behind the line may be left in it, and whoever
goes on reading has to begin with those.
-/

namespace LintPatrol

/-- A connection with a buffer before it. -/
structure BufferedReader where
  buffer : List UInt8
  source : Transport
deriving Repr, DecidableEq

namespace BufferedReader

def capacity : Nat := 8192

def ofTransport (t : Transport) : BufferedReader := ⟨[], t⟩

/-- All bytes that are still to be taken. -/
def bytes (r : BufferedReader) : List UInt8 := r.buffer ++ r.source.bytes

/-- The reader as the connection that it is for the next one to read: first
come the bytes of the buffer. -/
def rest (r : BufferedReader) : Transport := r.buffer :: r.source

/-- What is buffered and what is to come are the bytes ahead. -/
theorem bytes_rest (r : BufferedReader) : r.rest.bytes = r.bytes := rfl

/-! ## The buffer -/

/-- Fills the buffer if it is empty, and waits until something has come; it
stays empty only at the end. -/
def fill : BufferedReader → BufferedReader
  | ⟨b :: bs, source⟩ => ⟨b :: bs, source⟩
  | ⟨[], source⟩ =>
    match _h : source.poll capacity with
    | (none, rest) => fill ⟨[], rest⟩
    | (some bs, rest) => ⟨bs, rest⟩
termination_by r => r.source.length
decreasing_by exact Transport.length_poll_lt _ _ _ _h

/-- Filling takes no byte and loses none. -/
theorem bytes_fill (r : BufferedReader) : r.fill.bytes = r.bytes := by
  fun_induction fill r with
  | case1 => rfl
  | case2 source rest h ih =>
    have happend := source.poll_append capacity
    rw [h] at happend
    rw [ih]
    exact happend
  | case3 source bs rest h =>
    have happend := source.poll_append capacity
    rw [h] at happend
    exact happend

/-- Where nothing can be buffered nothing is ahead. -/
theorem bytes_eq_nil_of_fill {r : BufferedReader} (h : r.fill.buffer = []) : r.bytes = [] := by
  fun_induction fill r with
  | case1 => cases h
  | case2 source rest hp ih =>
    have hbytes := bytes_fill ⟨[], source⟩
    rw [fill] at hbytes
    have happend := source.poll_append capacity
    rw [hp] at happend
    exact happend.symm.trans (ih h)
  | case3 source bs rest hp =>
    obtain rfl : bs = [] := h
    obtain ⟨rfl, -⟩ := Transport.eq_nil_of_poll (by decide) hp
    rfl

/-! ## One line -/

/-- Takes bytes up to a line feed, and with it, or until the end, and puts them
behind those of `line`. -/
def readUntil (line : List UInt8) (r : BufferedReader) : List UInt8 × BufferedReader :=
  match r.fill.buffer.idxOf? LineReader.lineFeed with
  | some i => (line ++ r.fill.buffer.take (i + 1), ⟨r.fill.buffer.drop (i + 1), r.fill.source⟩)
  | none =>
    if _hn : r.fill.buffer = [] then (line, r.fill)
    else readUntil (line ++ r.fill.buffer) ⟨[], r.fill.source⟩
termination_by r.bytes.length
decreasing_by
  have hpos := List.length_pos_iff.mpr _hn
  have hlength : r.bytes.length = r.fill.buffer.length + r.fill.source.bytes.length := by
    rw [← bytes_fill r, bytes, List.length_append]
  show r.fill.source.bytes.length < r.bytes.length
  omega

end BufferedReader

end LintPatrol
