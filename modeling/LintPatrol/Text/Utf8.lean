/-!
# LintPatrol.Text.Utf8

UTF-8, one byte at a time.  A character that has been begun is a `Partial`:
how many bytes it still owes, the range the next one must lie in, and the
bits read so far.  Two readers run on it:

* `decodeLossy` never fails: every maximal run of bytes that begins a
  character and cannot be completed becomes one replacement character;
* `fault?` finds the first place where the bytes are not UTF-8.

`encode` is the other direction.  Places in a text are counted in bytes, so
that a text cannot be cut at each of them: `dropBytes?` has no answer inside a
character.
-/

namespace LintPatrol.Text.Utf8

/-- A character that has been begun: how many bytes it still wants, between which
bounds the next one lies, and the bits read so far. -/
structure Partial where
  /-- How many bytes are still owed, at least one. -/
  owed : Nat
  low : UInt8
  high : UInt8
  code : Nat
deriving Repr, DecidableEq

/-- What a first byte says. -/
inductive Lead where
  | whole (c : Char)
  | begun (p : Partial)
  | bad
deriving Repr, DecidableEq

/-- Reads the first byte of a character.  The ranges of the second byte keep
out overlong forms, surrogates and values beyond the last code point. -/
def lead (b : UInt8) : Lead :=
  if b < 0x80 then .whole (Char.ofNat b.toNat)
  else if b < 0xC2 then .bad
  else if b < 0xE0 then .begun ⟨1, 0x80, 0xBF, b.toNat % 32⟩
  else if b < 0xF0 then
    .begun ⟨2, if b = 0xE0 then 0xA0 else 0x80, if b = 0xED then 0x9F else 0xBF, b.toNat % 16⟩
  else if b < 0xF5 then
    .begun ⟨3, if b = 0xF0 then 0x90 else 0x80, if b = 0xF4 then 0x8F else 0xBF, b.toNat % 8⟩
  else .bad

/-- May the byte come next? -/
def Partial.accepts (p : Partial) (b : UInt8) : Bool := p.low ≤ b && b ≤ p.high

/-- The bits with those of one more byte. -/
def Partial.shift (p : Partial) (b : UInt8) : Nat := p.code * 64 + b.toNat % 64

/-- The character begun, after a byte that is not its last one. -/
def Partial.next (p : Partial) (b : UInt8) : Partial := ⟨p.owed - 1, 0x80, 0xBF, p.shift b⟩

def replacement : Char := '\uFFFD'

/-! ## Decoding with replacement -/

/-- Decodes with replacement, a character perhaps begun. -/
def decodeFrom : Option Partial → List UInt8 → List Char
  | none, [] => []
  | some _, [] => [replacement]
  | none, b :: bs =>
    match lead b with
    | .whole c => c :: decodeFrom none bs
    | .begun p => decodeFrom (some p) bs
    | .bad => replacement :: decodeFrom none bs
  | some p, b :: bs =>
    if p.accepts b then
      if p.owed ≤ 1 then Char.ofNat (p.shift b) :: decodeFrom none bs
      else decodeFrom (some (p.next b)) bs
    else
      replacement ::
        match lead b with
        | .whole c => c :: decodeFrom none bs
        | .begun q => decodeFrom (some q) bs
        | .bad => replacement :: decodeFrom none bs

/-- The text of the bytes, with one replacement character for every maximal
run that is not UTF-8. -/
def decodeLossy (bs : List UInt8) : List Char := decodeFrom none bs

/-! ## Faults -/

/-- The first place where bytes are not UTF-8. -/
structure Fault where
  validUpTo : Nat
  /-- How many bytes are bad; none if the bytes end inside a character. -/
  length : Option Nat
deriving Repr, DecidableEq

/-- The first fault, `start` bytes being read and `seen` more of a character
perhaps begun. -/
def faultFrom (start seen : Nat) : Option Partial → List UInt8 → Option Fault
  | none, [] => none
  | some _, [] => some ⟨start, none⟩
  | none, b :: bs =>
    match lead b with
    | .whole _ => faultFrom (start + 1) 0 none bs
    | .begun p => faultFrom start 1 (some p) bs
    | .bad => some ⟨start, some 1⟩
  | some p, b :: bs =>
    if p.accepts b then
      if p.owed ≤ 1 then faultFrom (start + seen + 1) 0 none bs
      else faultFrom start (seen + 1) (some (p.next b)) bs
    else some ⟨start, some seen⟩

/-- The first place where the bytes are not UTF-8. -/
def fault? (bs : List UInt8) : Option Fault := faultFrom 0 0 none bs

/-- The text of bytes that are UTF-8. -/
def decode? (bs : List UInt8) : Option (List Char) :=
  if (fault? bs).isSome then none else some (decodeLossy bs)

/-- What is reported of a fault. -/
def Fault.message (f : Fault) : String :=
  match f.length with
  | some n =>
    "invalid utf-8 sequence of " ++ toString n ++ " bytes from index " ++ toString f.validUpTo
  | none => "incomplete utf-8 byte sequence from index " ++ toString f.validUpTo

/-! ## Encoding -/

def encode (cs : List Char) : List UInt8 := cs.flatMap String.utf8EncodeChar

def bytes (s : String) : List UInt8 := encode s.toList

/-! ## Places -/

/-- How many bytes a text takes. -/
def size : List Char → Nat
  | [] => 0
  | c :: cs => c.utf8Size + size cs

/-- The most bytes that a text can take: places are numbers of 64 bits with a
sign. -/
def maxSize : Nat := 9223372036854775807

@[simp] theorem size_nil : size [] = 0 := rfl

@[simp] theorem size_cons (c : Char) (cs : List Char) : size (c :: cs) = c.utf8Size + size cs :=
  rfl

@[simp] theorem size_append (cs ds : List Char) : size (cs ++ ds) = size cs + size ds := by
  induction cs with
  | nil => simp
  | cons c cs ih => rw [List.cons_append, size_cons, ih, size_cons, Nat.add_assoc]

/-- What follows the first bytes of a text, if a character begins or the text
ends there. -/
def dropBytes? : Nat → List Char → Option (List Char)
  | 0, cs => some cs
  | _ + 1, [] => none
  | n + 1, c :: cs => if c.utf8Size ≤ n + 1 then dropBytes? (n + 1 - c.utf8Size) cs else none

/-- **A text can be cut behind a first part of it.** -/
theorem dropBytes?_append (p l : List Char) : dropBytes? (size p) (p ++ l) = some l := by
  induction p with
  | nil => rw [size_nil, List.nil_append, dropBytes?]
  | cons c p ih =>
    obtain ⟨n, hn⟩ : ∃ n, size (c :: p) = n + 1 :=
      ⟨_, (Nat.sub_one_add_one (by have := c.utf8Size_pos; simp; omega)).symm⟩
    have hle : c.utf8Size ≤ n + 1 := by rw [← hn, size_cons]; omega
    have hrest : n + 1 - c.utf8Size = size p := by rw [← hn, size_cons]; omega
    rw [hn, List.cons_append, dropBytes?, if_pos hle, hrest, ih]

end LintPatrol.Text.Utf8
