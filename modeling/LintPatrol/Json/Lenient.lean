import LintPatrol.Json.Reader
import LintPatrol.Json.Record
import LintPatrol.Text.Utf8

/-!
# LintPatrol.Json.Lenient

Lenient reading of objects.  A member that is `null` counts as missing, one of
the wrong type as well, and what is missing has a default.  Long texts and
bytes have short forms: a text may be repeated or put together from parts,
bytes may be given as text, in hexadecimal or as one byte many times.
-/

namespace LintPatrol.Lenient

/-- A member that is there and not `null`. -/
def field? (v : Json) (k : String) : Option Json :=
  match v.field? k with
  | some .null => none
  | r => r

def sub (v : Json) (k : String) : Json := (field? v k).getD .null

def str (v : Json) (k : String) : Option String := (field? v k).bind Json.str?

def strD (v : Json) (k : String) (d : String := "") : String := (str v k).getD d

def int (v : Json) (k : String) : Option Int := (field? v k).bind Json.int?

def intD (v : Json) (k : String) (d : Int) : Int := (int v k).getD d

def natD (v : Json) (k : String) (d : Nat) : Nat := ((int v k).map Int.toNat).getD d

def u64 (n : Int) : UInt64 := UInt64.ofNat n.toNat

/-- A truth value, false by default. -/
def flag (v : Json) (k : String) : Bool := ((field? v k).bind Json.bool?).getD false

def list (v : Json) (k : String) : List Json := ((field? v k).bind Json.arr?).getD []

def strs (v : Json) (k : String) : List String := (list v k).filterMap Json.str?

/-! ## Long texts and bytes -/

mutual

/-- A text: a string, a string that is repeated, or parts one after the other. -/
def text : Json → String
  | .str s => s
  | .arr vs => texts vs
  | v => String.join (List.replicate (natD v "count" 0) (strD v "repeat"))

/-- Several texts one after the other. -/
def texts : List Json → String
  | [] => ""
  | v :: vs => text v ++ texts vs

end

/-- The bytes that pairs of hexadecimal digits write. -/
def hexBytes : List Char → List UInt8
  | a :: b :: cs =>
    UInt8.ofNat (((Json.hexDigit? a).getD 0) * 16 + (Json.hexDigit? b).getD 0) :: hexBytes cs
  | _ => []

/-- Bytes: a text, hexadecimal digits, or one byte many times. -/
def bytes (v : Json) : List UInt8 :=
  match v with
  | .str s => Text.Utf8.bytes s
  | v =>
    match str v "text", str v "hex", field? v "fill" with
    | some s, _, _ => Text.Utf8.bytes s
    | _, some h, _ => hexBytes h.toList
    | _, _, some f => List.replicate (natD f "count" 0) (UInt8.ofNat (natD f "byte" 0))
    | _, _, _ => []

/-- Files with their paths; a directory has no content. -/
def files (v : Json) (k : String) : List (String × Option (List UInt8)) :=
  (list v k).map fun f => (strD f "path", if flag f "dir" then none else some (bytes f))

end LintPatrol.Lenient
