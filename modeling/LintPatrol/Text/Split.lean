import LintPatrol.Text.Blank

/-!
# LintPatrol.Text.Split

Cutting a text at a separator: at every occurrence of one character
(`splitAt`), at the first occurrence of a word (`cutAt`), or in front
(`after?`).  Everything is on lists of characters; `join` is the other
direction.

A line ends at a line feed, which may have one carriage return in front of it;
both belong to the end and not to the line.  What follows the last line feed is a
line too unless it is empty, and keeps its carriage return.
-/

namespace LintPatrol.Text

/-! ## Words in front -/

/-- What follows the word `w` when the text starts with it. -/
def after? : (w cs : List Char) → Option (List Char)
  | [], cs => some cs
  | _ :: _, [] => none
  | a :: w, c :: cs => if a = c then after? w cs else none

/-- The text starts with `w` exactly if `after?` has an answer, and the
answer is the rest. -/
theorem after?_eq_some_iff {w cs rest : List Char} :
    after? w cs = some rest ↔ cs = w ++ rest := by
  induction w generalizing cs with
  | nil => simp [after?]
  | cons a w ih =>
    cases cs with
    | nil => simp [after?]
    | cons c cs =>
      by_cases h : a = c
      · subst h; simp [after?, ih]
      · simp [after?, h, Ne.symm h]

def startsWith (w cs : List Char) : Bool := (after? w cs).isSome

/-! ## The first occurrence of a word -/

/-- The text before and after the first occurrence of the word `w`. -/
def cutAt (w : List Char) : (cs : List Char) → Option (List Char × List Char)
  | [] => if w.isEmpty then some ([], []) else none
  | c :: cs =>
    match after? w (c :: cs) with
    | some rest => some ([], rest)
    | none => (cutAt w cs).map fun (l, r) => (c :: l, r)

/-! ## Every occurrence of a character -/

/-- The pieces of the text between the characters with the property; there is
always at least one. -/
def splitWhere (p : Char → Bool) : (cs : List Char) → List (List Char)
  | [] => [[]]
  | c :: cs =>
    if p c then [] :: splitWhere p cs
    else
      match splitWhere p cs with
      | [] => [[c]]
      | w :: ws => (c :: w) :: ws

/-- The pieces of the text between the occurrences of `sep`. -/
def splitAt (sep : Char) (cs : List Char) : List (List Char) := splitWhere (· = sep) cs

def words (cs : List Char) : List (List Char) := (splitWhere isBlank cs).filter (!·.isEmpty)

/-- The pieces put back together with `sep` between them. -/
def join (sep : List Char) (ps : List (List Char)) : List Char := (ps.intersperse sep).flatten

def joined (sep : String) (ps : List String) : String := sep.intercalate ps

/-! ## Lines -/

/-- The line without the one carriage return at its end, if it has one. -/
def dropReturn (l : List Char) : List Char :=
  if l.getLast? = some '\r' then l.dropLast else l

/-- The lines of a text, `line` holding what has been read of the current
one, backwards. -/
def linesFrom (line : List Char) : (cs : List Char) → List (List Char)
  | [] => if line.isEmpty then [] else [line.reverse]
  | c :: cs =>
    if c = '\n' then dropReturn line.reverse :: linesFrom [] cs
    else linesFrom (c :: line) cs

def lines (cs : List Char) : List (List Char) := linesFrom [] cs

@[simp] theorem lines_nil : lines [] = [] := rfl

end LintPatrol.Text
