/-!
# LintPatrol.Text.Blank

White space as Unicode defines it, and trimming.  A *blank* is a character
with the property `White_Space`; the table below lists all 25 of them.
Trimming works on lists of characters, so that its laws are list laws, and
is lifted to strings at the end.
-/

namespace LintPatrol.Text

/-! ## The property -/

/-- The code points with the Unicode property `White_Space`, ascending. -/
def blankCodes : List Nat :=
  [0x09, 0x0A, 0x0B, 0x0C, 0x0D, 0x20, 0x85, 0xA0, 0x1680,
   0x2000, 0x2001, 0x2002, 0x2003, 0x2004, 0x2005, 0x2006, 0x2007, 0x2008, 0x2009, 0x200A,
   0x2028, 0x2029, 0x202F, 0x205F, 0x3000]

def isBlank (c : Char) : Bool := blankCodes.contains c.toNat

/-- Between two characters that have no blank between them there is none. -/
theorem isBlank_of_between (lo hi : Char) {c : Char}
    (hgap : ∀ k ∈ blankCodes, k < lo.toNat ∨ hi.toNat < k) (h : lo ≤ c ∧ c ≤ hi) :
    isBlank c = false := by
  have hlo : lo.toNat ≤ c.toNat := h.1
  have hhi : c.toNat ≤ hi.toNat := h.2
  simp only [isBlank, List.contains_eq_mem, decide_eq_false_iff_not]
  intro hmem
  rcases hgap _ hmem with hlt | hgt <;> omega

/-! ## Trimming lists of characters -/

def trimStart (cs : List Char) : List Char := cs.dropWhile isBlank

def trimEnd (cs : List Char) : List Char := (cs.reverse.dropWhile isBlank).reverse

def trim (cs : List Char) : List Char := trimEnd (trimStart cs)

@[simp] theorem trim_nil : trim [] = [] := rfl

/-- Where there are no blanks there is nothing to trim. -/
theorem trim_eq_self {cs : List Char} (h : ∀ c ∈ cs, isBlank c = false) : trim cs = cs := by
  have hdrop : ∀ ds : List Char, (∀ c ∈ ds, isBlank c = false) → ds.dropWhile isBlank = ds := by
    intro ds hds
    cases ds with
    | nil => rfl
    | cons d ds => simp [hds d List.mem_cons_self]
  rw [trim, trimStart, hdrop cs h, trimEnd, hdrop cs.reverse (by simpa using h),
    List.reverse_reverse]

/-! ## Trimming strings -/

def trimmed (s : String) : String := String.ofList (trim s.toList)

/-- ASCII capital letters made small; every other character is kept. -/
def asciiLower (c : Char) : Char :=
  if 'A' ≤ c ∧ c ≤ 'Z' then Char.ofNat (c.toNat + 32) else c

/-- ASCII small letters made capital; every other character is kept. -/
def asciiUpper (c : Char) : Char :=
  if 'a' ≤ c ∧ c ≤ 'z' then Char.ofNat (c.toNat - 32) else c

end LintPatrol.Text
