/-!
# LintPatrol.Stream.Transport

The bytes of a connection as they arrive: cut into pieces at arbitrary
places.  One poll takes bytes from one piece only, so a reader must not rely
on where the cuts are.  An empty piece is a moment at which nothing has come
yet.  `bytes` is what a transport carries in all; every operation is
described by what it does to that.
-/

namespace LintPatrol

/-- What is still to come on a connection, piece by piece. -/
abbrev Transport := List (List UInt8)

namespace Transport

def bytes (t : Transport) : List UInt8 := t.flatten

@[simp] theorem bytes_nil : bytes [] = [] := rfl

@[simp] theorem bytes_cons (p : List UInt8) (t : Transport) : bytes (p :: t) = p ++ t.bytes := rfl

/-! ## Cutting -/

/-- A transport whose pieces have `size` bytes, the last one perhaps fewer;
there is one piece if `size` is zero. -/
def ofBytes (size : Nat) (bs : List UInt8) : Transport :=
  if _h : size = 0 ∨ bs.drop size = [] then [bs]
  else bs.take size :: ofBytes size (bs.drop size)
termination_by bs.length
decreasing_by
  simp only [List.drop_eq_nil_iff] at _h
  simp only [List.length_drop]
  omega

/-- Bytes that are cut into pieces are the same bytes. -/
theorem bytes_ofBytes (size : Nat) (bs : List UInt8) : (ofBytes size bs).bytes = bs := by
  fun_induction ofBytes size bs with
  | case1 bs h => simp
  | case2 bs h ih => simp [ih]

/-! ## Reading -/

/-- Takes at most `n` bytes of the next piece, if anything has come; nothing
is taken only at the end, or if `n` is zero. -/
def poll (n : Nat) : Transport → Option (List UInt8) × Transport
  | [] => (some [], [])
  | [] :: t => (none, t)
  | (b :: bs) :: t =>
    (some ((b :: bs).take n), if bs.length < n then t else (b :: bs).drop n :: t)

/-- What is taken and what is left make up what there was. -/
theorem poll_append (n : Nat) (t : Transport) :
    (t.poll n).1.getD [] ++ (t.poll n).2.bytes = t.bytes := by
  fun_cases poll n t with
  | case1 => rfl
  | case2 t => rfl
  | case3 b bs t =>
    by_cases h : bs.length < n
    · have hn : (b :: bs).length ≤ n := Nat.succ_le_of_lt h
      simp [h, List.take_of_length_le hn]
    · simp [h, ← List.append_assoc]

/-- A poll loses no byte. -/
theorem length_bytes_poll (n : Nat) (t : Transport) :
    ((t.poll n).1.getD []).length + (t.poll n).2.bytes.length = t.bytes.length := by
  rw [← poll_append n t, List.length_append]

/-- No more is taken than was asked for. -/
theorem length_poll_le (n : Nat) (t : Transport) : ((t.poll n).1.getD []).length ≤ n := by
  fun_cases poll n t with
  | case1 => simp
  | case2 t => simp
  | case3 b bs t => simp only [Option.getD_some, List.length_take]; omega

/-- Nothing is taken only at the end. -/
theorem eq_nil_of_poll {n : Nat} {t t' : Transport} (hn : 0 < n) (h : t.poll n = (some [], t')) :
    t = [] ∧ t' = [] := by
  fun_cases poll n t with
  | case1 => cases h; exact ⟨rfl, rfl⟩
  | case2 t => cases h
  | case3 b bs t =>
    obtain ⟨m, rfl⟩ : ∃ m, n = m + 1 := ⟨n - 1, by omega⟩
    cases h

/-- A moment at which nothing has come passes. -/
theorem length_poll_lt (n : Nat) (t t' : Transport) (h : t.poll n = (none, t')) :
    t'.length < t.length := by
  cases t with
  | nil => simp [poll] at h
  | cons p t => cases p <;> simp_all [poll]

theorem length_poll (n : Nat) (t : Transport) : (t.poll n).2.length ≤ t.length := by
  fun_cases poll n t with
  | case1 => simp
  | case2 t => simp
  | case3 b bs t =>
    by_cases h : bs.length < n <;> simp [h]

end Transport

end LintPatrol
