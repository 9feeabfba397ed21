import LintPatrol.Json.Record

/-!
# LintPatrol.Proofs.Json.Record

Records in JSON are read field by field as they are written.  What is written of a
field may be nothing; then the field is missing (`fields_membersOf`).
-/

namespace LintPatrol.Json

open Number

/-! ## Members -/

/-- Of several members of one name the last one counts. -/
theorem member?_cons (name k : String) (v : Json) (members : List (String × Json)) :
    member? name ((k, v) :: members) =
      (member? name members).or (if k = name then some v else none) := by
  have hlast : ([(k, v)].find? (·.1 == name)).map (·.2) = if k = name then some v else none := by
    by_cases h : k = name <;> simp [h]
  rw [member?, List.reverse_cons, List.find?_append, Option.map_or, hlast]
  rfl

section Fields

variable {α : Type} (written : α → Option Json)

/-- The members that are written of some entries. -/
def membersOf (entries : List (String × α)) : List (String × Json) :=
  entries.filterMap fun e => (written e.2).map (e.1, ·)

/-- So it does among those that have been read back. -/
theorem member?_membersOf_cons (name k : String) (a : α) (entries : List (String × α)) :
    member? name (membersOf written ((k, a) :: entries)) =
      (member? name (membersOf written entries)).or (if k = name then written a else none) := by
  cases h : written a with
  | none => simp [membersOf, h]
  | some v => simp [membersOf, h, member?_cons]

/-- A name that no entry has is not read back. -/
theorem member?_membersOf_of_not_mem {name : String} {entries : List (String × α)}
    (h : name ∉ entries.map (·.1)) : member? name (membersOf written entries) = none := by
  induction entries with
  | nil => rfl
  | cons e entries ih =>
    obtain ⟨k, a⟩ := e
    rw [List.map_cons, List.mem_cons, not_or] at h
    have hne : k ≠ name := Ne.symm h.1
    rw [member?_membersOf_cons, ih h.2, if_neg hne, Option.or_none]

/-- The member of an entry is what is written of it. -/
theorem member?_membersOf {entries : List (String × α)} (h : (entries.map (·.1)).Nodup)
    {e : String × α} (he : e ∈ entries) :
    member? e.1 (membersOf written entries) = written e.2 := by
  induction entries with
  | nil => cases he
  | cons f entries ih =>
    obtain ⟨k, a⟩ := f
    obtain ⟨hnew, hnodup⟩ := List.nodup_cons.mp h
    rw [member?_membersOf_cons]
    rcases List.mem_cons.mp he with rfl | he
    · rw [member?_membersOf_of_not_mem written hnew, if_pos rfl, Option.none_or]
    · have hne : k ≠ e.1 := fun heq => hnew (List.mem_map.mpr ⟨e, he, heq.symm⟩)
      rw [ih hnodup he, if_neg hne, Option.or_none]

/-- **A record is read field by field** as it is written. -/
theorem fields_membersOf (rule : ListRule) {entries : List (String × α)}
    (h : (entries.map (·.1)).Nodup) :
    fields rule (entries.map (·.1)) (.obj (membersOf written entries)) =
      some (entries.map fun e => written e.2) := by
  rw [fields, List.map_map]
  exact congrArg some (List.map_congr_left fun e he => member?_membersOf written h he)

end Fields

/-! ## Single values -/

@[simp] theorem uint64?_ofUInt64 (n : UInt64) : uint64? (ofUInt64 n) = some n := by
  have hlt := n.toNat_lt
  have hbounds : (0 : Int) ≤ n.toNat ∧ (n.toNat : Int) ≤ maxUInt64 := by
    simp only [maxUInt64]
    omega
  rw [ofUInt64, uint64?, if_pos hbounds, Int.toNat_natCast, UInt64.ofNat_toNat]

@[simp] theorem int64?_toInt (n : Int64) : int64? (.int n.toInt) = some n := by
  have hlow := n.le_toInt
  have hhigh := n.toInt_lt
  have hbounds : minInt64 ≤ n.toInt ∧ n.toInt ≤ maxInt64 := by
    simp only [minInt64, maxInt64]
    omega
  rw [int64?, if_pos hbounds, Int64.ofInt_toInt]

/-- A text that may be missing is missing where it is `null`. -/
@[simp] theorem optional_str? (s : Option String) : optional str? (s.map .str) = some s := by
  cases s <;> rfl

end LintPatrol.Json
