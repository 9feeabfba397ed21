import LintPatrol.Text.Utf8

/-!
# LintPatrol.Proofs.Text.Utf8

What decoding with replacement makes of text that is UTF-8, and of any bytes.
A character is looked at byte by byte: `lead_two`, `lead_three` and
`lead_four` say what the first byte of a longer one is read as, and
`Completes.continued` what comes of each further byte.  A byte below 128 is
never a part of a longer character: neither of one that is encoded
(`eq_of_mem_encodeChar`), nor of one that has been begun (`Partial.Above`).

## Main statements

* `decodeLossy_encode` and `decode?_encode`: text that is encoded is decoded as it
  was, and nothing is wrong with it.
* `decodeLossy_append`: a byte below 128 cuts a text in two.
* `mem_of_mem_decodeLossy`: a character below 128 comes of its byte only.
* `length_decodeLossy_le`: a text has no more characters than bytes.
* `encode_lt_iff`: texts are ordered as their bytes are.
-/

namespace LintPatrol.Text.Utf8

/-! ## First bytes -/

/-- A byte below 128 is a character by itself. -/
theorem lead_one {n : Nat} (h : n < 128) : lead (UInt8.ofNat n) = .whole (Char.ofNat n) := by
  have hbyte : (UInt8.ofNat n).toNat = n := by
    rw [UInt8.toNat_ofNat']
    omega
  have hlt : UInt8.ofNat n < 0x80 := by
    rw [UInt8.lt_iff_toNat_lt, hbyte]
    exact h
  rw [lead, if_pos hlt, hbyte]

/-- The first of two bytes. -/
theorem lead_two : ∀ n < 32, 2 ≤ n →
    lead (UInt8.ofNat (n + 192)) = .begun ⟨1, 0x80, 0xBF, n⟩ := by decide

/-- The first of three bytes. -/
theorem lead_three : ∀ n < 16,
    lead (UInt8.ofNat (n + 224)) =
      .begun ⟨2, if n = 0 then 0xA0 else 0x80, if n = 13 then 0x9F else 0xBF, n⟩ := by decide

/-- The first of four bytes. -/
theorem lead_four : ∀ n < 5,
    lead (UInt8.ofNat (n + 240)) =
      .begun ⟨3, if n = 0 then 0x90 else 0x80, if n = 4 then 0x8F else 0xBF, n⟩ := by decide

/-! ## Further bytes -/

theorem Partial.accepts_iff (p : Partial) (b : UInt8) :
    p.accepts b = true ↔ p.low.toNat ≤ b.toNat ∧ b.toNat ≤ p.high.toNat := by
  simp only [Partial.accepts, Bool.and_eq_true, decide_eq_true_eq, UInt8.le_iff_toNat_le]

/-- The bytes complete the character, which may have been begun. -/
inductive Completes : Option Partial → List UInt8 → Char → Prop
  | whole {b : UInt8} {c : Char} (h : lead b = .whole c) : Completes none [b] c
  | begun {b : UInt8} {bs : List UInt8} {p : Partial} {c : Char} (h : lead b = .begun p)
    (hbs : Completes (some p) bs c) : Completes none (b :: bs) c
  | last {b : UInt8} {p : Partial} (h : p.accepts b = true) (howed : p.owed ≤ 1) :
    Completes (some p) [b] (Char.ofNat (p.shift b))
  | next {b : UInt8} {bs : List UInt8} {p : Partial} {c : Char} (h : p.accepts b = true)
    (howed : ¬p.owed ≤ 1) (hbs : Completes (some (p.next b)) bs c) : Completes (some p) (b :: bs) c

/-- A further byte carries six bits. -/
theorem Partial.accepts_continued {p : Partial} {n : Nat} (h : n < 64)
    (hlow : p.low.toNat ≤ n + 128) (hhigh : n + 128 ≤ p.high.toNat) :
    p.accepts (UInt8.ofNat (n + 128)) = true ∧
      p.shift (UInt8.ofNat (n + 128)) = p.code * 64 + n := by
  have hbyte : (UInt8.ofNat (n + 128)).toNat = n + 128 := by
    rw [UInt8.toNat_ofNat']
    omega
  constructor
  · rw [p.accepts_iff, hbyte]
    exact ⟨hlow, hhigh⟩
  · rw [Partial.shift, hbyte]
    omega

/-- A byte after which more are owed. -/
theorem Completes.continued {p : Partial} {n : Nat} (h : n < 64) (hlow : p.low.toNat ≤ n + 128)
    (hhigh : n + 128 ≤ p.high.toNat) (howed : ¬p.owed ≤ 1) {bs : List UInt8} {c : Char}
    (hbs : Completes (some ⟨p.owed - 1, 0x80, 0xBF, p.code * 64 + n⟩) bs c) :
    Completes (some p) (UInt8.ofNat (n + 128) :: bs) c := by
  obtain ⟨haccepts, hshift⟩ := Partial.accepts_continued h hlow hhigh
  refine .next haccepts howed ?_
  rwa [Partial.next, hshift]

/-- The last byte, whose range is not restricted. -/
theorem Completes.tail {code n : Nat} (h : n < 64) :
    Completes (some ⟨1, 0x80, 0xBF, code⟩) [UInt8.ofNat (n + 128)]
      (Char.ofNat (code * 64 + n)) := by
  let p : Partial := ⟨1, 0x80, 0xBF, code⟩
  obtain ⟨haccepts, hshift⟩ : p.accepts (UInt8.ofNat (n + 128)) = true ∧
      p.shift (UInt8.ofNat (n + 128)) = code * 64 + n :=
    Partial.accepts_continued h (by simp [p]) (by simp [p]; omega)
  exact hshift ▸ Completes.last haccepts (Nat.le_refl 1)

/-! ## Characters -/

section Characters

variable {v : Nat}

/-- Two bytes make up each character from `0x80` up to `0x7ff`. -/
theorem completes_two (h : 0x80 ≤ v) (h' : v < 0x800) :
    Completes none [UInt8.ofNat (v / 64 % 32 + 192), UInt8.ofNat (v % 64 + 128)]
      (Char.ofNat v) := by
  have hlead := lead_two (v / 64 % 32) (by omega) (by omega)
  have hcode : v / 64 % 32 * 64 + v % 64 = v := by omega
  have htail : Completes _ _ (Char.ofNat (v / 64 % 32 * 64 + v % 64)) := .tail (by omega)
  rw [hcode] at htail
  exact .begun hlead htail

/-- The range of the second byte keeps out what two bytes are enough for, and
surrogates. -/
theorem completes_three (h : 0x800 ≤ v) (h' : v < 0x10000) (hv : v < 0xD800 ∨ 0xDFFF < v) :
    Completes none [UInt8.ofNat (v / 4096 % 16 + 224), UInt8.ofNat (v / 64 % 64 + 128),
      UInt8.ofNat (v % 64 + 128)] (Char.ofNat v) := by
  have hlead := lead_three (v / 4096 % 16) (by omega)
  have hlow : (if v / 4096 % 16 = 0 then 0xA0 else 0x80 : UInt8).toNat ≤ v / 64 % 64 + 128 := by
    split
    · simp
      omega
    · simp
  have hhigh : v / 64 % 64 + 128 ≤ (if v / 4096 % 16 = 13 then 0x9F else 0xBF : UInt8).toNat := by
    split <;> simp <;> omega
  have hcode : (v / 4096 % 16 * 64 + v / 64 % 64) * 64 + v % 64 = v := by omega
  have htail : Completes _ _ (Char.ofNat ((v / 4096 % 16 * 64 + v / 64 % 64) * 64 + v % 64)) :=
    .tail (by omega)
  rw [hcode] at htail
  exact .begun hlead (.continued (by omega) hlow hhigh (by simp) htail)

/-- The range of the second byte keeps out what three bytes are enough for, and
what is too large. -/
theorem completes_four (h : 0x10000 ≤ v) (h' : v < 0x110000) :
    Completes none [UInt8.ofNat (v / 262144 % 8 + 240), UInt8.ofNat (v / 4096 % 64 + 128),
      UInt8.ofNat (v / 64 % 64 + 128), UInt8.ofNat (v % 64 + 128)] (Char.ofNat v) := by
  have hlead := lead_four (v / 262144 % 8) (by omega)
  have hlow : (if v / 262144 % 8 = 0 then 0x90 else 0x80 : UInt8).toNat ≤ v / 4096 % 64 + 128 := by
    split
    · simp
      omega
    · simp
  have hhigh : v / 4096 % 64 + 128 ≤ (if v / 262144 % 8 = 4 then 0x8F else 0xBF : UInt8).toNat := by
    split <;> simp <;> omega
  have hcode : ((v / 262144 % 8 * 64 + v / 4096 % 64) * 64 + v / 64 % 64) * 64 + v % 64 = v := by
    omega
  have htail : Completes _ _
      (Char.ofNat (((v / 262144 % 8 * 64 + v / 4096 % 64) * 64 + v / 64 % 64) * 64 + v % 64)) :=
    .tail (by omega)
  rw [hcode] at htail
  have hthird : Completes (some ⟨2, 0x80, 0xBF, v / 262144 % 8 * 64 + v / 4096 % 64⟩)
      [UInt8.ofNat (v / 64 % 64 + 128), UInt8.ofNat (v % 64 + 128)] (Char.ofNat v) :=
    .continued (by omega) (by simp) (by simp; omega) (by simp) htail
  exact .begun hlead (.continued (by omega) hlow hhigh (by simp) hthird)

end Characters

/-- The bytes of a character complete it. -/
theorem completes_encodeChar (c : Char) : Completes none (String.utf8EncodeChar c) c := by
  have hvalid : c.toNat < 0xD800 ∨ 0xDFFF < c.toNat ∧ c.toNat < 0x110000 := c.valid
  have hc : Char.ofNat c.toNat = c := Char.ofNat_toNat c
  have hval : c.val.toNat = c.toNat := rfl
  simp only [String.utf8EncodeChar, hval]
  generalize c.toNat = v at hvalid hc
  rw [← hc]
  split
  · exact .whole (lead_one (by omega))
  · split
    · exact completes_two (by omega) (by omega)
    · split
      · exact completes_three (by omega) (by omega) (by omega)
      · exact completes_four (by omega) (by omega)

/-- Bytes that complete a character decode to it, whatever follows. -/
theorem Completes.decodeFrom_append {p? : Option Partial} {bs : List UInt8} {c : Char}
    (h : Completes p? bs c) (rest : List UInt8) :
    decodeFrom p? (bs ++ rest) = c :: decodeFrom none rest := by
  induction h with
  | whole h => rw [List.singleton_append, decodeFrom, h]
  | begun h _ ih => rw [List.cons_append, decodeFrom, h]; exact ih
  | last h howed => rw [List.singleton_append, decodeFrom, if_pos h, if_pos howed]
  | next h howed _ ih => rw [List.cons_append, decodeFrom, if_pos h, if_neg howed, ih]

/-- No fault is found in it. -/
theorem Completes.faultFrom_append {p? : Option Partial} {bs : List UInt8} {c : Char}
    (h : Completes p? bs c) (start seen : Nat) (rest : List UInt8) :
    ∃ start', faultFrom start seen p? (bs ++ rest) = faultFrom start' 0 none rest := by
  induction h generalizing start seen with
  | whole h => exact ⟨start + 1, by rw [List.singleton_append, faultFrom, h]⟩
  | begun h _ ih =>
    rw [List.cons_append, faultFrom, h]
    exact ih start 1
  | last h howed =>
    exact ⟨start + seen + 1, by rw [List.singleton_append, faultFrom, if_pos h, if_pos howed]⟩
  | next h howed _ ih =>
    rw [List.cons_append, faultFrom, if_pos h, if_neg howed]
    exact ih start (seen + 1)

/-- **A character is decoded**, whatever stands behind it. -/
theorem decodeFrom_encodeChar (c : Char) (bs : List UInt8) :
    decodeFrom none (String.utf8EncodeChar c ++ bs) = c :: decodeFrom none bs :=
  (completes_encodeChar c).decodeFrom_append bs

/-- A byte below 128 occurs only as the character that it is. -/
theorem eq_of_mem_encodeChar {c : Char} {n : Nat} (hn : n < 128)
    (h : UInt8.ofNat n ∈ String.utf8EncodeChar c) : c = Char.ofNat n := by
  have hc : Char.ofNat c.toNat = c := Char.ofNat_toNat c
  have hval : c.val.toNat = c.toNat := rfl
  have heq : ∀ m < 256, UInt8.ofNat n = UInt8.ofNat m → n = m := fun m hm h => by
    have htoNat := congrArg UInt8.toNat h
    rw [UInt8.toNat_ofNat', UInt8.toNat_ofNat'] at htoNat
    omega
  simp only [String.utf8EncodeChar, hval] at h
  generalize c.toNat = v at h hc
  split at h
  · rw [heq v (by omega) (List.mem_singleton.mp h), hc]
  · -- All bytes of a longer character are above.
    have habove : ∃ m, 128 ≤ m ∧ m < 256 ∧ UInt8.ofNat n = UInt8.ofNat m := by
      split at h
      · simp only [List.mem_cons, List.not_mem_nil, or_false] at h
        rcases h with h | h <;> exact ⟨_, by omega, by omega, h⟩
      · split at h <;> simp only [List.mem_cons, List.not_mem_nil, or_false] at h
        · rcases h with h | h | h <;> exact ⟨_, by omega, by omega, h⟩
        · rcases h with h | h | h | h <;> exact ⟨_, by omega, by omega, h⟩
    obtain ⟨m, hm, hlt, h⟩ := habove
    have := heq m hlt h
    omega

/-- A byte below 128 that occurs in a text is a character of it. -/
theorem mem_of_mem_encode {cs : List Char} {n : Nat} (hn : n < 128)
    (h : UInt8.ofNat n ∈ encode cs) : Char.ofNat n ∈ cs := by
  obtain ⟨c, hc, hmem⟩ := List.mem_flatMap.mp h
  rwa [← eq_of_mem_encodeChar hn hmem]

/-! ## Bytes below 128 -/

theorem toNat_ofNat {n : Nat} (h : n.isValidChar) : (Char.ofNat n).toNat = n :=
  congrArg Char.toNat (dif_pos h)

theorem toNat_ofNat_of_not {n : Nat} (h : ¬ n.isValidChar) : (Char.ofNat n).toNat = 0 :=
  congrArg Char.toNat (dif_neg h)

/-- A number below 128 is that of one character only. -/
theorem eq_of_ofNat_eq {m n : Nat} (hpos : 0 < n) (hn : n < 128)
    (h : Char.ofNat m = Char.ofNat n) : m = n := by
  have hvalid : n.isValidChar := .inl (by omega)
  have hnum := congrArg Char.toNat h
  rw [toNat_ofNat hvalid] at hnum
  by_cases hm : m.isValidChar
  · rwa [toNat_ofNat hm] at hnum
  · rw [toNat_ofNat_of_not hm] at hnum
    omega

/-- All bytes of a character that has been begun are above those that are
characters by themselves, and so is its value. -/
structure Partial.Above (p : Partial) : Prop where
  low : 128 ≤ p.low.toNat
  high : p.high.toNat < 192
  value : 2 ≤ p.code * 64 + (p.low.toNat - 128)
  last : p.owed ≤ 1 → 128 ≤ p.code * 64 + (p.low.toNat - 128)

theorem lead_whole {b : UInt8} {c : Char} (h : lead b = .whole c) : c = Char.ofNat b.toNat := by
  revert h
  fun_cases lead b with
  | case1 => rintro ⟨⟩; rfl
  | _ => nofun

/-- A first byte without bits of its own asks for a second byte that has high
ones. -/
theorem above_of_lead {b : UInt8} {p : Partial} (h : lead b = .begun p) : p.Above := by
  revert h
  fun_cases lead b with
  | case3 _ hb hb' =>
    rintro ⟨⟩
    rw [UInt8.lt_iff_toNat_lt] at hb hb'
    simp at hb hb'
    exact ⟨by simp, by simp, by simp; omega, by simp; omega⟩
  | case4 _ _ hb hb' =>
    rintro ⟨⟩
    simp only [UInt8.lt_iff_toNat_lt] at hb hb'
    refine ⟨by simp only; split <;> simp, by simp only; split <;> simp, ?_, by simp⟩
    split
    next h => simp [h]
    next h =>
      simp [← UInt8.toNat_inj] at *
      omega
  | case5 _ _ _ hb hb' =>
    rintro ⟨⟩
    simp only [UInt8.lt_iff_toNat_lt] at hb hb'
    refine ⟨by simp only; split <;> simp, by simp only; split <;> simp, ?_, by simp⟩
    split
    next h => simp [h]
    next h =>
      simp [← UInt8.toNat_inj] at *
      omega
  | _ => nofun

namespace Partial.Above

variable {p : Partial} {b : UInt8}

theorem not_accepts (h : p.Above) (hb : b.toNat < 128) : ¬ p.accepts b = true := by
  have := h.low
  rw [accepts_iff]
  omega

/-- The least byte that is accepted makes the least value. -/
theorem le_shift (h : p.Above) (hb : p.accepts b = true) :
    p.code * 64 + (p.low.toNat - 128) ≤ p.shift b := by
  have := h.low
  have := h.high
  rw [accepts_iff] at hb
  rw [shift]
  omega

theorem next (h : p.Above) (hb : p.accepts b = true) : (p.next b).Above := by
  have := h.value
  have := h.le_shift hb
  exact ⟨by simp [Partial.next], by simp [Partial.next], by simp [Partial.next]; omega,
    by simp [Partial.next]; omega⟩

end Partial.Above

theorem none_above : ∀ p ∈ (none : Option Partial), p.Above := nofun

theorem some_above {p : Partial} (h : p.Above) : ∀ q ∈ some p, q.Above := by
  rintro q ⟨⟩
  exact h

/-- A byte that is refused begins anew. -/
theorem decodeFrom_of_not_accepts {p : Partial} {b : UInt8} (h : ¬ p.accepts b = true)
    (bs : List UInt8) :
    decodeFrom (some p) (b :: bs) = replacement :: decodeFrom none (b :: bs) := by
  simp only [decodeFrom, if_neg h]

/-- A byte below 128 is a character by itself, whatever has been begun. -/
theorem decodeFrom_append {n : Nat} (hn : n < 128) {p? : Option Partial}
    (above : ∀ p ∈ p?, p.Above) (bs rest : List UInt8) :
    decodeFrom p? (bs ++ UInt8.ofNat n :: rest) =
      decodeFrom p? bs ++ Char.ofNat n :: decodeFrom none rest := by
  have hbyte : (UInt8.ofNat n).toNat < 128 := by
    rw [UInt8.toNat_ofNat']
    omega
  induction bs generalizing p? with
  | nil =>
    have hnone : decodeFrom none (UInt8.ofNat n :: rest) =
        Char.ofNat n :: decodeFrom none rest := by
      rw [decodeFrom, lead_one hn]
    cases p? with
    | none => exact hnone
    | some p =>
      rw [List.nil_append, decodeFrom_of_not_accepts ((above p rfl).not_accepts hbyte), hnone]
      rfl
  | cons b bs ih =>
    have hnone : decodeFrom none (b :: (bs ++ UInt8.ofNat n :: rest)) =
        decodeFrom none (b :: bs) ++ Char.ofNat n :: decodeFrom none rest := by
      rw [decodeFrom, decodeFrom]
      cases hl : lead b with
      | whole c => exact congrArg (c :: ·) (ih none_above)
      | begun p => exact ih (some_above (above_of_lead hl))
      | bad => exact congrArg (replacement :: ·) (ih none_above)
    rw [List.cons_append]
    cases p? with
    | none => exact hnone
    | some p =>
      by_cases ha : p.accepts b = true
      · rw [decodeFrom, decodeFrom, if_pos ha, if_pos ha]
        by_cases ho : p.owed ≤ 1
        · rw [if_pos ho, if_pos ho, ih none_above]
          rfl
        · rw [if_neg ho, if_neg ho, ih (some_above ((above p rfl).next ha))]
      · rw [decodeFrom_of_not_accepts ha, decodeFrom_of_not_accepts ha, hnone]
        rfl

/-- A character below 128 comes of its byte only. -/
theorem mem_of_mem_decodeFrom {n : Nat} (hpos : 0 < n) (hn : n < 128) {p? : Option Partial}
    (above : ∀ p ∈ p?, p.Above) {bs : List UInt8} (h : Char.ofNat n ∈ decodeFrom p? bs) :
    UInt8.ofNat n ∈ bs := by
  have hrepl : Char.ofNat n ≠ replacement := fun h => by
    have := eq_of_ofNat_eq hpos hn (m := 0xFFFD) h.symm
    omega
  induction bs generalizing p? with
  | nil =>
    cases p? with
    | none => nomatch h
    | some p => exact absurd (List.mem_singleton.mp h) hrepl
  | cons b bs ih =>
    have hnone : Char.ofNat n ∈ decodeFrom none (b :: bs) → UInt8.ofNat n ∈ b :: bs := by
      rw [decodeFrom]
      cases hl : lead b with
      | whole c =>
        rw [lead_whole hl, List.mem_cons]
        rintro (h | h)
        · rw [← eq_of_ofNat_eq hpos hn h.symm, UInt8.ofNat_toNat]
          exact List.mem_cons_self
        · exact List.mem_cons_of_mem b (ih none_above h)
      | begun p =>
        exact fun h => List.mem_cons_of_mem b (ih (some_above (above_of_lead hl)) h)
      | bad =>
        exact fun h => List.mem_cons_of_mem b (ih none_above (List.mem_of_ne_of_mem hrepl h))
    cases p? with
    | none => exact hnone h
    | some p =>
      by_cases ha : p.accepts b = true
      · rw [decodeFrom, if_pos ha] at h
        by_cases ho : p.owed ≤ 1
        · have hne : Char.ofNat n ≠ Char.ofNat (p.shift b) := fun h => by
            have := (above p rfl).le_shift ha
            have := (above p rfl).last ho
            have := eq_of_ofNat_eq hpos hn h.symm
            omega
          rw [if_pos ho] at h
          exact List.mem_cons_of_mem b (ih none_above (List.mem_of_ne_of_mem hne h))
        · rw [if_neg ho] at h
          exact List.mem_cons_of_mem b (ih (some_above ((above p rfl).next ha)) h)
      · rw [decodeFrom_of_not_accepts ha] at h
        exact hnone (List.mem_of_ne_of_mem hrepl h)

/-! ## Texts -/

/-- A byte below 128 cuts a text in two. -/
theorem decodeLossy_append {n : Nat} (hn : n < 128) (bs rest : List UInt8) :
    decodeLossy (bs ++ UInt8.ofNat n :: rest) =
      decodeLossy bs ++ Char.ofNat n :: decodeLossy rest :=
  decodeFrom_append hn none_above bs rest

/-- An ASCII character comes from its byte only. -/
theorem mem_of_mem_decodeLossy {n : Nat} (hpos : 0 < n) (hn : n < 128) {bs : List UInt8}
    (h : Char.ofNat n ∈ decodeLossy bs) : UInt8.ofNat n ∈ bs :=
  mem_of_mem_decodeFrom hpos hn none_above h

/-- Every character comes of a byte at least, or of a character that was begun. -/
theorem length_decodeFrom_le (p? : Option Partial) (bs : List UInt8) :
    (decodeFrom p? bs).length ≤ bs.length + p?.toList.length := by
  induction bs generalizing p? with
  | nil => cases p? <;> simp [decodeFrom]
  | cons b bs ih =>
    have hnone : (decodeFrom none (b :: bs)).length ≤ bs.length + 1 := by
      rw [decodeFrom]
      cases lead b with
      | whole c => exact Nat.succ_le_succ (ih none)
      | begun p => exact ih (some p)
      | bad => exact Nat.succ_le_succ (ih none)
    cases p? with
    | none => exact hnone
    | some p =>
      by_cases ha : p.accepts b = true
      · rw [decodeFrom, if_pos ha]
        split
        · exact Nat.succ_le_succ (Nat.le_succ_of_le (ih none))
        · exact Nat.le_succ_of_le (ih (some (p.next b)))
      · rw [decodeFrom_of_not_accepts ha]
        exact Nat.succ_le_succ hnone

/-- There are no more characters than bytes. -/
theorem length_decodeLossy_le (bs : List UInt8) : (decodeLossy bs).length ≤ bs.length :=
  length_decodeFrom_le none bs
/-- **Text that is encoded is decoded as it was.** -/
theorem decodeLossy_encode (cs : List Char) : decodeLossy (encode cs) = cs := by
  induction cs with
  | nil => rfl
  | cons c cs ih =>
    rw [decodeLossy] at ih ⊢
    rw [encode, List.flatMap_cons, decodeFrom_encodeChar, ← encode, ih]

/-- What is encoded has no fault. -/
theorem faultFrom_encode (start : Nat) (cs : List Char) :
    faultFrom start 0 none (encode cs) = none := by
  induction cs generalizing start with
  | nil => rfl
  | cons c cs ih =>
    obtain ⟨start', h⟩ := (completes_encodeChar c).faultFrom_append start 0 (encode cs)
    rw [encode, List.flatMap_cons, ← encode, h, ih]

/-- Nor is anything wrong with it. -/
theorem decode?_encode (cs : List Char) : decode? (encode cs) = some cs := by
  rw [decode?, fault?, faultFrom_encode, decodeLossy_encode]
  rfl

/-- Bytes are decoded just if nothing is at fault, and then as they would be anyway. -/
theorem decode?_eq_some_iff {bs : List UInt8} {cs : List Char} :
    decode? bs = some cs ↔ fault? bs = none ∧ decodeLossy bs = cs := by
  unfold decode?
  cases fault? bs <;> simp

theorem decode?_eq_none_iff {bs : List UInt8} : decode? bs = none ↔ fault? bs ≠ none := by
  unfold decode?
  cases fault? bs <;> simp

/-- Bytes are decoded to something. -/
theorem decodeFrom_ne_nil (p : Partial) (bs : List UInt8) : decodeFrom (some p) bs ≠ [] := by
  induction bs generalizing p with
  | nil => simp [decodeFrom]
  | cons b bs ih =>
    rw [decodeFrom]
    split
    · split
      · exact List.cons_ne_nil _ _
      · exact ih (p.next b)
    · exact List.cons_ne_nil _ _

theorem decodeLossy_eq_nil_iff {bs : List UInt8} : decodeLossy bs = [] ↔ bs = [] := by
  refine ⟨fun h => ?_, fun h => h ▸ rfl⟩
  cases bs with
  | nil => rfl
  | cons b bs =>
    rw [decodeLossy, decodeFrom] at h
    split at h
    · cases h
    · exact absurd h (decodeFrom_ne_nil _ bs)
    · cases h

/-- A text of one character below 128 is that of its byte. -/
theorem eq_of_decodeLossy_eq {n : Nat} (hpos : 0 < n) (hn : n < 128) {bs : List UInt8}
    (h : decodeLossy bs = [Char.ofNat n]) : bs = [UInt8.ofNat n] := by
  have hmem : UInt8.ofNat n ∈ bs := mem_of_mem_decodeLossy hpos hn (h ▸ List.mem_singleton_self _)
  obtain ⟨front, rest, rfl⟩ := List.append_of_mem hmem
  rw [decodeLossy_append hn] at h
  have hlength := congrArg List.length h
  simp only [List.length_append, List.length_cons, List.length_nil] at hlength
  have hfront : front = [] := decodeLossy_eq_nil_iff.mp (List.eq_nil_of_length_eq_zero (by omega))
  have hrest : rest = [] := decodeLossy_eq_nil_iff.mp (List.eq_nil_of_length_eq_zero (by omega))
  rw [hfront, hrest, List.nil_append]

/-! ## Order -/

theorem ofNat_lt_iff {m n : Nat} (hm : m < 256) (hn : n < 256) :
    UInt8.ofNat m < UInt8.ofNat n ↔ m < n := by
  rw [UInt8.lt_iff_toNat_lt, UInt8.toNat_ofNat', UInt8.toNat_ofNat']
  omega

theorem ofNat_eq_iff {m n : Nat} (hm : m < 256) (hn : n < 256) :
    UInt8.ofNat m = UInt8.ofNat n ↔ m = n := by
  rw [← UInt8.toNat_inj, UInt8.toNat_ofNat', UInt8.toNat_ofNat']
  omega

/-- The bytes of characters are ordered as the characters are, whatever follows. -/
theorem encodeChar_lt {c d : Char} (h : c < d) (bs bs' : List UInt8) :
    String.utf8EncodeChar c ++ bs < String.utf8EncodeChar d ++ bs' := by
  have hd : d.toNat < 0xD800 ∨ 0xDFFF < d.toNat ∧ d.toNat < 0x110000 := d.valid
  have hlt : c.toNat < d.toNat := h
  have hcval : c.val.toNat = c.toNat := rfl
  have hdval : d.val.toNat = d.toNat := rfl
  simp only [String.utf8EncodeChar, hcval, hdval]
  generalize c.toNat = v at hlt
  generalize d.toNat = w at hlt hd
  -- The first byte says how many there are, and each has the six bits above those of the next.
  have hdigits : ∀ n : Nat, n / 64 = n / 4096 * 64 + n / 64 % 64 ∧
      n / 4096 = n / 262144 * 64 + n / 4096 % 64 := fun n => by omega
  have hv := hdigits v
  have hw := hdigits w
  repeat' split
  all_goals
    simp (disch := omega) only [List.cons_append, List.nil_append, List.cons_lt_cons_iff,
      ofNat_lt_iff, ofNat_eq_iff, Nat.mod_eq_of_lt (b := 8), Nat.mod_eq_of_lt (b := 16),
      Nat.mod_eq_of_lt (b := 32)]
    omega

theorem encode_cons (c : Char) (cs : List Char) :
    encode (c :: cs) = String.utf8EncodeChar c ++ encode cs := List.flatMap_cons

/-- Encoding keeps the order of texts. -/
theorem encode_lt {cs ds : List Char} (h : cs < ds) : encode cs < encode ds := by
  induction cs generalizing ds with
  | nil =>
    cases ds with
    | nil => exact absurd h (List.not_lt_nil _)
    | cons d ds =>
      have hne : encode (d :: ds) ≠ [] := by simp [encode_cons]
      obtain ⟨b, bs, hbytes⟩ := List.exists_cons_of_ne_nil hne
      rw [hbytes]
      exact List.nil_lt_cons b bs
  | cons c cs ih =>
    cases ds with
    | nil => exact absurd h (List.not_lt_nil _)
    | cons d ds =>
      rw [encode_cons, encode_cons]
      rcases List.cons_lt_cons_iff.mp h with hlt | ⟨rfl, hlt⟩
      · exact encodeChar_lt hlt _ _
      · exact List.append_left_lt (ih hlt)

/-- **Texts are ordered as their bytes are.** -/
theorem encode_lt_iff {cs ds : List Char} : encode cs < encode ds ↔ cs < ds := by
  refine ⟨fun h => ?_, encode_lt⟩
  by_cases hgt : ds < cs
  · exact absurd h (List.lt_asymm (encode_lt hgt))
  by_cases hlt : cs < ds
  · exact hlt
  · have heq : cs = ds := List.le_antisymm (List.not_lt.mp hgt) (List.not_lt.mp hlt)
    exact absurd h (heq ▸ List.lt_irrefl _)

/-- Texts are compared by their bytes. -/
theorem bytes_lt_iff {s t : String} : bytes s < bytes t ↔ s < t := by
  rw [bytes, bytes, encode_lt_iff, String.lt_iff]

theorem bytes_le_iff {s t : String} : bytes s ≤ bytes t ↔ s ≤ t := by
  rw [← List.not_lt, bytes_lt_iff, String.not_lt]

end LintPatrol.Text.Utf8
