import LintPatrol.Stream.Frame

/-!
# LintPatrol.Proofs.Stream.Framing

What a string of bytes says as a sequence of frames, with no reader in sight.
A `Frame` is complete and not too long, and nothing is asked of the first
bytes of its header.  Every string begins with a longest run of frames
(`exists_longestRun`), which is the only one (`LongestRun.unique`), and
`fault?` says what is wrong with the bytes behind it.

## Main statements

* `Frame.eq_of_begins`: a string begins with one frame at most.
* `exists_longestRun`, `LongestRun.unique`: the longest run exists, and there
  is only one.
* `not_begins_iff`: when a string begins with no frame.
* `LongestRun.prefix_of_append`, `LongestRun.append_of_frameTooLong`: what stays
  when more bytes follow.
-/

namespace LintPatrol

/-! ## frames -/

/-- A complete frame with a payload that is not too long. -/
structure Frame where
  header : List UInt8
  payload : List UInt8
  length_header : header.length = headerLength
  length_payload : payload.length = announcedLength header
  announcedLength_le : announcedLength header ≤ frameLimit

namespace Frame

def bytes (f : Frame) : List UInt8 := f.header ++ f.payload

def run (fs : List Frame) : List UInt8 := fs.flatMap bytes

def payloads (fs : List Frame) : List UInt8 := fs.flatMap payload

@[simp] theorem run_nil : run [] = [] := rfl

@[simp] theorem run_cons (f : Frame) (fs : List Frame) : run (f :: fs) = f.bytes ++ run fs := rfl

@[simp] theorem payloads_nil : payloads [] = [] := rfl

@[simp] theorem payloads_cons (f : Frame) (fs : List Frame) :
    payloads (f :: fs) = f.payload ++ payloads fs := rfl

theorem length_bytes (f : Frame) : f.bytes.length = headerLength + announcedLength f.header := by
  rw [bytes, List.length_append, f.length_header, f.length_payload]

/-- The header is read off the first bytes. -/
theorem take_of_begins {f : Frame} {bs : List UInt8} (h : f.bytes <+: bs) :
    bs.take headerLength = f.header := by
  obtain ⟨rest, rfl⟩ := h
  rw [bytes, List.append_assoc, ← f.length_header, List.take_left]

/-- A string of bytes begins with one frame at most. -/
theorem eq_of_begins {f g : Frame} {bs : List UInt8} (hf : f.bytes <+: bs) (hg : g.bytes <+: bs) :
    f = g := by
  have hh : f.header = g.header := (take_of_begins hf).symm.trans (take_of_begins hg)
  have hl : f.bytes.length = g.bytes.length := by rw [length_bytes, length_bytes, hh]
  have hb : f.bytes = g.bytes :=
    (List.prefix_of_prefix_length_le hf hg (Nat.le_of_eq hl)).eq_of_length hl
  have hp : f.payload = g.payload := by
    unfold bytes at hb
    rw [hh] at hb
    exact List.append_cancel_left hb
  cases f
  cases g
  simp_all

end Frame

/-- When a string of bytes begins with no frame: a header is missing, or
announces too much, or more than there is. -/
theorem not_begins_iff (bs : List UInt8) :
    (∀ f : Frame, ¬ f.bytes <+: bs) ↔
      bs.length < headerLength ∨ frameLimit < announcedLength (bs.take headerLength) ∨
        bs.length < headerLength + announcedLength (bs.take headerLength) := by
  constructor
  · intro h
    refine Decidable.byContradiction fun hc => ?_
    simp only [not_or, Nat.not_lt] at hc
    obtain ⟨hl, ha, hp⟩ := hc
    let f : Frame :=
      { header := bs.take headerLength
        payload := (bs.drop headerLength).take (announcedLength (bs.take headerLength))
        length_header := by simp; omega
        length_payload := by simp; omega
        announcedLength_le := ha }
    refine h f ⟨(bs.drop headerLength).drop (announcedLength (bs.take headerLength)), ?_⟩
    show (bs.take headerLength ++ _) ++ _ = bs
    rw [List.append_assoc, List.take_append_drop, List.take_append_drop]
  · intro h f hf
    have hl := hf.length_le
    rw [f.length_bytes] at hl
    rw [Frame.take_of_begins hf] at h
    have := f.announcedLength_le
    omega

/-- A frame does not begin bytes that are too few for a header. -/
theorem not_begins_of_short {bs : List UInt8} (h : bs.length < headerLength) (f : Frame) :
    ¬ f.bytes <+: bs :=
  (not_begins_iff bs).mpr (.inl h) f

/-- It does not begin a header that announces too much, or more than there is. -/
theorem not_begins_of_append {header bs : List UInt8} (hh : header.length = headerLength)
    (h : frameLimit < announcedLength header ∨ bs.length < announcedLength header) (f : Frame) :
    ¬ f.bytes <+: header ++ bs := by
  have ht : (header ++ bs).take headerLength = header := by rw [← hh, List.take_left]
  refine (not_begins_iff _).mpr (.inr ?_) f
  rw [ht, List.length_append, hh]
  omega

/-! ## runs of frames -/

/-- The longest run of frames that a string of bytes begins with, and the
bytes behind it: any run that the string begins with is a part of it. -/
structure LongestRun (bs : List UInt8) (fs : List Frame) (rest : List UInt8) : Prop where
  eq : bs = Frame.run fs ++ rest
  longest : ∀ gs, Frame.run gs <+: bs → gs <+: fs

namespace LongestRun

variable {bs rest rest' : List UInt8} {fs gs : List Frame} {f : Frame}

/-- There is no frame to begin with. -/
theorem nil (h : ∀ f : Frame, ¬ f.bytes <+: bs) : LongestRun bs [] bs where
  eq := rfl
  longest gs hg := by
    cases gs with
    | nil => exact List.prefix_rfl
    | cons g gs => exact absurd ((List.prefix_append ..).trans hg) (h g)

theorem empty : LongestRun [] [] [] := nil (not_begins_of_short (Nat.zero_lt_succ 7))

/-- A frame before the others. -/
theorem cons (h : LongestRun bs fs rest) : LongestRun (f.bytes ++ bs) (f :: fs) rest where
  eq := by rw [Frame.run_cons, List.append_assoc, ← h.eq]
  longest gs hg := by
    cases gs with
    | nil => exact List.nil_prefix
    | cons g gs =>
      have hgf : g = f :=
        Frame.eq_of_begins ((List.prefix_append ..).trans hg) (List.prefix_append ..)
      subst hgf
      rw [Frame.run_cons, List.prefix_append_right_inj] at hg
      rw [List.cons_prefix_cons]
      exact ⟨rfl, h.longest gs hg⟩

/-- There is one longest run. -/
theorem unique (h : LongestRun bs fs rest) (h' : LongestRun bs gs rest') :
    fs = gs ∧ rest = rest' := by
  have hfg := h'.longest fs (h.eq ▸ List.prefix_append ..)
  have hgf := h.longest gs (h'.eq ▸ List.prefix_append ..)
  have hl := Nat.le_antisymm hfg.length_le hgf.length_le
  have hs : fs = gs := hfg.eq_of_length hl
  subst hs
  exact ⟨rfl, List.append_cancel_left (h.eq.symm.trans h'.eq)⟩

end LongestRun

/-- Every string of bytes begins with a longest run of frames. -/
theorem exists_longestRun (bs : List UInt8) : ∃ fs rest, LongestRun bs fs rest := by
  by_cases h : ∃ f : Frame, f.bytes <+: bs
  · obtain ⟨f, more, hm⟩ := h
    obtain ⟨fs, rest, hr⟩ := exists_longestRun more
    exact ⟨f :: fs, rest, hm ▸ hr.cons⟩
  · exact ⟨[], bs, .nil (not_exists.mp h)⟩
termination_by bs.length
decreasing_by
  rw [← hm, List.length_append, f.length_bytes, headerLength]
  omega

/-- The first frame belongs to the run, and the others are that of what is
behind it. -/
theorem LongestRun.of_append {bs rest : List UInt8} {fs : List Frame} {f : Frame}
    (h : LongestRun (f.bytes ++ bs) fs rest) : ∃ gs, fs = f :: gs ∧ LongestRun bs gs rest := by
  obtain ⟨gs, rest', hg⟩ := exists_longestRun bs
  obtain ⟨rfl, rfl⟩ := h.unique hg.cons
  exact ⟨gs, rfl, hg⟩

/-- Frames before bytes that begin with none. -/
theorem LongestRun.of_not_begins {rest : List UInt8} (h : ∀ f : Frame, ¬ f.bytes <+: rest)
    (fs : List Frame) : LongestRun (Frame.run fs ++ rest) fs rest := by
  induction fs with
  | nil => exact nil h
  | cons f fs ih =>
    rw [Frame.run_cons, List.append_assoc]
    exact ih.cons

/-- More bytes take no frame away. -/
theorem LongestRun.prefix_of_append {bs more rest rest' : List UInt8} {fs gs : List Frame}
    (h : LongestRun bs fs rest) (h' : LongestRun (bs ++ more) gs rest') : fs <+: gs := by
  refine h'.longest fs ?_
  rw [h.eq, List.append_assoc]
  exact List.prefix_append ..

/-! ## the end of a run -/

/-- What is wrong with the bytes behind a longest run; nothing is if there are
none. -/
def fault? (rest : List UInt8) : Option StreamError :=
  if rest = [] then none
  else if rest.length < headerLength then some (.headerCut rest.length)
  else
    let length := announcedLength (rest.take headerLength)
    if frameLimit < length then some (.frameTooLong length)
    else some (.payloadCut (rest.length - headerLength) length)

/-- Nothing is at fault just if nothing is left. -/
theorem fault?_eq_none_iff (rest : List UInt8) : fault? rest = none ↔ rest = [] := by
  unfold fault?
  by_cases hn : rest = []
  · simp [hn]
  · by_cases hl : rest.length < headerLength
    · simp [hn, hl]
    · by_cases ha : frameLimit < announcedLength (rest.take headerLength) <;> simp [hn, hl, ha]

theorem fault?_of_short {rest : List UInt8} (hn : rest ≠ []) (hl : rest.length < headerLength) :
    fault? rest = some (.headerCut rest.length) := by
  rw [fault?, if_neg hn, if_pos hl]

/-- What is wrong behind a complete header. -/
theorem fault?_append {header : List UInt8} (hh : header.length = headerLength)
    (bs : List UInt8) :
    fault? (header ++ bs) =
      if frameLimit < announcedLength header then some (.frameTooLong (announcedLength header))
      else some (.payloadCut bs.length (announcedLength header)) := by
  have hn : header ++ bs ≠ [] := by
    intro h
    rw [List.append_eq_nil_iff] at h
    simp [h.1, headerLength] at hh
  have hl : ¬ (header ++ bs).length < headerLength := by
    rw [List.length_append, hh]
    omega
  have ht : (header ++ bs).take headerLength = header := by rw [← hh, List.take_left]
  have hb : (header ++ bs).length - headerLength = bs.length := by
    rw [List.length_append, hh, Nat.add_sub_cancel_left]
  rw [fault?, if_neg hn, if_neg hl, ht, hb]

/-- A header that announces too much is what is wrong whatever follows it. -/
theorem LongestRun.append_of_frameTooLong {bs rest : List UInt8} {fs : List Frame} {length : Nat}
    (h : LongestRun bs fs rest) (hf : fault? rest = some (.frameTooLong length))
    (more : List UInt8) :
    LongestRun (bs ++ more) fs (rest ++ more) ∧
      fault? (rest ++ more) = some (.frameTooLong length) := by
  obtain ⟨hshort, hlong, hlength⟩ : ¬ rest.length < headerLength ∧
      frameLimit < announcedLength (rest.take headerLength) ∧
      announcedLength (rest.take headerLength) = length := by
    unfold fault? at hf
    split at hf
    next => cases hf
    next =>
      split at hf
      next => cases hf
      next hl =>
        simp only at hf
        split at hf
        next ha => exact ⟨hl, ha, by simpa using hf⟩
        next => cases hf
  have hheader : (rest.take headerLength).length = headerLength := by
    rw [List.length_take]
    omega
  have hsplit : rest ++ more = rest.take headerLength ++ (rest.drop headerLength ++ more) := by
    rw [← List.append_assoc, List.take_append_drop]
  constructor
  · rw [h.eq, List.append_assoc]
    refine LongestRun.of_not_begins ?_ fs
    rw [hsplit]
    exact not_begins_of_append hheader (.inl hlong)
  · rw [hsplit, fault?_append hheader, if_pos hlong, hlength]

/-- The kind of the error: a complete header that announces too much is at
fault, or else the end of the stream. -/
theorem map_kind_fault? (rest : List UInt8) :
    (fault? rest).map StreamError.kind =
      if rest = [] then none
      else if headerLength ≤ rest.length ∧
          frameLimit < announcedLength (rest.take headerLength) then some "InvalidData"
      else some "UnexpectedEof" := by
  unfold fault?
  by_cases hn : rest = []
  · simp [hn]
  · by_cases hl : rest.length < headerLength
    · simp [hn, hl, Nat.not_le.mpr hl, StreamError.kind]
    · by_cases ha : frameLimit < announcedLength (rest.take headerLength)
      · simp [hn, hl, ha, Nat.le_of_not_lt hl, StreamError.kind]
      · simp [hn, hl, ha, StreamError.kind]

end LintPatrol
