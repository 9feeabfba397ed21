import LintPatrol.Proofs.Stream.Framing
import Mathlib.Data.Nat.Find

/-!
# LintPatrol.Proofs.Stream.Decoding

What a reader of frames makes of a connection, poll by poll.  At any moment
the bytes that it holds and those still to come stand for the bytes it has
yet to hand out: what is left of a complete payload, and the payloads of the
longest run of frames in what is undecoded (`FrameReader.Owes`).  A turn hands
out the first of them or leaves them as they are, so neither the cuts of the
transport nor the sizes of the polls can be seen in what is handed out.

## Main statements

* `FrameReader.turn_fits`: the counts never leave their buffers.
* `FrameReader.turn_owes`: what a turn answers, and what is still owed then.
* `FrameReader.frames_decoded`: what all polls make of a transport.
-/

namespace LintPatrol

namespace FrameReader

/-! ## what the buffers hold -/

/-- The buffers are as long as the phase needs them, and what has been counted
lies within them. -/
def Fits : FrameReader → Prop
  | ⟨header, _, .header filled⟩ => header.size = headerLength ∧ filled ≤ header.size
  | ⟨header, payload, .payload filled⟩ =>
    header.size = headerLength ∧ payload.size = announcedLength header.toList ∧
      payload.size ≤ frameLimit ∧ filled ≤ payload.size
  | ⟨header, payload, .handOut pos⟩ => header.size = headerLength ∧ pos ≤ payload.size
  | ⟨header, _, .done⟩ => header.size = headerLength

/-- The counts of a new reader lie within its buffers. -/
theorem start_fits : start.Fits := by
  simp [start, Fits]

/-- A turn reads no more than its buffer has room for. -/
theorem turn_fits (n : Nat) {r : FrameReader} (t : Transport) (h : r.Fits) :
    (turn n r t).2.1.Fits := by
  fun_cases turn n r t with
  | case1 => exact h
  | case2 header payload length hl =>
    simp only [Fits, Array.size_replicate] at h ⊢
    exact ⟨h.1, rfl, by omega, Nat.zero_le _⟩
  | case3 => exact h
  | case4 => exact h.1
  | case5 => exact h
  | case6 header payload filled hf count header' rest hc hx =>
    have hs := size_fill header filled t
    have ha := add_fill_le header filled t h.2
    rw [hx] at hs ha
    exact ⟨hs.trans h.1, hs ▸ ha⟩
  | case7 => exact ⟨h.1, Nat.zero_le _⟩
  | case8 => exact h
  | case9 => exact h
  | case10 header payload filled hf count payload' rest hc hx =>
    obtain ⟨hh, hp, hl, hb⟩ := h
    have hs := size_fill payload filled t
    have ha := add_fill_le payload filled t hb
    rw [hx] at hs ha
    exact ⟨hh, hs.trans hp, hs ▸ hl, hs ▸ ha⟩
  | case11 => exact ⟨h.1, Nat.zero_le _⟩
  | case12 header payload pos hp count =>
    exact ⟨h.1, by have := h.2; omega⟩
  | case13 => exact h

/-! ## what is owed -/

/-- The bytes that have come, or are still to come, and belong to no payload
that has been completed. -/
def undecoded (r : FrameReader) (t : Transport) : List UInt8 :=
  match r with
  | ⟨header, _, .header filled⟩ => header.toList.take filled ++ t.bytes
  | ⟨header, payload, .payload filled⟩ =>
    header.toList ++ (payload.toList.take filled ++ t.bytes)
  | ⟨_, _, .handOut _⟩ => t.bytes
  | ⟨_, _, .done⟩ => t.bytes

/-- The bytes of a complete payload that are still to be handed out. -/
def owed : FrameReader → List UInt8
  | ⟨_, payload, .handOut pos⟩ => payload.toList.drop pos
  | _ => []

/-- The bytes `out` are still to be handed out, and `rest` is left then. -/
structure Owes (r : FrameReader) (t : Transport) (out rest : List UInt8) : Prop where
  decoded : ∃ fs, LongestRun (r.undecoded t) fs rest ∧ out = r.owed ++ Frame.payloads fs
  ended : r.phase = .done → t.bytes = []

/-- What may be answered while `out` is still to be handed out before `rest`,
and what is still to be handed out afterwards. -/
inductive Answers (rest : List UInt8) : (out : List UInt8) → FramePoll → List UInt8 → Prop
  | pending (out : List UInt8) : Answers rest out .pending out
  | ready (bs out : List UInt8) (h : bs ≠ []) : Answers rest (bs ++ out) (.ready bs) out
  | ended (h : rest = []) : Answers rest [] (.ready []) []
  | failed (e : StreamError) (h : fault? rest = some e) : Answers rest [] (.failed e) []

/-- What is handed out and what is owed then make up what was owed. -/
theorem Answers.append {rest out out' : List UInt8} {a : FramePoll} (h : Answers rest out a out') :
    a.handed ++ out' = out := by
  cases h <;> rfl

/-- Bytes that come leave what is undecoded as it is. -/
theorem fill_undecoded {buffer buffer' : Array UInt8} {filled count : Nat} {t t' : Transport}
    (h : filled ≤ buffer.size) (hx : fill buffer filled t = (some count, buffer', t')) :
    buffer'.toList.take (filled + count) ++ t'.bytes = buffer.toList.take filled ++ t.bytes := by
  have := fill_append buffer filled t h
  rwa [hx] at this

section

variable {header payload : Array UInt8} {t : Transport} {out rest : List UInt8}

/-- What is owed behind a header that announces too much. -/
theorem Owes.frameTooLong (h : Owes ⟨header, payload, .header headerLength⟩ t out rest)
    (hh : header.size = headerLength) (hl : frameLimit < announcedLength header.toList) :
    out = [] ∧ fault? rest = some (.frameTooLong (announcedLength header.toList)) := by
  obtain ⟨⟨fs, hr, rfl⟩, -⟩ := h
  rw [undecoded, List.take_of_length_le (Nat.le_of_eq hh)] at hr
  obtain ⟨rfl, rfl⟩ := hr.unique (.nil (not_begins_of_append hh (.inl hl)))
  exact ⟨rfl, by rw [fault?_append hh, if_pos hl]⟩

/-- What is owed where the stream ends inside a header. -/
theorem Owes.headerCut {filled : Nat} (h : Owes ⟨header, payload, .header filled⟩ [] out rest)
    (hh : header.size = headerLength) (hz : filled ≠ 0) (hf : filled < headerLength) :
    out = [] ∧ fault? rest = some (.headerCut filled) := by
  obtain ⟨⟨fs, hr, rfl⟩, -⟩ := h
  have hl : (undecoded ⟨header, payload, .header filled⟩ []).length = filled := by
    simp [undecoded]
    omega
  have hs := hf
  rw [← hl] at hs
  obtain ⟨rfl, rfl⟩ := hr.unique (.nil (not_begins_of_short hs))
  have hn := List.ne_nil_of_length_pos (hl ▸ Nat.pos_of_ne_zero hz)
  exact ⟨rfl, by rw [fault?_of_short hn hs, hl]⟩

/-- What is owed where the stream ends inside a payload. -/
theorem Owes.payloadCut {filled : Nat} (h : Owes ⟨header, payload, .payload filled⟩ [] out rest)
    (fits : Fits ⟨header, payload, .payload filled⟩) (hf : filled < payload.size) :
    out = [] ∧ fault? rest = some (.payloadCut filled payload.size) := by
  obtain ⟨⟨fs, hr, rfl⟩, -⟩ := h
  obtain ⟨hh, hp, hl, -⟩ := fits
  have hb : (payload.toList.take filled ++ Transport.bytes []).length = filled := by
    simp
    omega
  have hlt : (payload.toList.take filled ++ Transport.bytes []).length <
      announcedLength header.toList := by
    rwa [hb, ← hp]
  obtain ⟨rfl, rfl⟩ := hr.unique (.nil (not_begins_of_append hh (.inr hlt)))
  exact ⟨rfl, by rw [undecoded, fault?_append hh, if_neg (by omega), hb, hp]⟩

/-- A payload that has come is the first one to be handed out. -/
theorem Owes.complete (h : Owes ⟨header, payload, .payload payload.size⟩ t out rest)
    (fits : Fits ⟨header, payload, .payload payload.size⟩) :
    Owes ⟨header, payload, .handOut 0⟩ t out rest := by
  obtain ⟨⟨fs, hr, rfl⟩, -⟩ := h
  obtain ⟨hh, hp, hl, -⟩ := fits
  let f : Frame := ⟨header.toList, payload.toList, hh, hp, hp ▸ hl⟩
  have hall : payload.toList.take payload.size = payload.toList :=
    List.take_of_length_le (Nat.le_refl _)
  have hu : undecoded ⟨header, payload, .payload payload.size⟩ t = f.bytes ++ t.bytes := by
    rw [undecoded, hall, ← List.append_assoc]
    rfl
  obtain ⟨gs, rfl, hg⟩ := (hu ▸ hr).of_append
  exact ⟨⟨gs, hg, rfl⟩, nofun⟩

/-- The bytes of a payload that are handed out are the first ones owed. -/
theorem Owes.handOut {pos : Nat} (h : Owes ⟨header, payload, .handOut pos⟩ t out rest)
    (count : Nat) :
    ∃ out', out = (payload.extract pos (pos + count)).toList ++ out' ∧
      Owes ⟨header, payload, .handOut (pos + count)⟩ t out' rest := by
  obtain ⟨⟨fs, hr, rfl⟩, -⟩ := h
  have he : (payload.extract pos (pos + count)).toList = (payload.toList.drop pos).take count := by
    simp
  refine ⟨_, ?_, ⟨⟨fs, hr, rfl⟩, nofun⟩⟩
  rw [owed, owed, he, ← List.append_assoc, ← List.drop_drop, List.take_append_drop]

end

/-! ## one turn -/

/-- **A turn that answers nothing owes the same as before, and any other one
answers what is owed.** -/
theorem turn_owes {n : Nat} {r : FrameReader} {t : Transport} {out rest : List UInt8} (hn : 0 < n)
    (fits : r.Fits) (h : r.Owes t out rest) :
    ∃ out', (turn n r t).2.1.Owes (turn n r t).2.2 out' rest ∧
      (turn n r t).1.elim (out' = out) (Answers rest out · out') := by
  fun_cases turn n r t with
  | case1 header payload length hl =>
    obtain ⟨rfl, he⟩ := h.frameTooLong fits.1 hl
    exact ⟨[], h, .failed _ he⟩
  | case2 header payload length hl =>
    obtain ⟨⟨fs, hr, rfl⟩, -⟩ := h
    rw [undecoded, List.take_of_length_le (Nat.le_of_eq fits.1)] at hr
    exact ⟨_, ⟨⟨fs, by simpa [undecoded] using hr, rfl⟩, nofun⟩, rfl⟩
  | case3 header payload filled hf header' rest' hx =>
    obtain ⟨⟨fs, hr, rfl⟩, -⟩ := h
    have hb := bytes_fill rfl hx
    exact ⟨_, ⟨⟨fs, by rwa [undecoded, hb], rfl⟩, nofun⟩, .pending _⟩
  | case4 header payload header' rest' hf hx =>
    obtain ⟨⟨fs, hr, rfl⟩, -⟩ := h
    obtain ⟨rfl, rfl⟩ := eq_nil_of_fill (by rw [fits.1]; decide) hx
    obtain ⟨rfl, rfl⟩ := hr.unique .empty
    exact ⟨[], ⟨⟨[], hr, rfl⟩, fun _ => rfl⟩, .ended rfl⟩
  | case5 header payload filled hf header' rest' hx hz =>
    have hlt : filled < headerLength := Nat.lt_of_le_of_ne (fits.1 ▸ fits.2) hf
    obtain ⟨rfl, rfl⟩ := eq_nil_of_fill (by rw [fits.1]; exact hlt) hx
    obtain ⟨rfl, he⟩ := h.headerCut fits.1 hz hlt
    exact ⟨[], h, .failed _ he⟩
  | case6 header payload filled hf count header' rest' hc hx =>
    obtain ⟨⟨fs, hr, rfl⟩, -⟩ := h
    rw [undecoded, ← fill_undecoded fits.2 hx] at hr
    exact ⟨_, ⟨⟨fs, hr, rfl⟩, nofun⟩, rfl⟩
  | case7 header payload => exact ⟨_, h.complete fits, rfl⟩
  | case8 header payload filled hf payload' rest' hx =>
    obtain ⟨⟨fs, hr, rfl⟩, -⟩ := h
    have hb := bytes_fill rfl hx
    exact ⟨_, ⟨⟨fs, by rwa [undecoded, hb], rfl⟩, nofun⟩, .pending _⟩
  | case9 header payload filled hf payload' rest' hx =>
    have hlt : filled < payload.size := Nat.lt_of_le_of_ne fits.2.2.2 hf
    obtain ⟨rfl, rfl⟩ := eq_nil_of_fill hlt hx
    obtain ⟨rfl, he⟩ := h.payloadCut fits hlt
    exact ⟨[], h, .failed _ he⟩
  | case10 header payload filled hf count payload' rest' hc hx =>
    obtain ⟨⟨fs, hr, rfl⟩, -⟩ := h
    rw [undecoded, ← fill_undecoded fits.2.2.2 hx] at hr
    exact ⟨_, ⟨⟨fs, hr, rfl⟩, nofun⟩, rfl⟩
  | case11 header payload =>
    obtain ⟨⟨fs, hr, rfl⟩, -⟩ := h
    exact ⟨_, ⟨⟨fs, by simpa [undecoded] using hr, by simp [owed]⟩, nofun⟩, rfl⟩
  | case12 header payload pos hp count =>
    have hlt : pos < payload.size := Nat.lt_of_le_of_ne fits.2 hp
    obtain ⟨out', rfl, ho⟩ := h.handOut count
    refine ⟨out', ho, .ready _ _ (List.ne_nil_of_length_pos ?_)⟩
    simp
    omega
  | case13 header payload =>
    have hu : undecoded ⟨header, payload, .done⟩ t = [] := h.ended rfl
    obtain ⟨⟨fs, hr, rfl⟩, ended⟩ := h
    rw [hu] at hr
    obtain ⟨rfl, rfl⟩ := hr.unique .empty
    exact ⟨[], ⟨⟨[], hu ▸ hr, rfl⟩, ended⟩, .ended rfl⟩

/-- Once the end or an error has been answered, it is answered to whatever is
asked. -/
theorem turn_stays {n : Nat} {r : FrameReader} {t : Transport} {a : FramePoll} (hn : 0 < n)
    (fits : r.Fits) (ha : a.isLast = true) (h : (turn n r t).1 = some a) (m : Nat) :
    turn m (turn n r t).2.1 (turn n r t).2.2 = turn n r t := by
  revert h
  fun_cases turn n r t with
  | case1 header payload length hl => exact fun _ => by simp [turn, length, hl]
  | case4 header payload header' rest' hf hx => exact fun _ => rfl
  | case5 header payload filled hf header' rest' hx hz =>
    have hlt : filled < headerLength := Nat.lt_of_le_of_ne (fits.1 ▸ fits.2) hf
    obtain ⟨rfl, rfl⟩ := eq_nil_of_fill (by rw [fits.1]; exact hlt) hx
    exact fun _ => by simp [turn, hx, hf, hz]
  | case9 header payload filled hf payload' rest' hx =>
    have hlt : filled < payload.size := Nat.lt_of_le_of_ne fits.2.2.2 hf
    obtain ⟨rfl, rfl⟩ := eq_nil_of_fill hlt hx
    exact fun _ => by simp [turn, hx, hf]
  | case12 header payload pos hp count =>
    have hlt : pos < payload.size := Nat.lt_of_le_of_ne fits.2 hp
    rintro ⟨⟩
    simp [FramePoll.isLast, count] at ha
    omega
  | case13 header payload => exact fun _ => rfl
  | case3 => rintro ⟨⟩; cases ha
  | case8 => rintro ⟨⟩; cases ha
  | _ => intro h; cases h

/-! ## one poll -/

/-- They do so after every poll. -/
theorem poll_fits (n : Nat) {r : FrameReader} (t : Transport) (h : r.Fits) :
    (poll n r t).2.1.Fits := by
  fun_induction poll n r t with
  | case1 r t a r' t' ht =>
    have := turn_fits n t h
    rwa [ht] at this
  | case2 r t r' t' ht ih =>
    have := turn_fits n t h
    rw [ht] at this
    exact ih this

/-- What is answered to a poll is paid out of what the reader owes. -/
theorem poll_owes {n : Nat} {r : FrameReader} {t : Transport} {out rest : List UInt8} (hn : 0 < n)
    (fits : r.Fits) (h : r.Owes t out rest) :
    ∃ out', (poll n r t).2.1.Owes (poll n r t).2.2 out' rest ∧
      Answers rest out (poll n r t).1 out' := by
  fun_induction poll n r t with
  | case1 r t a r' t' ht =>
    have := turn_owes hn fits h
    rwa [ht] at this
  | case2 r t r' t' ht ih =>
    have hf := turn_fits n t fits
    have ho := turn_owes hn fits h
    rw [ht] at hf ho
    obtain ⟨out', ho, rfl⟩ := ho
    exact ih hf ho

/-- The last answer stays. -/
theorem poll_stays {n : Nat} {r : FrameReader} {t : Transport} (hn : 0 < n)
    (fits : r.Fits) (h : (poll n r t).1.isLast = true) (m : Nat) :
    poll m (poll n r t).2.1 (poll n r t).2.2 = poll n r t := by
  fun_induction poll n r t with
  | case1 r t a r' t' ht =>
    have hs := turn_stays hn fits h (by rw [ht]) m
    rw [ht] at hs
    exact poll_of_turn hs
  | case2 r t r' t' ht ih =>
    have hf := turn_fits n t fits
    rw [ht] at hf
    exact ih hf h

/-! ## all polls -/

/-- The states that turns lead to, whatever they ask for. -/
inductive Reached (t : Transport) : FrameReader → Transport → Prop
  | start : Reached t .start t
  | turn (n : Nat) {r : FrameReader} {t' : Transport} (h : Reached t r t') :
    Reached t (turn n r t').2.1 (turn n r t').2.2

/-- **In every state that turns lead to, the counts lie within their
buffers.** -/
theorem Reached.fits {t t' : Transport} {r : FrameReader} (h : Reached t r t') : r.Fits := by
  induction h with
  | start => exact start_fits
  | turn n h ih => exact turn_fits n _ ih

theorem Reached.poll {t t' : Transport} {r : FrameReader} (n : Nat) (h : Reached t r t') :
    Reached t (poll n r t').2.1 (poll n r t').2.2 := by
  fun_induction FrameReader.poll n r t' with
  | case1 r t' a r'' t'' ht =>
    have := h.turn n
    rwa [ht] at this
  | case2 r t' r'' t'' ht ih =>
    have := h.turn n
    rw [ht] at this
    exact ih this

variable (size : Nat → Nat) (t : Transport)

/-- The reader and its transport after so many polls, of which the one with
number `k` asks for at most `size k` bytes. -/
def after : Nat → FrameReader × Transport
  | 0 => (start, t)
  | k + 1 => (poll (size k) (after k).1 (after k).2).2

/-- The answer to the poll with number `k`. -/
def answer (k : Nat) : FramePoll := (poll (size k) (after size t k).1 (after size t k).2).1

/-- The bytes handed out by so many polls. -/
def handedOut (k : Nat) : List UInt8 := (List.range k).flatMap fun i => (answer size t i).handed

@[simp] theorem handedOut_zero : handedOut size t 0 = [] := rfl

theorem handedOut_succ (k : Nat) :
    handedOut size t (k + 1) = handedOut size t k ++ (answer size t k).handed := by
  simp [handedOut, List.range_succ]

/-- Whatever state a reader gets to by being polled is reached. -/
theorem after_reached (k : Nat) : Reached t (after size t k).1 (after size t k).2 := by
  induction k with
  | zero => exact .start
  | succ k ih => exact ih.poll (size k)

/-- Each poll that is not the last one hands out a byte, or lets a moment pass
at which nothing has come. -/
theorem polls_le (k : Nat) (h : ∀ i < k, (answer size t i).isLast = false) :
    (after size t k).2.length + k ≤ (handedOut size t k).length + t.length := by
  induction k with
  | zero => simp [after]
  | succ k ih =>
    have hi := ih fun i hlt => h i (Nat.lt_succ_of_lt hlt)
    have hk := h k (Nat.lt_succ_self k)
    have hle := length_poll (size k) (after size t k).1 (after size t k).2
    have hlt := length_poll_lt (size k) (after size t k).1 (after size t k).2
    rw [handedOut_succ, List.length_append]
    unfold answer at hk ⊢
    cases ha : (poll (size k) (after size t k).1 (after size t k).2).1 with
    | pending =>
      have := hlt ha
      simp only [after, FramePoll.handed, List.length_nil]
      omega
    | ready bs =>
      rw [ha] at hk
      have := List.length_pos_iff.mpr (by simpa [FramePoll.isLast] using hk)
      simp only [after, FramePoll.handed]
      omega
    | failed e =>
      rw [ha] at hk
      cases hk

/-- After the last poll the same is answered whatever is asked. -/
theorem answer_of_isLast {size : Nat → Nat} (hsize : ∀ k, 0 < size k) {t : Transport} {k : Nat}
    (h : (answer size t k).isLast = true) (d : Nat) :
    answer size t (k + d) = answer size t k ∧ after size t (k + d + 1) = after size t (k + 1) := by
  have hf := (after_reached size t k).fits
  induction d with
  | zero => exact ⟨rfl, rfl⟩
  | succ d ih =>
    have hs := poll_stays (hsize k) hf h (size (k + d + 1))
    have ha : poll (size (k + d + 1)) (after size t (k + d + 1)).1 (after size t (k + d + 1)).2 =
        poll (size k) (after size t k).1 (after size t k).2 := by
      rw [ih.2]
      exact hs
    exact ⟨congrArg Prod.fst ha, congrArg Prod.snd ha⟩

section

variable {size} (hsize : ∀ k, 0 < size k) {t} {fs : List Frame} {rest : List UInt8}
  (hr : LongestRun t.bytes fs rest)

include hsize hr

/-- What has been handed out and what is owed make up the payloads. -/
theorem after_owes (k : Nat) :
    ∃ out, (after size t k).1.Owes (after size t k).2 out rest ∧
      Frame.payloads fs = handedOut size t k ++ out := by
  induction k with
  | zero => exact ⟨_, ⟨⟨fs, hr, rfl⟩, nofun⟩, rfl⟩
  | succ k ih =>
    obtain ⟨out, ho, hp⟩ := ih
    obtain ⟨out', ho', ha⟩ := poll_owes (hsize k) (after_reached size t k).fits ho
    refine ⟨out', ho', ?_⟩
    rw [hp, handedOut_succ, List.append_assoc, ← ha.append]
    rfl

/-- No byte is handed out that is not the payload's of a complete frame. -/
theorem handedOut_begins (k : Nat) : handedOut size t k <+: Frame.payloads fs := by
  obtain ⟨out, -, hp⟩ := after_owes hsize hr k
  exact ⟨out, hp.symm⟩

/-- The end or an error comes. -/
theorem exists_isLast : ∃ k, (answer size t k).isLast = true := by
  by_cases h : ∃ k, (answer size t k).isLast = true
  · exact h
  · simp only [not_exists, Bool.not_eq_true] at h
    let k := (Frame.payloads fs).length + t.length + 1
    have hk := polls_le size t k fun i _ => h i
    have hp := (handedOut_begins hsize hr k).length_le
    omega

/-- It comes when all payloads have been handed out, and says what is wrong
with the bytes behind them. -/
theorem answer_last {k : Nat} (h : (answer size t k).isLast = true) :
    handedOut size t k = Frame.payloads fs ∧
      answer size t k = (fault? rest).elim (.ready []) .failed := by
  obtain ⟨out, ho, hp⟩ := after_owes hsize hr k
  obtain ⟨out', ho', ha⟩ := poll_owes (hsize k) (after_reached size t k).fits ho
  change Answers rest out (answer size t k) out' at ha
  generalize answer size t k = a at ha h ⊢
  cases ha with
  | pending => cases h
  | ready bs _ hb => exact absurd (by simpa [FramePoll.isLast] using h) hb
  | ended hn => exact ⟨by simpa using hp.symm, by rw [hn]; rfl⟩
  | failed e he => exact ⟨by simpa using hp.symm, by rw [he]; rfl⟩

end

/-- Polls of a transport hand out `out` and nothing else, and answer `last` from then
on. -/
structure Yields (size : Nat → Nat) (t : Transport) (out : List UInt8) (last : FramePoll) :
    Prop where
  isLast : last.isLast = true
  begins : ∀ k, handedOut size t k <+: out
  ended : ∃ k, (∀ i < k, (answer size t i).isLast = false) ∧ handedOut size t k = out ∧
    ∀ j ≥ k, answer size t j = last

/-- What polls yield can be seen from the bytes alone. -/
theorem yields_of_longestRun {size : Nat → Nat} (hsize : ∀ k, 0 < size k) {t : Transport}
    {fs : List Frame} {rest : List UInt8} (hr : LongestRun t.bytes fs rest) :
    Yields size t (Frame.payloads fs) ((fault? rest).elim (.ready []) .failed) := by
  have hex := exists_isLast hsize hr
  have hlast := Nat.find_spec hex
  obtain ⟨hp, ha⟩ := answer_last hsize hr hlast
  refine ⟨ha ▸ hlast, handedOut_begins hsize hr, Nat.find hex, fun i hi => ?_, hp, fun j hj => ?_⟩
  · simpa using Nat.find_min hex hi
  · obtain ⟨d, rfl⟩ := Nat.exists_eq_add_of_le hj
    rw [(answer_of_isLast hsize hlast d).1, ha]

/-- What a sequence of polls makes of a transport: `fs` are the frames it
begins with, `rest` is behind them, and the poll with number `k` is the first
one that answers with the end or an error. -/
structure Decoded (size : Nat → Nat) (t : Transport) (fs : List Frame) (rest : List UInt8)
    (k : Nat) : Prop where
  /-- No longer run of complete frames begins the bytes. -/
  run : LongestRun t.bytes fs rest
  /-- Before, a poll has to wait or hands out a byte. -/
  before : ∀ i < k, (answer size t i).isLast = false
  /-- By then the payloads have been handed out. -/
  handed : handedOut size t k = Frame.payloads fs
  /-- Nothing else is handed out, before or after. -/
  complete : ∀ j, handedOut size t j <+: Frame.payloads fs
  /-- The end is answered just if there are only the frames. -/
  ended : answer size t k = .ready [] ↔ t.bytes = Frame.run fs
  /-- The length of a frame is at fault just if the next header is complete
  and announces too much. -/
  invalid : (∃ e, answer size t k = .failed e ∧ e.kind = "InvalidData") ↔
    headerLength ≤ rest.length ∧ frameLimit < announcedLength (rest.take headerLength)
  /-- Otherwise the stream has ended too early. -/
  cut : (∃ e, answer size t k = .failed e ∧ e.kind = "UnexpectedEof") ↔
    t.bytes ≠ Frame.run fs ∧
      ¬ (headerLength ≤ rest.length ∧ frameLimit < announcedLength (rest.take headerLength))
  /-- The same is answered ever after. -/
  stays : ∀ j ≥ k, answer size t j = answer size t k
  /-- All the time the counts lie within their buffers. -/
  fits : ∀ r t', Reached t r t' → r.Fits

/-- **The payloads of the longest run of frames are handed out, and then what
is wrong with the rest is answered**, however the bytes are cut, whenever
nothing has come, and however many bytes each poll asks for. -/
theorem frames_decoded (size : Nat → Nat) (hsize : ∀ k, 0 < size k) (t : Transport) :
    ∃ fs rest k, Decoded size t fs rest k := by
  obtain ⟨fs, rest, hr⟩ := exists_longestRun t.bytes
  have hex := exists_isLast hsize hr
  have hlast := Nat.find_spec hex
  obtain ⟨hp, ha⟩ := answer_last hsize hr hlast
  have hrest : t.bytes = Frame.run fs ↔ rest = [] := by
    rw [hr.eq]
    simp
  have hkind : ∀ s, (∃ e, answer size t (Nat.find hex) = .failed e ∧ e.kind = s) ↔
      (fault? rest).map StreamError.kind = some s := by
    intro s
    rw [ha]
    cases fault? rest <;> simp
  refine ⟨fs, rest, Nat.find hex, hr, ?_, hp, handedOut_begins hsize hr, ?_, ?_, ?_, ?_, ?_⟩
  · intro i hi
    simpa using Nat.find_min hex hi
  · rw [ha, hrest]
    have := fault?_eq_none_iff rest
    cases hf : fault? rest <;> simp_all
  · rw [hkind, map_kind_fault?]
    by_cases hn : rest = []
    · simp [hn, headerLength]
    · simp [hn]
  · rw [hkind, map_kind_fault?, Ne, hrest]
    by_cases hn : rest = []
    · simp [hn]
    · simp only [hn, if_false, not_false_eq_true, true_and]
      split <;> simp_all
  · intro j hj
    obtain ⟨d, rfl⟩ := Nat.exists_eq_add_of_le hj
    exact (answer_of_isLast hsize hlast d).1
  · exact fun r t' h => h.fits

/-- Two frames, the second one empty, that come in pieces and with a pause. -/
theorem frames_decoded_pieces :
    (∀ k : Nat, 0 < (fun _ => 1 : Nat → Nat) k) ∧
      ∃ k, answer (fun _ => 1) [[1, 0, 0], [], [0, 0, 0, 0, 2, 104], [105, 2, 0, 0, 0, 0, 0, 0, 0]]
          k = .ready [] ∧
        handedOut (fun _ => 1)
          [[1, 0, 0], [], [0, 0, 0, 0, 2, 104], [105, 2, 0, 0, 0, 0, 0, 0, 0]] k = [104, 105] := by
  have hsize : ∀ k : Nat, 0 < (fun _ => 1 : Nat → Nat) k := fun _ => Nat.one_pos
  refine ⟨hsize, ?_⟩
  obtain ⟨fs, rest, k, h⟩ := frames_decoded (fun _ => 1) hsize
    [[1, 0, 0], [], [0, 0, 0, 0, 2, 104], [105, 2, 0, 0, 0, 0, 0, 0, 0]]
  let first : Frame := ⟨[1, 0, 0, 0, 0, 0, 0, 2], [104, 105], rfl, rfl, by decide⟩
  let second : Frame := ⟨[2, 0, 0, 0, 0, 0, 0, 0], [], rfl, rfl, by decide⟩
  have hr : LongestRun (first.bytes ++ (second.bytes ++ [])) [first, second] [] :=
    LongestRun.empty.cons.cons
  obtain ⟨rfl, rfl⟩ := h.run.unique hr
  exact ⟨k, h.ended.mpr rfl, h.handed⟩

end FrameReader

end LintPatrol
