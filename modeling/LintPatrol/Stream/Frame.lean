import LintPatrol.Stream.Transport

/-!
# LintPatrol.Stream.Frame

The output of a container comes in frames: a header of eight bytes, the last
four of them the length of the payload with the most significant byte first,
and the payload.  A `FrameReader` hands out the payloads as one stream, and a
payload only when it is complete.  The stream must end where a frame ends.

The reader keeps two buffers, one for a header and one for a payload, and
fills each from its beginning.  A poll that finds nothing keeps what has come
so far, and a failed one leaves the reader where it was, so that the next one
fails again.
-/

namespace LintPatrol

/-- Why output cannot be read. -/
inductive StreamError where
  | frameTooLong (length : Nat)
  | headerCut (got : Nat)
  | payloadCut (got length : Nat)
  | outputTooLong (limit : Nat)
deriving Repr, DecidableEq

def headerLength : Nat := 8

/-- The longest payload a header may announce. -/
def frameLimit : Nat := 16777216

namespace StreamError

/-- What is reported of the error. -/
def message : StreamError → String
  | frameTooLong length =>
    "frame of " ++ toString length ++ " bytes exceeds " ++ toString frameLimit ++ " bytes"
  | headerCut got =>
    "stream ended inside a frame header (" ++ toString got ++ " of " ++ toString headerLength ++
      " bytes)"
  | payloadCut got length =>
    "stream ended inside a frame payload (" ++ toString got ++ " of " ++ toString length ++
      " bytes)"
  | outputTooLong limit => "output exceeds " ++ toString limit ++ " bytes"

/-- The kind of the error. -/
def kind : StreamError → String
  | frameTooLong _ => "InvalidData"
  | outputTooLong _ => "InvalidData"
  | headerCut _ => "UnexpectedEof"
  | payloadCut .. => "UnexpectedEof"

/-- Is it the output itself that is at fault, rather than its transport? -/
def isOutputFault : StreamError → Bool
  | frameTooLong _ => true
  | outputTooLong _ => true
  | headerCut _ => false
  | payloadCut .. => false

end StreamError

/-- A number from its bytes, the most significant one first. -/
def bigEndian (bs : List UInt8) : Nat := bs.foldl (fun n b => n * 256 + b.toNat) 0

def announcedLength (header : List UInt8) : Nat := bigEndian (header.drop 4)

/-! ## Buffers -/

/-- Writes bytes over those of a buffer from a place on; what does not fit is
dropped. -/
def overwrite (buffer : Array UInt8) (place : Nat) : List UInt8 → Array UInt8
  | [] => buffer
  | b :: bs => overwrite (buffer.setIfInBounds place b) (place + 1) bs

@[simp] theorem size_overwrite (buffer : Array UInt8) (place : Nat) (bs : List UInt8) :
    (overwrite buffer place bs).size = buffer.size := by
  fun_induction overwrite buffer place bs with
  | case1 => rfl
  | case2 buffer place b bs ih => simpa using ih

/-- The bytes before the place stay, and those written follow them. -/
theorem take_overwrite (buffer : Array UInt8) (place : Nat) (bs : List UInt8)
    (h : place + bs.length ≤ buffer.size) :
    (overwrite buffer place bs).toList.take (place + bs.length) =
      buffer.toList.take place ++ bs := by
  fun_induction overwrite buffer place bs with
  | case1 => simp
  | case2 buffer place b bs ih =>
    have hp : place < buffer.toList.length := by simp at h ⊢; omega
    have hi : (buffer.setIfInBounds place b).toList.take (place + 1) =
        buffer.toList.take place ++ [b] := by
      rw [Array.toList_setIfInBounds, List.take_succ_eq_append_getElem (by simpa using hp),
        List.getElem_set_self, List.take_set_of_le (Nat.le_refl _)]
    rw [List.length_cons, show place + (bs.length + 1) = place + 1 + bs.length by omega,
      ih (by simp at h ⊢; omega), hi]
    simp

/-- Polls for bytes to fill a buffer, `filled` of which has come already, and
counts those that come. -/
def fill (buffer : Array UInt8) (filled : Nat) (t : Transport) :
    Option Nat × Array UInt8 × Transport :=
  match t.poll (buffer.size - filled) with
  | (none, rest) => (none, buffer, rest)
  | (some bs, rest) => (some bs.length, overwrite buffer filled bs, rest)

theorem size_fill (buffer : Array UInt8) (filled : Nat) (t : Transport) :
    (fill buffer filled t).2.1.size = buffer.size := by
  unfold fill
  split
  next => rfl
  next => simp

/-- No more comes than the buffer has room for. -/
theorem add_fill_le (buffer : Array UInt8) (filled : Nat) (t : Transport)
    (h : filled ≤ buffer.size) : filled + (fill buffer filled t).1.getD 0 ≤ buffer.size := by
  have hl := t.length_poll_le (buffer.size - filled)
  unfold fill
  split
  next rest hp => simpa using h
  next bs rest hp =>
    rw [hp] at hl
    simp only [Option.getD_some] at hl ⊢
    omega

/-- A buffer with room gets nothing only at the end. -/
theorem eq_nil_of_fill {buffer buffer' : Array UInt8} {filled : Nat} {t t' : Transport}
    (hf : filled < buffer.size) (h : fill buffer filled t = (some 0, buffer', t')) :
    t = [] ∧ t' = [] := by
  unfold fill at h
  split at h
  next => cases h
  next bs rest hp =>
    simp only [Prod.mk.injEq, Option.some.injEq, List.length_eq_zero_iff] at h
    obtain ⟨rfl, -, rfl⟩ := h
    exact Transport.eq_nil_of_poll (by omega) hp

theorem length_fill_le (buffer : Array UInt8) (filled : Nat) (t : Transport) :
    (fill buffer filled t).2.2.length ≤ t.length := by
  have := t.length_poll (buffer.size - filled)
  unfold fill
  split
  next rest hp => rwa [hp] at this
  next bs rest hp => rwa [hp] at this

/-- A moment at which nothing has come passes. -/
theorem length_fill_lt {buffer buffer' : Array UInt8} {filled : Nat} {t t' : Transport}
    (h : fill buffer filled t = (none, buffer', t')) : t'.length < t.length := by
  unfold fill at h
  split at h
  next rest hp =>
    cases h
    exact Transport.length_poll_lt _ t t' hp
  next => cases h

/-- What has come and what is still to come make up what there was. -/
theorem fill_append (buffer : Array UInt8) (filled : Nat) (t : Transport)
    (h : filled ≤ buffer.size) :
    (fill buffer filled t).2.1.toList.take (filled + (fill buffer filled t).1.getD 0) ++
      (fill buffer filled t).2.2.bytes = buffer.toList.take filled ++ t.bytes := by
  have ha := t.poll_append (buffer.size - filled)
  have hl := t.length_poll_le (buffer.size - filled)
  unfold fill
  split
  next rest hp => simpa [hp] using ha
  next bs rest hp =>
    rw [hp] at ha hl
    simp only [Option.getD_some] at ha hl ⊢
    rw [take_overwrite buffer filled bs (by omega), List.append_assoc, ha]

/-- Where nothing comes, nothing is taken. -/
theorem bytes_fill {buffer buffer' : Array UInt8} {filled : Nat} {t t' : Transport}
    {count : Option Nat} (hc : count.getD 0 = 0) (h : fill buffer filled t = (count, buffer', t')) :
    t'.bytes = t.bytes := by
  have ha := t.poll_append (buffer.size - filled)
  unfold fill at h
  split at h
  next rest hp =>
    cases h
    simpa [hp] using ha
  next bs rest hp =>
    cases h
    have hb : bs = [] := List.length_eq_zero_iff.mp hc
    simpa [hp, hb] using ha

/-- A fill loses no byte. -/
theorem length_fill (buffer : Array UInt8) (filled : Nat) (t : Transport) :
    (fill buffer filled t).1.getD 0 + (fill buffer filled t).2.2.bytes.length = t.bytes.length := by
  have ha := t.length_bytes_poll (buffer.size - filled)
  unfold fill
  split
  next rest hp => simpa [hp] using ha
  next bs rest hp => simpa [hp] using ha

/-! ## Readers -/

/-- Where a reader of frames stands: how many bytes of a header or of a payload have
come, or how many of a complete payload have been handed out. -/
inductive FramePhase where
  | header (filled : Nat)
  | payload (filled : Nat)
  /-- In a complete payload, of which so many bytes have been handed out. -/
  | handOut (pos : Nat)
  | done
deriving Repr, DecidableEq, Inhabited

/-- A reader of frames. -/
structure FrameReader where
  header : Array UInt8
  payload : Array UInt8
  phase : FramePhase
deriving Repr, DecidableEq, Inhabited

/-- The answer to a poll: nothing can be handed out yet, bytes are handed out, or
reading fails. -/
inductive FramePoll where
  | pending
  /-- These bytes are handed out; there are none at the end. -/
  | ready (bs : List UInt8)
  | failed (e : StreamError)
deriving Repr, DecidableEq

/-- The bytes that a poll hands out. -/
def FramePoll.handed : FramePoll → List UInt8
  | pending => []
  | ready bs => bs
  | failed _ => []

/-- Is it the end, or an error? -/
def FramePoll.isLast : FramePoll → Bool
  | pending => false
  | ready bs => bs.isEmpty
  | failed _ => true

namespace FrameReader

def start : FrameReader := ⟨Array.replicate headerLength 0, #[], .header 0⟩

/-- The bytes that the reader holds. -/
def held : FrameReader → Nat
  | ⟨_, _, .header filled⟩ => filled
  | ⟨_, _, .payload filled⟩ => filled
  | ⟨_, payload, .handOut pos⟩ => payload.size - pos
  | ⟨_, _, .done⟩ => 0

/-! ## One poll -/

/-- One turn of a poll that asks for at most `n` bytes; there is no answer if
the poll is to take another turn. -/
def turn (n : Nat) (r : FrameReader) (t : Transport) :
    Option FramePoll × FrameReader × Transport :=
  match r with
  | ⟨header, payload, .header filled⟩ =>
    if filled = headerLength then
      let length := announcedLength header.toList
      if frameLimit < length then (some (.failed (.frameTooLong length)), r, t)
      else (none, ⟨header, Array.replicate length 0, .payload 0⟩, t)
    else
      match fill header filled t with
      | (none, _, rest) => (some .pending, r, rest)
      | (some 0, _, rest) =>
        if filled = 0 then (some (.ready []), ⟨header, payload, .done⟩, rest)
        else (some (.failed (.headerCut filled)), r, rest)
      | (some count, header, rest) => (none, ⟨header, payload, .header (filled + count)⟩, rest)
  | ⟨header, payload, .payload filled⟩ =>
    if filled = payload.size then (none, ⟨header, payload, .handOut 0⟩, t)
    else
      match fill payload filled t with
      | (none, _, rest) => (some .pending, r, rest)
      | (some 0, _, rest) => (some (.failed (.payloadCut filled payload.size)), r, rest)
      | (some count, payload, rest) => (none, ⟨header, payload, .payload (filled + count)⟩, rest)
  | ⟨header, payload, .handOut pos⟩ =>
    if pos = payload.size then (none, ⟨header, payload, .header 0⟩, t)
    else
      let count := min n (payload.size - pos)
      (some (.ready (payload.extract pos (pos + count)).toList),
        ⟨header, payload, .handOut (pos + count)⟩, t)
  | ⟨_, _, .done⟩ => (some (.ready []), r, t)

/-- How many turns may follow without a byte coming. -/
def turns : FrameReader → Nat
  | ⟨_, _, .header filled⟩ => if filled = headerLength then 3 else 0
  | ⟨_, _, .payload _⟩ => 2
  | ⟨_, _, .handOut _⟩ => 1
  | ⟨_, _, .done⟩ => 0

/-- Before another turn a byte comes, or the reader passes to its next
phase. -/
theorem turn_again (n : Nat) (r : FrameReader) (t : Transport) :
    (turn n r t).1 = none →
      (turn n r t).2.2.bytes.length < t.bytes.length ∨
        (turn n r t).2.2 = t ∧ (turn n r t).2.1.turns < r.turns := by
  fun_cases turn n r t with
  | case2 => exact fun _ => .inr ⟨rfl, by simp [turns]⟩
  | case6 header payload filled hf count header' rest hc hx =>
    have e := length_fill header filled t
    have := Nat.pos_of_ne_zero hc
    rw [hx] at e
    exact fun _ => .inl (by simp at e ⊢; omega)
  | case7 => exact fun _ => .inr ⟨rfl, by simp [turns]⟩
  | case10 header payload filled hf count payload' rest hc hx =>
    have e := length_fill payload filled t
    have := Nat.pos_of_ne_zero hc
    rw [hx] at e
    exact fun _ => .inl (by simp at e ⊢; omega)
  | case11 => exact fun _ => .inr ⟨rfl, by simp [turns, headerLength]⟩
  | _ => intro h; cases h

/-- Hands out at most `n` bytes of one payload, or nothing if it would have
to wait; no byte is handed out only at the end, or if `n` is zero. -/
def poll (n : Nat) (r : FrameReader) (t : Transport) : FramePoll × FrameReader × Transport :=
  match _h : turn n r t with
  | (some a, r', t') => (a, r', t')
  | (none, r', t') => poll n r' t'
termination_by (t.bytes.length, r.turns)
decreasing_by
  have := turn_again n r t (by rw [_h])
  rw [_h] at this
  rcases this with h | ⟨rfl, h⟩
  · exact .left _ _ h
  · exact .right _ h

/-- A poll is over with the first turn that answers. -/
theorem poll_of_turn {n : Nat} {r r' : FrameReader} {t t' : Transport} {a : FramePoll}
    (h : turn n r t = (some a, r', t')) : poll n r t = (a, r', t') := by
  rw [poll]
  split <;> simp_all

/-- No byte appears that was neither held nor still to come. -/
theorem length_turn_le (n : Nat) (r : FrameReader) (t : Transport) :
    ((turn n r t).1.elim [] FramePoll.handed).length + (turn n r t).2.1.held +
      (turn n r t).2.2.bytes.length ≤ r.held + t.bytes.length := by
  fun_cases turn n r t with
  | case1 => simp [FramePoll.handed]
  | case2 => simp [held]
  | case3 header payload filled hf header' rest hx =>
    have e := length_fill header filled t
    simp_all [FramePoll.handed]
  | case4 header payload header' rest hf hx =>
    have e := length_fill header 0 t
    simp_all [FramePoll.handed, held]
  | case5 header payload filled hf header' rest hx hz =>
    have e := length_fill header filled t
    simp_all [FramePoll.handed]
  | case6 header payload filled hf count header' rest hc hx =>
    have e := length_fill header filled t
    simp [hx] at e
    simp [held]
    omega
  | case7 => simp [held]
  | case8 header payload filled hf payload' rest hx =>
    have e := length_fill payload filled t
    simp_all [FramePoll.handed]
  | case9 header payload filled hf payload' rest hx =>
    have e := length_fill payload filled t
    simp_all [FramePoll.handed]
  | case10 header payload filled hf count payload' rest hc hx =>
    have e := length_fill payload filled t
    simp [hx] at e
    simp [held]
    omega
  | case11 => simp [held]
  | case12 header payload pos hp count =>
    simp [held, FramePoll.handed]
    omega
  | case13 => simp [FramePoll.handed]

/-- A poll makes up no bytes. -/
theorem length_poll_le (n : Nat) (r : FrameReader) (t : Transport) :
    (poll n r t).1.handed.length + (poll n r t).2.1.held + (poll n r t).2.2.bytes.length ≤
      r.held + t.bytes.length := by
  fun_induction poll n r t with
  | case1 r t a r' t' h => simpa [h] using length_turn_le n r t
  | case2 r t r' t' h ih =>
    have := length_turn_le n r t
    rw [h] at this
    simp at this
    omega

/-- A turn lets no moment come back at which nothing has come. -/
theorem length_turn (n : Nat) (r : FrameReader) (t : Transport) :
    (turn n r t).2.2.length ≤ t.length := by
  fun_cases turn n r t with
  | case3 header payload filled hf header' rest hx =>
    simpa [hx] using length_fill_le header filled t
  | case4 header payload header' rest hf hx => simpa [hx] using length_fill_le header 0 t
  | case5 header payload filled hf header' rest hx hz =>
    simpa [hx] using length_fill_le header filled t
  | case6 header payload filled hf count header' rest hc hx =>
    simpa [hx] using length_fill_le header filled t
  | case8 header payload filled hf payload' rest hx =>
    simpa [hx] using length_fill_le payload filled t
  | case9 header payload filled hf payload' rest hx =>
    simpa [hx] using length_fill_le payload filled t
  | case10 header payload filled hf count payload' rest hc hx =>
    simpa [hx] using length_fill_le payload filled t
  | _ => exact Nat.le_refl _

/-- A turn that finds nothing lets such a moment pass. -/
theorem turn_pending (n : Nat) (r : FrameReader) (t : Transport) :
    (turn n r t).1 = some .pending → (turn n r t).2.2.length < t.length := by
  fun_cases turn n r t with
  | case3 header payload filled hf header' rest hx => exact fun _ => length_fill_lt hx
  | case8 header payload filled hf payload' rest hx => exact fun _ => length_fill_lt hx
  | _ => intro h; cases h

/-- It puts no piece back. -/
theorem length_poll (n : Nat) (r : FrameReader) (t : Transport) :
    (poll n r t).2.2.length ≤ t.length := by
  fun_induction poll n r t with
  | case1 r t a r' t' h => simpa [h] using length_turn n r t
  | case2 r t r' t' h ih =>
    have := length_turn n r t
    rw [h] at this
    exact Nat.le_trans ih this

/-- What has not come yet comes later. -/
theorem length_poll_lt (n : Nat) (r : FrameReader) (t : Transport) :
    (poll n r t).1 = .pending → (poll n r t).2.2.length < t.length := by
  fun_induction poll n r t with
  | case1 r t a r' t' h =>
    have := turn_pending n r t
    rw [h] at this
    simpa using this
  | case2 r t r' t' h ih =>
    have := length_turn n r t
    rw [h] at this
    exact fun hp => Nat.lt_of_lt_of_le (ih hp) this

/-- Polls until there is an answer. -/
def read (n : Nat) (r : FrameReader) (t : Transport) :
    Except StreamError (List UInt8) × FrameReader × Transport :=
  match _h : poll n r t with
  | (.pending, r', t') => read n r' t'
  | (.ready bs, r', t') => (.ok bs, r', t')
  | (.failed e, r', t') => (.error e, r', t')
termination_by t.length
decreasing_by
  have := length_poll_lt n r t (by rw [_h])
  rwa [_h] at this

/-- What is read is taken away from what is held and what is to come. -/
theorem length_read_le (n : Nat) (r : FrameReader) (t : Transport) (bs : List UInt8)
    (h : (read n r t).1 = .ok bs) :
    bs.length + (read n r t).2.1.held + (read n r t).2.2.bytes.length ≤
      r.held + t.bytes.length := by
  fun_induction read n r t with
  | case1 r t r' t' hp ih =>
    have := length_poll_le n r t
    rw [hp] at this
    simp only [FramePoll.handed, List.length_nil] at this
    have := ih h
    omega
  | case2 r t bs r' t' hp =>
    cases h
    simpa [hp, FramePoll.handed] using length_poll_le n r t
  | case3 r t e r' t' hp => cases h

/-! ## Reading to the end -/

/-- What came of reading to the end. -/
structure Reading where
  pieces : List (List UInt8)
  error? : Option StreamError
  reader : FrameReader
  transport : Transport
deriving Repr

/-- Reads at most `n` bytes at a time until nothing more is handed out. -/
def readAll (n : Nat) (r : FrameReader) (t : Transport) : Reading :=
  match _h : read n r t with
  | (.error e, r', t') => ⟨[], some e, r', t'⟩
  | (.ok [], r', t') => ⟨[], none, r', t'⟩
  | (.ok (b :: bs), r', t') =>
    let rest := readAll n r' t'
    { rest with pieces := (b :: bs) :: rest.pieces }
termination_by r.held + t.bytes.length
decreasing_by
  have := length_read_le n r t (b :: bs) (by rw [_h])
  rw [_h] at this
  simp at this ⊢
  omega

/-- A piece that is handed out has a byte in it. -/
theorem nil_notMem_pieces (n : Nat) (r : FrameReader) (t : Transport) :
    [] ∉ (readAll n r t).pieces := by
  fun_induction readAll n r t with
  | case1 => exact List.not_mem_nil
  | case2 => exact List.not_mem_nil
  | case3 r t b bs r' t' h rest ih => simpa using ih

end FrameReader

end LintPatrol
