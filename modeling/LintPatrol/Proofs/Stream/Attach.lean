import LintPatrol.Proofs.Number.Decimal
import LintPatrol.Proofs.Stream.Lines
import LintPatrol.Proofs.Text.Split
import LintPatrol.Stream.Attach

/-!
# LintPatrol.Proofs.Stream.Attach

Where the head of an answer ends and the output begins.  A head is a status
line, header lines that are not blank, and a blank line (`Head`); this is said
of the bytes alone.  The reader takes its lines out of a buffer that may hold
more than the head, so what is left in the buffer is handed on first.

## Main statements

* `BufferedReader.readUntil_firstLine`: however the bytes arrive, what is taken is
  their first line.
* `readHead_of_head` and `head_of_readHead`: the head is passed over, and what is left is
  what is behind it.
* `output_handed_over`: when attaching fails, and what is read if it does not.
-/

namespace LintPatrol

open Text LineReader

/-! ## First lines -/

/-- The bytes end with their only line feed. -/
def IsLine (line : List UInt8) : Prop := ∃ text, lineFeed ∉ text ∧ line = text ++ [lineFeed]

/-- The first line of some bytes, with its line feed if there is one, and what is
behind it. -/
inductive FirstLine : (bytes line rest : List UInt8) → Prop
  | found (text rest : List UInt8) (h : lineFeed ∉ text) :
    FirstLine (text ++ lineFeed :: rest) (text ++ [lineFeed]) rest
  | last (text : List UInt8) (h : lineFeed ∉ text) : FirstLine text text []

/-- The first line feed is in one place only. -/
theorem eq_of_append_lineFeed {text text' rest rest' : List UInt8} (h : lineFeed ∉ text)
    (h' : lineFeed ∉ text') (heq : text ++ lineFeed :: rest = text' ++ lineFeed :: rest') :
    text = text' ∧ rest = rest' := by
  induction text generalizing text' with
  | nil =>
    cases text' with
    | nil => exact ⟨rfl, (List.cons.inj heq).2⟩
    | cons b text' => exact absurd ((List.cons.inj heq).1 ▸ List.mem_cons_self) h'
  | cons a text ih =>
    rw [List.mem_cons, not_or] at h
    cases text' with
    | nil => exact absurd (List.cons.inj heq).1.symm h.1
    | cons b text' =>
      rw [List.mem_cons, not_or] at h'
      obtain ⟨rfl, htail⟩ := List.cons.inj heq
      obtain ⟨rfl, rfl⟩ := ih h.2 h'.2 htail
      exact ⟨rfl, rfl⟩

/-- A line can be cut off in one way. -/
theorem IsLine.append_inj {line line' bytes bytes' : List UInt8} (h : IsLine line)
    (h' : IsLine line') (heq : line ++ bytes = line' ++ bytes') :
    line = line' ∧ bytes = bytes' := by
  obtain ⟨text, htext, rfl⟩ := h
  obtain ⟨text', htext', rfl⟩ := h'
  rw [List.append_assoc, List.append_assoc] at heq
  obtain ⟨rfl, rfl⟩ := eq_of_append_lineFeed htext htext' heq
  exact ⟨rfl, rfl⟩

/-- Either the first line ends with a line feed, or it is all there is. -/
theorem FirstLine.eq_append {bytes line rest : List UInt8} (h : FirstLine bytes line rest) :
    bytes = line ++ rest ∧ (IsLine line ∨ lineFeed ∉ line ∧ rest = []) := by
  cases h with
  | found text rest h => exact ⟨by simp, .inl ⟨text, h, rfl⟩⟩
  | last text h => exact ⟨by simp, .inr ⟨h, rfl⟩⟩

/-- Bytes without a line feed belong to the first line. -/
theorem FirstLine.append {bs bytes line rest : List UInt8} (hb : lineFeed ∉ bs)
    (h : FirstLine bytes line rest) : FirstLine (bs ++ bytes) (bs ++ line) rest := by
  have hmem : ∀ {l}, lineFeed ∉ l → lineFeed ∉ bs ++ l := fun hl hm =>
    (List.mem_append.mp hm).elim hb hl
  cases h with
  | found text rest h =>
    rw [← List.append_assoc, ← List.append_assoc]
    exact .found _ _ (hmem h)
  | last text h => exact .last _ (hmem h)

namespace BufferedReader

/-- What is read up to a line feed is the first line. -/
theorem readUntil_firstLine (line : List UInt8) (r : BufferedReader) :
    ∃ l, (r.readUntil line).1 = line ++ l ∧ FirstLine r.bytes l (r.readUntil line).2.bytes := by
  fun_induction readUntil line r with
  | case1 line r i h =>
    obtain ⟨-, hnot, htake⟩ := take_of_idxOf? h
    refine ⟨r.fill.buffer.take (i + 1), rfl, ?_⟩
    have hbytes : r.bytes = r.fill.buffer.take i ++ lineFeed ::
        (r.fill.buffer.drop (i + 1) ++ r.fill.source.bytes) := by
      rw [← bytes_fill r, bytes]
      conv_lhs => rw [← List.take_append_drop (i + 1) r.fill.buffer, htake]
      simp
    rw [hbytes, htake]
    exact .found _ _ hnot
  | case2 line r h hn =>
    have hbytes := bytes_eq_nil_of_fill hn
    refine ⟨[], (List.append_nil line).symm, ?_⟩
    rw [bytes_fill, hbytes]
    exact .last [] List.not_mem_nil
  | case3 line r h hn ih =>
    obtain ⟨l, hl, hfirst⟩ := ih
    refine ⟨r.fill.buffer ++ l, by rw [hl, List.append_assoc], ?_⟩
    rw [← bytes_fill r]
    exact hfirst.append (List.idxOf?_eq_none_iff.mp h)

end BufferedReader

/-! ## Heads -/

namespace Attach

/-- The line is blank. -/
def IsBlank (line : List UInt8) : Prop := line = [10] ∨ line = [13, 10]

theorem IsBlank.isLine {line : List UInt8} (h : IsBlank line) : IsLine line := by
  rcases h with rfl | rfl
  · exact ⟨[], by decide, rfl⟩
  · exact ⟨[13], by decide, rfl⟩

/-- An answer has a head: a status line, headers that are not blank, and a blank
line; and then its body. -/
structure Head (bytes status : List UInt8) (headers : List (List UInt8)) (body : List UInt8) :
    Prop where
  isLine_status : IsLine status
  isLine_headers : ∀ h ∈ headers, IsLine h ∧ ¬IsBlank h
  eq : ∃ blank, IsBlank blank ∧ bytes = status ++ (headers.flatten ++ (blank ++ body))

/-- A head can be cut off in one way. -/
theorem eq_of_flatten_append {headers headers' : List (List UInt8)}
    {blank blank' body body' : List UInt8} (h : ∀ h ∈ headers, IsLine h ∧ ¬IsBlank h)
    (h' : ∀ h ∈ headers', IsLine h ∧ ¬IsBlank h) (hblank : IsBlank blank) (hblank' : IsBlank blank')
    (heq : headers.flatten ++ (blank ++ body) = headers'.flatten ++ (blank' ++ body')) :
    headers = headers' ∧ body = body' := by
  induction headers generalizing headers' with
  | nil =>
    cases headers' with
    | nil => exact ⟨rfl, (hblank.isLine.append_inj hblank'.isLine heq).2⟩
    | cons l headers' =>
      rw [List.flatten_cons, List.append_assoc] at heq
      obtain ⟨⟨hline, hnot⟩, -⟩ := List.forall_mem_cons.mp h'
      obtain ⟨rfl, -⟩ := hblank.isLine.append_inj hline heq
      exact absurd hblank hnot
  | cons l headers ih =>
    obtain ⟨⟨hline, hnot⟩, hrest⟩ := List.forall_mem_cons.mp h
    rw [List.flatten_cons, List.append_assoc] at heq
    cases headers' with
    | nil =>
      obtain ⟨rfl, -⟩ := hline.append_inj hblank'.isLine heq
      exact absurd hblank' hnot
    | cons l' headers' =>
      rw [List.flatten_cons, List.append_assoc] at heq
      obtain ⟨⟨hline', -⟩, hrest'⟩ := List.forall_mem_cons.mp h'
      obtain ⟨rfl, htail⟩ := hline.append_inj hline' heq
      obtain ⟨rfl, hbody⟩ := ih hrest hrest' htail
      exact ⟨rfl, hbody⟩

/-- An answer has one head only. -/
theorem Head.unique {bytes status status' body body' : List UInt8}
    {headers headers' : List (List UInt8)} (h : Head bytes status headers body)
    (h' : Head bytes status' headers' body') :
    status = status' ∧ headers = headers' ∧ body = body' := by
  obtain ⟨blank, hblank, heq⟩ := h.eq
  obtain ⟨blank', hblank', heq'⟩ := h'.eq
  obtain ⟨rfl, htail⟩ := h.isLine_status.append_inj h'.isLine_status (heq.symm.trans heq')
  exact ⟨rfl, eq_of_flatten_append h.isLine_headers h'.isLine_headers hblank hblank' htail⟩

/-- The line is a status line with that code. -/
def HasCode (line : List UInt8) (code : Nat) : Prop :=
  ∃ cs version word more, Utf8.decode? line = some cs ∧ words cs = version :: word :: more ∧
    "HTTP/".toList <+: version ∧ Number.readUInt16 word = .ok code

/-! ## Lines of a head -/

variable {line l rest : List UInt8} {r r' : BufferedReader}

/-- The line before others is the first one. -/
theorem firstLine_append {bytes : List UInt8} (hline : IsLine line)
    (h : FirstLine (line ++ bytes) l rest) : l = line ∧ rest = bytes := by
  obtain ⟨heq, hl | ⟨hnot, rfl⟩⟩ := h.eq_append
  · exact hl.append_inj hline heq.symm
  · obtain ⟨text, -, rfl⟩ := hline
    rw [List.append_nil] at heq
    exact absurd (heq ▸ by simp) hnot

/-- The text of a line is read, if it is UTF-8. -/
theorem readText_eq (r : BufferedReader) :
    ∃ l r', FirstLine r.bytes l r'.bytes ∧
      readText r =
        (Utf8.fault? l).elim (.ok (Utf8.decodeLossy l, r')) fun f => .error (.notText f) := by
  obtain ⟨l, hl, hfirst⟩ := r.readUntil_firstLine []
  refine ⟨l, (r.readUntil []).2, hfirst, ?_⟩
  rw [List.nil_append] at hl
  subst hl
  unfold readText
  generalize r.readUntil [] = taken
  obtain ⟨line, rest⟩ := taken
  simp only
  cases Utf8.fault? line <;> rfl

/-- A line that is read as text is UTF-8, and taken away from the bytes. -/
theorem readText_ok {cs : List Char} (h : readText r = .ok (cs, r')) :
    ∃ l, r.bytes = l ++ r'.bytes ∧ (IsLine l ∨ lineFeed ∉ l ∧ r'.bytes = []) ∧
      Utf8.fault? l = none ∧ Utf8.decodeLossy l = cs := by
  obtain ⟨l, rest, hfirst, hread⟩ := readText_eq r
  rw [h] at hread
  cases hfault : Utf8.fault? l with
  | some f =>
    rw [hfault] at hread
    cases hread
  | none =>
    rw [hfault] at hread
    obtain ⟨rfl, rfl⟩ := Prod.mk.inj (Except.ok.inj hread)
    obtain ⟨heq, hkind⟩ := hfirst.eq_append
    exact ⟨l, heq, hkind, hfault, rfl⟩

/-- A blank line is known by its text. -/
theorem isBlankLine_iff (h : IsLine l) : isBlankLine (Utf8.decodeLossy l) = true ↔ IsBlank l := by
  obtain ⟨text, htext, rfl⟩ := h
  have hcut : Utf8.decodeLossy (text ++ [lineFeed]) = Utf8.decodeLossy text ++ ['\n'] :=
    Utf8.decodeLossy_append (n := 10) (by decide) text []
  have hone : Utf8.decodeLossy text = ['\r'] ↔ text = [13] :=
    ⟨Utf8.eq_of_decodeLossy_eq (n := 13) (by decide) (by decide), by rintro rfl; rfl⟩
  have hline : isBlankLine (Utf8.decodeLossy text ++ ['\n']) = true ↔
      Utf8.decodeLossy text = ['\r'] ∨ Utf8.decodeLossy text = [] := by
    rw [isBlankLine, Bool.or_eq_true, decide_eq_true_eq, decide_eq_true_eq]
    exact or_congr (@List.append_left_inj _ _ ['\r'] _) (@List.append_left_inj _ _ [] _)
  have hblank : IsBlank (text ++ [lineFeed]) ↔ text = [] ∨ text = [13] :=
    or_congr (@List.append_left_inj _ _ [] _) (@List.append_left_inj _ _ [13] _)
  rw [hcut, hline, hblank, hone, Utf8.decodeLossy_eq_nil_iff, or_comm]

/-- A line that does not end is not blank. -/
theorem not_isBlankLine (h : lineFeed ∉ l) : isBlankLine (Utf8.decodeLossy l) = false := by
  have hn : '\n' ∉ Utf8.decodeLossy l := fun hm =>
    h (Utf8.mem_of_mem_decodeLossy (n := 10) (by decide) (by decide) hm)
  generalize Utf8.decodeLossy l = cs at hn
  rw [isBlankLine, Bool.or_eq_false_iff, decide_eq_false_iff_not, decide_eq_false_iff_not]
  constructor
  · rintro rfl
    exact hn (by decide)
  · rintro rfl
    exact hn (by decide)

/-! ## Headers -/

/-- A line that is UTF-8 is the blank one, or is passed over. -/
theorem skipHeaders_line {bytes : List UInt8} (hline : IsLine line)
    (htext : Utf8.fault? line = none) (heq : r.bytes = line ++ bytes) (limit : Nat) :
    ∃ rest, rest.bytes = bytes ∧ (IsBlank line → skipHeaders (limit + 1) r = .ok rest) ∧
      (¬IsBlank line → skipHeaders (limit + 1) r = skipHeaders limit rest) := by
  obtain ⟨l, rest, hfirst, hread⟩ := readText_eq r
  rw [heq] at hfirst
  obtain ⟨rfl, hbytes⟩ := firstLine_append hline hfirst
  rw [htext] at hread
  have hblank := isBlankLine_iff hline
  have hne : Utf8.decodeLossy l ≠ [] := fun hnil => by
    obtain ⟨text, -, rfl⟩ := hline
    exact absurd (Utf8.decodeLossy_eq_nil_iff.mp hnil) (by simp)
  obtain ⟨c, cs, hcs⟩ := List.exists_cons_of_ne_nil hne
  rw [hcs] at hread hblank
  refine ⟨rest, hbytes, fun h => ?_, fun h => ?_⟩
  · rw [skipHeaders, hread]
    exact if_pos (hblank.mpr h)
  · rw [skipHeaders, hread]
    exact if_neg (mt hblank.mp h)

/-- Headers are passed over up to a blank line, if no more lines than that are
allowed. -/
theorem skipHeaders_of_head {headers : List (List UInt8)} {blank body : List UInt8} {limit : Nat}
    (hblank : IsBlank blank) (hheaders : ∀ h ∈ headers, IsLine h ∧ ¬IsBlank h)
    (htext : ∀ h ∈ headers, Utf8.fault? h = none)
    (heq : r.bytes = headers.flatten ++ (blank ++ body)) (hlimit : r.bytes.length < limit) :
    ∃ r', skipHeaders limit r = .ok r' ∧ r'.bytes = body := by
  obtain ⟨limit, rfl⟩ : ∃ k, limit = k + 1 := ⟨limit - 1, by omega⟩
  induction headers generalizing r limit with
  | nil =>
    have hnone : Utf8.fault? blank = none := by rcases hblank with rfl | rfl <;> decide
    obtain ⟨rest, hbytes, hend, -⟩ := skipHeaders_line hblank.isLine hnone heq limit
    exact ⟨rest, hend hblank, hbytes⟩
  | cons h headers ih =>
    obtain ⟨⟨hline, hnot⟩, hheaders⟩ := List.forall_mem_cons.mp hheaders
    obtain ⟨hfault, htext⟩ := List.forall_mem_cons.mp htext
    rw [List.flatten_cons, List.append_assoc] at heq
    obtain ⟨rest, hbytes, -, hnext⟩ := skipHeaders_line hline hfault heq limit
    have hlength := congrArg List.length heq
    have hpos : 0 < h.length := by
      obtain ⟨text, -, rfl⟩ := hline
      simp
    rw [← hbytes, List.length_append] at hlength
    obtain ⟨limit, rfl⟩ : ∃ k, limit = k + 1 := ⟨limit - 1, by omega⟩
    rw [hnext hnot]
    exact ih hheaders htext hbytes limit (by omega)

/-- Where headers have been passed over, there was a head. -/
theorem head_of_skipHeaders {limit : Nat} (h : skipHeaders limit r = .ok r') :
    ∃ (headers : List (List UInt8)) (blank : List UInt8),
      (∀ h ∈ headers, IsLine h ∧ ¬IsBlank h) ∧ (∀ h ∈ headers, Utf8.fault? h = none) ∧
      IsBlank blank ∧ r.bytes = headers.flatten ++ (blank ++ r'.bytes) := by
  induction limit generalizing r with
  | zero => cases h
  | succ limit ih =>
    rw [skipHeaders] at h
    split at h
    · cases h
    · cases h
    · next cs rest hne hread =>
      obtain ⟨l, heq, hkind, hfault, hcs⟩ := readText_ok hread
      rw [← hcs] at h
      split at h
      · next hblank =>
        obtain rfl : rest = r' := Except.ok.inj h
        rcases hkind with hline | ⟨hnot, -⟩
        · exact ⟨[], l, by simp, by simp, (isBlankLine_iff hline).mp hblank, heq⟩
        · rw [not_isBlankLine hnot] at hblank
          cases hblank
      · next hblank =>
        obtain ⟨headers, blank, hheaders, htext, hlast, hbytes⟩ := ih h
        rcases hkind with hline | ⟨-, hend⟩
        · rw [isBlankLine_iff hline] at hblank
          refine ⟨l :: headers, blank, ?_, ?_, hlast, ?_⟩
          · exact List.forall_mem_cons.mpr ⟨⟨hline, hblank⟩, hheaders⟩
          · exact List.forall_mem_cons.mpr ⟨hfault, htext⟩
          · rw [heq, hbytes, List.flatten_cons, List.append_assoc]
        · -- Behind the last line there is no blank one.
          rw [hend] at hbytes
          obtain ⟨text, -, rfl⟩ := hlast.isLine
          simp at hbytes

/-! ## Status lines -/

/-- The code of a status line is its second word. -/
theorem hasCode_iff {code : Nat} (htext : Utf8.fault? l = none) :
    HasCode l code ↔ statusCode? (Utf8.decodeLossy l) = some code := by
  have hdecode : Utf8.decode? l = some (Utf8.decodeLossy l) :=
    Utf8.decode?_eq_some_iff.mpr ⟨htext, rfl⟩
  unfold HasCode statusCode?
  rw [hdecode]
  constructor
  · rintro ⟨cs, version, word, more, hcs, hwords, hversion, hcode⟩
    obtain rfl := Option.some.inj hcs
    simp only [hwords, if_pos (startsWith_iff.mpr hversion), hcode]
    rfl
  · intro h
    split at h
    · next version word more hwords =>
      split at h
      · next hversion =>
        refine ⟨_, version, word, more, rfl, hwords, startsWith_iff.mp hversion, ?_⟩
        cases hcode : Number.readUInt16 word with
        | error e => simp [hcode, Except.toOption] at h
        | ok n =>
          obtain rfl : n = code := by simpa [hcode, Except.toOption] using h
          rfl
      · cases h
    · cases h

theorem HasCode.fault?_eq_none {code : Nat} (h : HasCode l code) : Utf8.fault? l = none := by
  obtain ⟨cs, -, -, -, hdecode, -⟩ := h
  exact (Utf8.decode?_eq_some_iff.mp hdecode).1

/-- A status line has one code. -/
theorem HasCode.unique {code code' : Nat} (h : HasCode l code) (h' : HasCode l code') :
    code = code' := by
  have htext := h.fault?_eq_none
  rw [hasCode_iff htext] at h h'
  exact Option.some.inj (h.symm.trans h')

theorem isAccepted_iff (code : Nat) : isAccepted code = true ↔ code = 101 ∨ code = 200 := by
  simp [isAccepted]

/-- What comes of a status line with a code that is accepted. -/
theorem readStatus_line {bytes : List UInt8} {code : Nat} (hline : IsLine line)
    (hcode : HasCode line code) (haccepted : code = 101 ∨ code = 200)
    (heq : r.bytes = line ++ bytes) :
    ∃ rest, rest.bytes = bytes ∧ readStatus r = .ok rest := by
  obtain ⟨l, rest, hfirst, hread⟩ := readText_eq r
  rw [heq] at hfirst
  obtain ⟨rfl, hbytes⟩ := firstLine_append hline hfirst
  rw [hcode.fault?_eq_none] at hread
  have hstatus := (hasCode_iff hcode.fault?_eq_none).mp hcode
  refine ⟨rest, hbytes, ?_⟩
  unfold readStatus
  rw [hread]
  cases hcs : Utf8.decodeLossy l with
  | nil => rw [hcs] at hstatus; cases hstatus
  | cons c cs =>
    rw [hcs] at hstatus
    simp only [Option.elim_none, hstatus, if_pos ((isAccepted_iff code).mpr haccepted)]

/-- Where a status line has been accepted, there was one. -/
theorem hasCode_of_readStatus (h : readStatus r = .ok r') :
    ∃ line code, r.bytes = line ++ r'.bytes ∧ (IsLine line ∨ lineFeed ∉ line ∧ r'.bytes = []) ∧
      HasCode line code ∧ (code = 101 ∨ code = 200) := by
  unfold readStatus at h
  split at h
  · cases h
  · cases h
  · next cs rest hne hread =>
    obtain ⟨l, heq, hkind, htext, hcs⟩ := readText_ok hread
    split at h
    · cases h
    · next code hcode =>
      split at h
      · next haccepted =>
        obtain rfl : rest = r' := Except.ok.inj h
        rw [← hcs, ← hasCode_iff htext] at hcode
        exact ⟨l, code, heq, hkind, hcode, (isAccepted_iff code).mp haccepted⟩
      · cases h

/-! ## The head and the output -/

/-- **The head is passed over**, however it arrives, and what is left is what is behind it. -/
theorem readHead_of_head {t : Transport} {status body : List UInt8} {headers : List (List UInt8)}
    {code : Nat} (h : Head t.bytes status headers body) (hcode : HasCode status code)
    (haccepted : code = 101 ∨ code = 200) (htext : ∀ h ∈ headers, Utf8.fault? h = none) :
    ∃ t', readHead t = .ok t' ∧ t'.bytes = body := by
  obtain ⟨blank, hblank, heq⟩ := h.eq
  obtain ⟨r, hbytes, hstatus⟩ :=
    readStatus_line (r := .ofTransport t) h.isLine_status hcode haccepted heq
  obtain ⟨r', hskip, hrest⟩ :=
    skipHeaders_of_head hblank h.isLine_headers htext hbytes (Nat.lt_succ_self _)
  refine ⟨r'.rest, ?_, r'.bytes_rest.trans hrest⟩
  rw [readHead, hstatus]
  show (skipHeaders (r.bytes.length + 1) r).bind _ = _
  rw [hskip]
  rfl

/-- Where a head has been passed over, there was one that is accepted. -/
theorem head_of_readHead {t t' : Transport} (h : readHead t = .ok t') :
    ∃ status headers code, Head t.bytes status headers t'.bytes ∧ HasCode status code ∧
      (code = 101 ∨ code = 200) ∧ ∀ h ∈ headers, Utf8.fault? h = none := by
  unfold readHead at h
  cases hstatus : readStatus (.ofTransport t) with
  | error e => rw [hstatus] at h; cases h
  | ok r =>
    rw [hstatus] at h
    cases hskip : skipHeaders (r.bytes.length + 1) r with
    | error e =>
      change (skipHeaders (r.bytes.length + 1) r).bind _ = _ at h
      rw [hskip] at h
      cases h
    | ok r' =>
      change (skipHeaders (r.bytes.length + 1) r).bind _ = _ at h
      rw [hskip] at h
      obtain rfl : r'.rest = t' := Except.ok.inj h
      obtain ⟨status, code, heq, hkind, hcode, haccepted⟩ := hasCode_of_readStatus hstatus
      obtain ⟨headers, blank, hheaders, htext, hblank, hbytes⟩ := head_of_skipHeaders hskip
      have hline : IsLine status := by
        refine hkind.resolve_right fun ⟨_, hend⟩ => ?_
        -- The blank line is behind it.
        rw [hend] at hbytes
        obtain ⟨text, -, rfl⟩ := hblank.isLine
        simp at hbytes
      refine ⟨status, headers, code, ⟨hline, hheaders, blank, hblank, ?_⟩, hcode, haccepted, htext⟩
      rw [r'.bytes_rest, ← hbytes]
      exact heq

/-- Why there is no output: there is no answer, or its head does not end, or the
status line says something else, or a line of the head is not text. -/
def Refuses (bytes : List UInt8) : Prop :=
  bytes = [] ∨ (¬∃ status headers body, Head bytes status headers body) ∨
    ∃ status headers body, Head bytes status headers body ∧
      ((¬∃ code, HasCode status code) ∨
        (∃ code, HasCode status code ∧ code ≠ 101 ∧ code ≠ 200) ∨
        ∃ line ∈ status :: headers, Utf8.decode? line = none)

theorem fault?_eq_none_of_texts {headers : List (List UInt8)}
    (htext : ∀ h ∈ headers, Utf8.decode? h ≠ none) : ∀ h ∈ headers, Utf8.fault? h = none :=
  fun h hm => by
    by_contra hfault
    exact htext h hm (Utf8.decode?_eq_none_iff.mpr hfault)

/-- A head that cannot be read is a refusal. -/
theorem refuses_of_readHead {t : Transport} {e : AttachError} (he : readHead t = .error e) :
    Refuses t.bytes := by
  by_cases hhead : ∃ status headers body, Head t.bytes status headers body
  · obtain ⟨status, headers, body, hhead⟩ := hhead
    refine .inr (.inr ⟨status, headers, body, hhead, ?_⟩)
    by_contra hnone
    rw [not_or, not_or, not_not] at hnone
    obtain ⟨⟨code, hcode⟩, hother, htext⟩ := hnone
    have haccepted : code = 101 ∨ code = 200 := by
      by_contra hnot
      exact hother ⟨code, hcode, not_or.mp hnot⟩
    have hfault := fault?_eq_none_of_texts fun h hm hnone =>
      htext ⟨h, List.mem_cons_of_mem status hm, hnone⟩
    obtain ⟨t', hok, -⟩ := readHead_of_head hhead hcode haccepted hfault
    rw [hok] at he
    cases he
  · exact .inr (.inl hhead)

/-- One that can be read is none. -/
theorem not_refuses_of_readHead {t t' : Transport} (hread : readHead t = .ok t') :
    ¬Refuses t.bytes := by
  obtain ⟨status, headers, code, hhead, hcode, haccepted, htext⟩ := head_of_readHead hread
  rintro (hnil | hnone | ⟨status', headers', body, hhead', hreason⟩)
  · obtain ⟨text, -, hstatus⟩ := hhead.isLine_status
    obtain ⟨blank, -, heq⟩ := hhead.eq
    rw [hnil, hstatus] at heq
    simp at heq
  · exact hnone ⟨status, headers, _, hhead⟩
  · obtain ⟨rfl, rfl, -⟩ := hhead.unique hhead'
    rcases hreason with hnone | ⟨code', hcode', hne⟩ | ⟨line, hm, hline⟩
    · exact hnone ⟨code, hcode⟩
    · obtain rfl := hcode.unique hcode'
      exact absurd haccepted (not_or.mpr hne)
    · have hfault := Utf8.decode?_eq_none_iff.mp hline
      rcases List.mem_cons.mp hm with rfl | hm
      · exact hfault hcode.fault?_eq_none
      · exact hfault (htext line hm)

/-- The head is not read just if the daemon refuses. -/
theorem readHead_error_iff (t : Transport) :
    (∃ e, readHead t = .error e) ↔ Refuses t.bytes := by
  refine ⟨fun ⟨_, he⟩ => refuses_of_readHead he, fun hrefuses => ?_⟩
  cases hread : readHead t with
  | error e => exact ⟨e, rfl⟩
  | ok t' => exact absurd hrefuses (not_refuses_of_readHead hread)

/-- **What is read of the output is what a reader of frames makes of the bytes behind
the head**, however the answer arrives and however its output is read; and there
is none just if the daemon refuses. -/
theorem output_handed_over (t : Transport) :
    ((∃ e, readHead t = .error e) ↔ Refuses t.bytes) ∧
      ∀ status headers body code, Head t.bytes status headers body → HasCode status code →
        (code = 101 ∨ code = 200) → (∀ h ∈ headers, Utf8.decode? h ≠ none) →
        ∃ t', readHead t = .ok t' ∧ t'.bytes = body ∧
          ∀ u : Transport, u.bytes = body →
            (∃ out last, ∀ size : Nat → Nat, (∀ k, 0 < size k) →
              FrameReader.Yields size t' out last ∧ FrameReader.Yields size u out last) ∧
            ∀ limit, LineReader.readFrames limit t' = LineReader.readFrames limit u := by
  refine ⟨readHead_error_iff t, fun status headers body code hhead hcode haccepted htext => ?_⟩
  obtain ⟨t', hok, hbytes⟩ :=
    readHead_of_head hhead hcode haccepted (fault?_eq_none_of_texts htext)
  refine ⟨t', hok, hbytes, fun u hu => ?_⟩
  obtain ⟨fs, rest, hrun⟩ := exists_longestRun body
  have hrun' : LongestRun t'.bytes fs rest := hbytes.symm ▸ hrun
  rw [← hu] at hrun
  constructor
  · exact ⟨_, _, fun size hsize =>
      ⟨FrameReader.yields_of_longestRun hsize hrun', FrameReader.yields_of_longestRun hsize hrun⟩⟩
  · intro limit
    rw [LineReader.readFrames, LineReader.readFrames,
      LineReader.readLines_overFrames (by decide) limit hrun',
      LineReader.readLines_overFrames (by decide) limit hrun]

/-- An answer that arrives in three pieces, with a frame in the second one. -/
theorem output_handed_over_upgrade :
    let status := Utf8.bytes "HTTP/1.1 101 UPGRADED\r\n"
    let header := Utf8.bytes "Upgrade: tcp\r\n"
    let frame : List UInt8 := [1, 0, 0, 0, 0, 0, 0, 2, 104, 10]
    ∃ t', readHead [status.take 7, status.drop 7 ++ header ++ [13, 10] ++ frame, frame] = .ok t' ∧
      t'.bytes = frame ++ frame := by
  intro status header frame
  have hstatus : IsLine status :=
    ⟨Utf8.bytes "HTTP/1.1 101 UPGRADED\r", by decide +kernel, by decide +kernel⟩
  have hheader : IsLine header :=
    ⟨Utf8.bytes "Upgrade: tcp\r", by decide +kernel, by decide +kernel⟩
  have hnot : ¬IsBlank header := by
    rintro (h | h) <;> exact absurd h (by decide +kernel)
  have hcode : HasCode status 101 := (hasCode_iff (by decide +kernel)).mpr (by decide +kernel)
  have hhead : Head (Transport.bytes [status.take 7, status.drop 7 ++ header ++ [13, 10] ++ frame,
      frame]) status [header] (frame ++ frame) :=
    ⟨hstatus, by simpa using ⟨hheader, hnot⟩, [13, 10], .inr rfl, by decide +kernel⟩
  obtain ⟨t', hok, hbytes, -⟩ := (output_handed_over _).2 status [header] (frame ++ frame) 101 hhead
    hcode (.inl rfl) (by decide +kernel)
  exact ⟨t', hok, hbytes⟩

end Attach

end LintPatrol
