import LintPatrol.Proofs.Stream.Decoding
import LintPatrol.Proofs.Text.Utf8
import LintPatrol.Stream.Lines
import Mathlib.Data.List.DropRight

/-!
# LintPatrol.Proofs.Stream.Lines

What a reader of lines makes of the payloads of a stream of frames.  Of the
bytes that are still to come only those up to the limit are `ahead`, and the
error that the stream ends with comes behind them only if they are all
(`ending?`).  Filling the buffer and taking bytes out of it are described by
what they do to these two (`fill_fills`, `consume_ahead`), looking for a line
feed by how it cuts them (`readUntil_nextLine`), so that the pieces the bytes
come in are not seen any more.

In the text of a line only carriage returns are dropped besides the line
feed, since no other byte than its own is decoded as one.

## Main statements

* `FrameReader.readAll_start`: what is read up to the end, whatever number of
  bytes is asked for.
* `readLines_eq`: the lines of the bytes that are ahead, or the error.
* `linesOf_written`: texts that are written line by line are read again.
* `frames_read`: what is read of a transport.
-/

namespace LintPatrol

open Text

/-! ## Frames up to the end -/

namespace FrameReader

/-- What is read while `out` is still to be handed out before `rest`, and
what is still to be handed out afterwards. -/
inductive Reads (rest : List UInt8) :
    (out : List UInt8) → Except StreamError (List UInt8) → List UInt8 → Prop
  | piece (bs out : List UInt8) (h : bs ≠ []) : Reads rest (bs ++ out) (.ok bs) out
  | ended (h : fault? rest = none) : Reads rest [] (.ok []) []
  | failed (e : StreamError) (h : fault? rest = some e) : Reads rest [] (.error e) []

/-- What is read is paid out of what the reader owes. -/
theorem read_owes {n : Nat} {r : FrameReader} {t : Transport} {out rest : List UInt8} (hn : 0 < n)
    (fits : r.Fits) (h : r.Owes t out rest) :
    (read n r t).2.1.Fits ∧ ∃ out', (read n r t).2.1.Owes (read n r t).2.2 out' rest ∧
      Reads rest out (read n r t).1 out' := by
  fun_induction read n r t with
  | case1 r t r' t' hp ih =>
    have hfits := poll_fits n t fits
    obtain ⟨out', ho, ha⟩ := poll_owes hn fits h
    rw [hp] at hfits ho ha
    cases ha
    exact ih hfits ho
  | case2 r t bs r' t' hp =>
    have hfits := poll_fits n t fits
    obtain ⟨out', ho, ha⟩ := poll_owes hn fits h
    rw [hp] at hfits ho ha
    refine ⟨hfits, out', ho, ?_⟩
    cases ha with
    | ready _ _ hb => exact .piece bs out' hb
    | ended hr => exact .ended ((fault?_eq_none_iff rest).mpr hr)
  | case3 r t e r' t' hp =>
    have hfits := poll_fits n t fits
    obtain ⟨out', ho, ha⟩ := poll_owes hn fits h
    rw [hp] at hfits ho ha
    refine ⟨hfits, out', ho, ?_⟩
    cases ha with
    | failed _ he => exact .failed e he

/-- Reading to the end hands out all that is owed, and says what is wrong with the bytes
behind it. -/
theorem readAll_owes {n : Nat} {r : FrameReader} {t : Transport} {rest : List UInt8}
    (hn : 0 < n) (fits : r.Fits) : ∀ {out : List UInt8}, r.Owes t out rest →
      (readAll n r t).pieces.flatten = out ∧ (readAll n r t).error? = fault? rest := by
  fun_induction readAll n r t with
  | case1 r t e r' t' hr =>
    intro out h
    obtain ⟨-, out', -, ha⟩ := read_owes hn fits h
    rw [hr] at ha
    cases ha with
    | failed _ he => exact ⟨rfl, he.symm⟩
  | case2 r t r' t' hr =>
    intro out h
    obtain ⟨-, out', -, ha⟩ := read_owes hn fits h
    rw [hr] at ha
    cases ha with
    | piece _ _ hb => exact absurd rfl hb
    | ended he => exact ⟨rfl, he.symm⟩
  | case3 r t b bs r' t' hr more ih =>
    intro out h
    obtain ⟨hfits, out', ho, ha⟩ := read_owes hn fits h
    rw [hr] at hfits ho ha
    cases ha with
    | piece =>
      obtain ⟨hp, he⟩ := ih hfits ho
      exact ⟨by rw [List.flatten_cons, hp], he⟩

/-- All that is read are the payloads, and then what is at fault. -/
theorem readAll_start {n : Nat} (hn : 0 < n) {t : Transport} {fs : List Frame}
    {rest : List UInt8} (h : LongestRun t.bytes fs rest) :
    (readAll n .start t).pieces.flatten = Frame.payloads fs ∧
      (readAll n .start t).error? = fault? rest :=
  readAll_owes hn start_fits ⟨⟨fs, h, rfl⟩, nofun⟩

end FrameReader

namespace LineReader

variable {line l : List UInt8} {r r' : LineReader} {e : StreamError}

/-! ## Bytes up to the limit -/

/-- All bytes that are still to come. -/
def output (r : LineReader) : List UInt8 := r.buffer ++ r.pieces.flatten

/-- Those of them that may be taken. -/
def ahead (r : LineReader) : List UInt8 := r.output.take r.left

/-- The error that comes behind them; where not all may be taken, none does. -/
def ending? (r : LineReader) : Option StreamError :=
  if r.left ≤ r.output.length then none else r.error?

/-- Bytes that are taken out of the buffer are the next ones. -/
theorem consume_ahead {n : Nat} (h : n ≤ (r.buffer.take r.left).length) :
    r.ahead = (r.buffer.take r.left).take n ++ (r.consume n).ahead ∧
      (r.consume n).ending? = r.ending? := by
  rw [List.length_take] at h
  have hout : (r.consume n).output = r.output.drop n := by
    rw [output, output, List.drop_append_of_le_length (by omega)]
    rfl
  have hlen : r.buffer.length ≤ r.output.length := by
    rw [output, List.length_append]
    omega
  have htake : (r.buffer.take r.left).take n = r.ahead.take n := by
    rw [ahead, List.take_take, List.take_take, Nat.min_eq_left (by omega), output,
      List.take_append_of_le_length (by omega)]
  have hdrop : (r.consume n).ahead = r.ahead.drop n := by
    rw [ahead, ahead, hout, List.drop_take]
    rfl
  have hle : (r.consume n).left ≤ (r.consume n).output.length ↔ r.left ≤ r.output.length := by
    rw [hout, List.length_drop]
    show r.left - n ≤ _ ↔ _
    omega
  refine ⟨by rw [htake, hdrop, List.take_append_drop], ?_⟩
  simp only [ending?, hle]
  rfl

/-- Before an error all bytes may be taken. -/
theorem length_ahead_lt (h : r.ending? = some e) : r.ahead.length < r.left := by
  unfold ending? at h
  split at h
  next => cases h
  next hl =>
    rw [ahead, List.length_take]
    omega

/-- What comes of filling the buffer. -/
inductive Fills (r : LineReader) : Except StreamError (List UInt8 × LineReader) → Prop
  | failed (e : StreamError) (ha : r.ahead = []) (he : r.ending? = some e) : Fills r (.error e)
  | ended (ha : r.ahead = []) (he : r.ending? = none) : Fills r (.ok ([], r))
  | filled (bs : List UInt8) (r' : LineReader) (h : bs ≠ [])
    (taken : ∀ n ≤ bs.length, r.ahead = bs.take n ++ (r'.consume n).ahead ∧
      (r'.consume n).ending? = r.ending?) : Fills r (.ok (bs, r'))

/-- To fill the buffer takes the next piece. -/
theorem fill_fills (r : LineReader) : Fills r r.fill := by
  fun_cases fill r with
  | case1 => exact .ended rfl rfl
  | case2 left b bs pieces error? h => exact .filled _ _ (by simp) fun n hn => consume_ahead hn
  | case3 left p ps error? h =>
    have hp : p ≠ [] := fun hp => h (hp ▸ List.mem_cons_self)
    let r' : LineReader := ⟨left + 1, p, ps, error?, List.not_mem_of_not_mem_cons h⟩
    exact .filled _ r' (by simpa using hp) fun n hn => consume_ahead (r := r') hn
  | case4 left e h => exact .failed e rfl rfl
  | case5 left h => exact .ended rfl rfl

/-! ## One line -/

/-- What comes of looking for a line feed in `bytes` and before the error
`ending?`, with `line` in front. -/
inductive NextLine (line : List UInt8) :
    (bytes : List UInt8) → (ending? : Option StreamError) →
      Except StreamError (List UInt8 × LineReader) → Prop
  | failed (l : List UInt8) (e : StreamError) (h : lineFeed ∉ l) :
    NextLine line l (some e) (.error e)
  | last (l line' : List UInt8) (r : LineReader) (h : lineFeed ∉ l) (hl : line' = line ++ l)
    (ha : r.ahead = []) (he : r.ending? = none) : NextLine line l none (.ok (line', r))
  | found (l line' : List UInt8) (r : LineReader) (h : lineFeed ∉ l)
    (hl : line' = line ++ (l ++ [lineFeed])) :
    NextLine line (l ++ lineFeed :: r.ahead) r.ending? (.ok (line', r))

/-- Bytes without a line feed may have been looked at earlier. -/
theorem NextLine.append {bs bytes : List UInt8} {ending? : Option StreamError}
    {x : Except StreamError (List UInt8 × LineReader)} (hb : lineFeed ∉ bs)
    (h : NextLine (line ++ bs) bytes ending? x) : NextLine line (bs ++ bytes) ending? x := by
  have hmem : ∀ {l}, lineFeed ∉ l → lineFeed ∉ bs ++ l := fun hl hm =>
    (List.mem_append.mp hm).elim hb hl
  cases h with
  | failed l e h => exact .failed _ e (hmem h)
  | last l line' r h hl ha he =>
    exact .last _ _ r (hmem h) (by rw [hl, List.append_assoc]) ha he
  | found l line' r h hl =>
    rw [← List.append_assoc]
    exact .found _ _ r (hmem h) (by simp only [hl, List.append_assoc])

/-- The first line feed among bytes. -/
theorem take_of_idxOf? {bs : List UInt8} {i : Nat} (h : bs.idxOf? lineFeed = some i) :
    i < bs.length ∧ lineFeed ∉ bs.take i ∧ bs.take (i + 1) = bs.take i ++ [lineFeed] := by
  obtain ⟨hlt, heq, hbefore⟩ := List.idxOf?_eq_some_iff.mp h
  refine ⟨hlt, fun hm => ?_, by rw [List.take_succ_eq_append_getElem hlt, heq]⟩
  obtain ⟨j, hj, hjeq⟩ := List.mem_take_iff_getElem.mp hm
  exact hbefore j (by omega) hjeq

/-- What is read up to a line feed is the next line. -/
theorem readUntil_nextLine (line : List UInt8) (r : LineReader) :
    NextLine line r.ahead r.ending? (r.readUntil line) := by
  fun_induction readUntil line r with
  | case1 line r e hf =>
    have := fill_fills r
    rw [hf] at this
    cases this with
    | failed e ha he =>
      rw [ha, he]
      exact .failed [] e List.not_mem_nil
  | case2 line r available r' hf i hi =>
    have := fill_fills r
    rw [hf] at this
    cases this with
    | ended => cases hi
    | filled _ _ h taken =>
      obtain ⟨hlt, hnot, htake⟩ := take_of_idxOf? hi
      obtain ⟨ha, he⟩ := taken (i + 1) hlt
      rw [htake, List.append_assoc, List.singleton_append] at ha
      rw [ha, ← he, htake]
      exact .found _ _ _ hnot rfl
  | case3 line r r' hf hi =>
    have := fill_fills r
    rw [hf] at this
    cases this with
    | ended ha he =>
      rw [ha, he]
      exact .last [] line r List.not_mem_nil (List.append_nil line).symm ha he
    | filled _ _ h => exact absurd rfl h
  | case4 line r available r' hf hi hn ih =>
    have := fill_fills r
    rw [hf] at this
    cases this with
    | ended => exact absurd rfl hn
    | filled _ _ h taken =>
      obtain ⟨ha, he⟩ := taken available.length (Nat.le_refl _)
      rw [ha, ← he, List.take_length]
      exact ih.append (List.idxOf?_eq_none_iff.mp hi)

/-! ## All lines -/

/-- Bytes cut at every line feed; there is no line behind the last one. -/
def cut (bytes : List UInt8) : List (List UInt8) :=
  let pieces := bytes.splitOn lineFeed
  if pieces.getLast? = some [] then pieces.dropLast else pieces

/-- The text of the bytes between two line feeds. -/
def pieceText (piece : List UInt8) : String :=
  String.ofList ((Utf8.decodeLossy piece).rdropWhile (· = '\r'))

/-- The texts of the lines of bytes. -/
def linesOf (bytes : List UInt8) : List String := (cut bytes).map pieceText

theorem cut_nil : cut [] = [] := rfl

theorem cut_of_notMem (h : lineFeed ∉ l) (hl : l ≠ []) : cut l = [l] := by
  simp [cut, List.splitOn_eq_singleton h, hl]

/-- A line feed ends a line. -/
theorem cut_append (h : lineFeed ∉ l) (rest : List UInt8) :
    cut (l ++ lineFeed :: rest) = l :: cut rest := by
  have hne : rest.splitOn lineFeed ≠ [] := List.splitOn_ne_nil _ _
  simp only [cut, List.splitOn_append_cons_self_of_not_mem h, List.getLast?_cons_of_ne_nil hne]
  split
  next => rw [List.dropLast_cons_of_ne_nil hne]
  next => rfl

/-- Where there is no line feed, only carriage returns are dropped. -/
theorem rdropWhile_endsLine {cs : List Char} (h : '\n' ∉ cs) :
    cs.rdropWhile endsLine = cs.rdropWhile (· = '\r') := by
  induction cs using List.reverseRecOn with
  | nil => rfl
  | append_singleton cs c ih =>
    rw [List.mem_append, List.mem_singleton, not_or] at h
    have hc : endsLine c = decide (c = '\r') := by simp [endsLine, Ne.symm h.2]
    rw [List.rdropWhile_concat, List.rdropWhile_concat, hc, ih h.1]

theorem lineText_of_notMem (h : lineFeed ∉ l) : lineText l = pieceText l := by
  have hn : '\n' ∉ Utf8.decodeLossy l := fun hm =>
    h (Utf8.mem_of_mem_decodeLossy (n := 10) (by decide) (by decide) hm)
  exact congrArg String.ofList (rdropWhile_endsLine hn)

theorem lineText_concat (h : lineFeed ∉ l) : lineText (l ++ [lineFeed]) = pieceText l := by
  have hcut : Utf8.decodeLossy (l ++ [lineFeed]) = Utf8.decodeLossy l ++ ['\n'] :=
    Utf8.decodeLossy_append (n := 10) (by decide) l []
  have hdrop : (Utf8.decodeLossy l ++ ['\n']).rdropWhile endsLine =
      (Utf8.decodeLossy l).rdropWhile endsLine := List.rdropWhile_concat_pos endsLine _ _ rfl
  rw [← lineText_of_notMem h]
  exact congrArg String.ofList (hcut ▸ hdrop)

example : linesOf [97, 13, 13, 10, 10, 98] = ["a", "", "b"] := by decide

/-- A line that cannot be read. -/
theorem ending?_of_readUntil (h : r.readUntil [] = .error e) : r.ending? = some e := by
  have hnext := readUntil_nextLine [] r
  rw [h] at hnext
  generalize r.ahead = bytes at hnext
  generalize r.ending? = ending? at hnext ⊢
  cases hnext
  rfl

/-- There is no line only where there are no bytes. -/
theorem ahead_of_readUntil_nil (h : r.readUntil [] = .ok ([], r')) :
    r.ahead = [] ∧ r.ending? = none := by
  have hnext := readUntil_nextLine [] r
  rw [h] at hnext
  generalize r.ahead = bytes at hnext ⊢
  generalize r.ending? = ending? at hnext ⊢
  cases hnext with
  | last _ _ _ _ hl => exact ⟨hl.symm, rfl⟩
  | found _ _ _ _ hl => simp at hl

/-- A line that is read is the first one. -/
theorem ahead_of_readUntil (hn : line ≠ []) (h : r.readUntil [] = .ok (line, r')) :
    r.ahead = line ++ r'.ahead ∧ r.ending? = r'.ending? ∧
      linesOf r.ahead = lineText line :: linesOf r'.ahead := by
  have hnext := readUntil_nextLine [] r
  rw [h] at hnext
  generalize r.ahead = bytes at hnext ⊢
  generalize r.ending? = ending? at hnext ⊢
  cases hnext with
  | last _ _ _ hnot hl ha he =>
    obtain rfl : line = bytes := hl
    refine ⟨by rw [ha, List.append_nil], he.symm, ?_⟩
    rw [linesOf, cut_of_notMem hnot hn, ha, lineText_of_notMem hnot]
    rfl
  | found l _ _ hnot hl =>
    obtain rfl : line = l ++ [lineFeed] := hl
    refine ⟨by rw [List.append_assoc, List.singleton_append], rfl, ?_⟩
    rw [linesOf, cut_append hnot, lineText_concat hnot]
    rfl

/-- What has been taken and what may still be taken are one byte more than the
limit; so too many bytes are always noticed, and an error behind them never
is. -/
theorem readLines_eq {limit total : Nat} {lines : List String} (hleft : total + r.left = limit + 1)
    (htotal : total ≤ limit) :
    r.readLines limit total lines =
      if limit < total + r.ahead.length then .error (.outputTooLong limit)
      else r.ending?.elim (.ok (lines.reverse ++ linesOf r.ahead)) .error := by
  fun_induction readLines limit total lines r with
  | case1 total lines r e hr =>
    have he := ending?_of_readUntil hr
    have := length_ahead_lt he
    rw [if_neg (by omega), he]
    rfl
  | case2 total lines r r' hr =>
    obtain ⟨ha, he⟩ := ahead_of_readUntil_nil hr
    rw [ha, he, if_neg (by simpa using htotal), linesOf, cut_nil]
    simp
  | case3 total lines r b bs r' hr total' hlt =>
    obtain ⟨ha, -, -⟩ := ahead_of_readUntil (List.cons_ne_nil b bs) hr
    rw [ha, List.length_append, if_pos (by omega)]
  | case4 total lines r b bs r' hr total' hlt ih =>
    obtain ⟨ha, he, hl⟩ := ahead_of_readUntil (List.cons_ne_nil b bs) hr
    have hlen := length_readUntil hr
    rw [List.length_nil] at hlen
    rw [ih (by omega) (by omega), hl, ha, he, List.length_append, Nat.add_assoc]
    simp

/-- The limit counts before the error that the output ends with. -/
theorem readLines_start {limit : Nat} (h : r.left = limit + 1) :
    r.readLines limit 0 [] =
      if limit < r.output.length then .error (.outputTooLong limit)
      else r.error?.elim (.ok (linesOf r.output)) .error := by
  rw [readLines_eq (by omega) (Nat.zero_le limit), ahead, List.length_take, h]
  by_cases hl : limit < r.output.length
  · rw [if_pos hl, if_pos (by omega)]
  · rw [if_neg hl, if_neg (by omega), List.take_of_length_le (by omega), ending?, h,
      if_neg (by omega)]
    rfl

/-- Lines are read of the payloads, as far as the limit allows. -/
theorem readLines_overFrames {n : Nat} (hn : 0 < n) (limit : Nat) {t : Transport}
    {fs : List Frame} {rest : List UInt8} (h : LongestRun t.bytes fs rest) :
    readLines limit 0 [] (overFrames n limit t) =
      if limit < (Frame.payloads fs).length then .error (.outputTooLong limit)
      else (fault? rest).elim (.ok (linesOf (Frame.payloads fs))) .error := by
  obtain ⟨hp, he⟩ := FrameReader.readAll_start hn h
  have hout : (overFrames n limit t).output = Frame.payloads fs := hp
  have herror : (overFrames n limit t).error? = fault? rest := he
  rw [readLines_start rfl, hout, herror]

/-! ## Texts that are written line by line -/

/-- How a line may be ended. -/
inductive LineEnd where
  | lf
  | crlf
deriving Repr, DecidableEq

/-- The bytes that end a line. -/
def LineEnd.bytes : LineEnd → List UInt8
  | lf => [10]
  | crlf => [13, 10]

def written (texts : List (String × LineEnd)) : List UInt8 :=
  texts.flatMap fun (text, ended) => Utf8.bytes text ++ ended.bytes

section Written

variable {text : String}

theorem lineFeed_notMem_bytes (h : '\n' ∉ text.toList) : lineFeed ∉ Utf8.bytes text := fun hm =>
  h (Utf8.mem_of_mem_encode (n := 10) (by decide) hm)

/-- The text of a line reads as it was written. -/
theorem pieceText_bytes (h : '\r' ∉ text.toList) : pieceText (Utf8.bytes text) = text := by
  have hdrop : text.toList.rdropWhile (· = '\r') = text.toList :=
    List.rdropWhile_eq_self_iff.mpr fun hl hc =>
      h (of_decide_eq_true hc ▸ List.getLast_mem hl)
  rw [pieceText, Utf8.bytes, Utf8.decodeLossy_encode, hdrop, String.ofList_toList]

theorem pieceText_bytes_concat (h : '\r' ∉ text.toList) :
    pieceText (Utf8.bytes text ++ [13]) = text := by
  have hcut : Utf8.decodeLossy (Utf8.bytes text ++ [13]) =
      Utf8.decodeLossy (Utf8.bytes text) ++ ['\r'] :=
    Utf8.decodeLossy_append (n := 13) (by decide) _ []
  rw [pieceText, hcut, List.rdropWhile_concat_pos _ _ _ rfl, ← pieceText, pieceText_bytes h]

/-- A line that is written with its end reads as its text. -/
theorem linesOf_append (hn : '\n' ∉ text.toList) (hr : '\r' ∉ text.toList) (ended : LineEnd)
    (rest : List UInt8) :
    linesOf (Utf8.bytes text ++ ended.bytes ++ rest) = text :: linesOf rest := by
  have hnot := lineFeed_notMem_bytes hn
  cases ended with
  | lf =>
    have hcut := cut_append hnot rest
    rw [List.append_assoc]
    show (cut (Utf8.bytes text ++ lineFeed :: rest)).map pieceText = _
    rw [hcut, List.map_cons, pieceText_bytes hr, linesOf]
  | crlf =>
    have hnot : lineFeed ∉ Utf8.bytes text ++ [13] := by
      rw [List.mem_append, not_or]
      exact ⟨hnot, by decide⟩
    have hcut := cut_append hnot rest
    have hbytes : Utf8.bytes text ++ LineEnd.crlf.bytes ++ rest =
        (Utf8.bytes text ++ [13]) ++ lineFeed :: rest := by
      simp [LineEnd.bytes, lineFeed]
    rw [hbytes, linesOf, hcut, List.map_cons, pieceText_bytes_concat hr, linesOf]

/-- Texts that are written line by line read as they were. -/
theorem linesOf_written {texts : List (String × LineEnd)}
    (h : ∀ x ∈ texts, '\n' ∉ x.1.toList ∧ '\r' ∉ x.1.toList) :
    linesOf (written texts) = texts.map Prod.fst := by
  induction texts with
  | nil => rfl
  | cons x texts ih =>
    obtain ⟨hn, hr⟩ := h x List.mem_cons_self
    rw [written, List.flatMap_cons, linesOf_append hn hr, ← written,
      ih fun y hy => h y (List.mem_cons_of_mem x hy)]
    rfl

end Written

/-! ## Output as lines -/

theorem head?_append {s : String} {c : Char} (h : s.toList.head? = some c) (t : String) :
    (s ++ t).toList.head? = some c := by
  rw [String.toList_append, List.head?_append, h, Option.some_or]

/-- That there is too much output is reported in words of its own. -/
theorem head?_message (e : StreamError) :
    e.message.toList.head? = some (match e with
      | .frameTooLong _ => 'f'
      | .headerCut _ => 's'
      | .payloadCut _ _ => 's'
      | .outputTooLong _ => 'o') := by
  cases e with
  | frameTooLong length =>
    exact head?_append (head?_append (head?_append (head?_append rfl _) _) _) _
  | headerCut got => exact head?_append (head?_append (head?_append (head?_append rfl _) _) _) _
  | payloadCut got length =>
    exact head?_append (head?_append (head?_append (head?_append rfl _) _) _) _
  | outputTooLong limit => exact head?_append (head?_append rfl _) _

/-- Nothing that is wrong with frames is reported so. -/
theorem message_ne_of_fault? {rest : List UInt8} (h : fault? rest = some e) (limit : Nat) :
    e.message ≠ (StreamError.outputTooLong limit).message := by
  intro hm
  have hfirst := congrArg (fun s : String => s.toList.head?) hm
  simp only [head?_message] at hfirst
  cases e with
  | outputTooLong k =>
    unfold fault? at h
    split at h
    next => cases h
    next =>
      split at h
      next => cases h
      next => simp only at h; split at h <;> cases h
  | frameTooLong length => simp at hfirst
  | headerCut got => simp at hfirst
  | payloadCut got length => simp at hfirst

/-- What comes of reading the lines of a transport: `fs` are the frames it
begins with, and `rest` is behind them. -/
structure LinesRead (limit : Nat) (t : Transport) (fs : List Frame) (rest : List UInt8) : Prop where
  /-- No longer run of complete frames begins the bytes. -/
  run : LongestRun t.bytes fs rest
  /-- A reader of frames hands out their payloads before the end or its first
  error, however many bytes it is asked for. -/
  handed : ∀ n > 0, (FrameReader.readAll n .start t).pieces.flatten = Frame.payloads fs ∧
    (FrameReader.readAll n .start t).error? = fault? rest
  /-- That there is too much of them counts, whatever is behind them. -/
  tooLong : (∃ e, readFrames limit t = .error e ∧ e.kind = "InvalidData" ∧
      e.message = "output exceeds " ++ toString limit ++ " bytes") ↔
    limit < (Frame.payloads fs).length
  /-- Otherwise what is wrong with the frames does. -/
  failed : (Frame.payloads fs).length ≤ limit →
    ∀ e, fault? rest = some e → readFrames limit t = .error e
  /-- Otherwise they are read line by line. -/
  lines : (Frame.payloads fs).length ≤ limit → fault? rest = none →
    readFrames limit t = .ok (linesOf (Frame.payloads fs))
  /-- Neither other frames and pieces nor another buffer make a difference. -/
  uncut : ∀ n > 0, ∀ t' gs rest', LongestRun t'.bytes gs rest' →
    Frame.payloads gs = Frame.payloads fs → fault? rest' = fault? rest →
    readLines limit 0 [] (overFrames n limit t') = readFrames limit t
  /-- Texts that are written line by line are read as they were. -/
  reread : ∀ texts : List (String × LineEnd),
    (∀ x ∈ texts, '\n' ∉ x.1.toList ∧ '\r' ∉ x.1.toList) →
    Frame.payloads fs = written texts → (written texts).length ≤ limit → fault? rest = none →
    readFrames limit t = .ok (texts.map Prod.fst)

/-- **The payloads of the frames are read as lines of text if they are within
the limit**, and what is wrong with the frames is answered only then. -/
theorem frames_read (limit : Nat) (t : Transport) : ∃ fs rest, LinesRead limit t fs rest := by
  obtain ⟨fs, rest, hr⟩ := exists_longestRun t.bytes
  have heq : readFrames limit t =
      if limit < (Frame.payloads fs).length then .error (.outputTooLong limit)
      else (fault? rest).elim (.ok (linesOf (Frame.payloads fs))) .error :=
    readLines_overFrames (by decide) limit hr
  have hlines : (Frame.payloads fs).length ≤ limit → fault? rest = none →
      readFrames limit t = .ok (linesOf (Frame.payloads fs)) := by
    intro hl hf
    rw [heq, if_neg (Nat.not_lt.mpr hl), hf]
    rfl
  refine ⟨fs, rest, hr, fun n hn => FrameReader.readAll_start hn hr, ⟨?_, ?_⟩, ?_, hlines, ?_, ?_⟩
  · rintro ⟨e, he, -, hm⟩
    refine Decidable.byContradiction fun hl => ?_
    rw [heq, if_neg hl] at he
    cases hf : fault? rest with
    | none =>
      rw [hf] at he
      cases he
    | some e' =>
      rw [hf] at he
      cases he
      exact message_ne_of_fault? hf limit hm
  · intro hl
    exact ⟨.outputTooLong limit, by rw [heq, if_pos hl], rfl, rfl⟩
  · intro hl e he
    rw [heq, if_neg (Nat.not_lt.mpr hl), he]
    rfl
  · intro n hn t' gs rest' hr' hp hf
    rw [heq, readLines_overFrames hn limit hr', hp, hf]
  · intro texts ht hp hl hf
    rw [hlines (hp ▸ hl) hf, hp, linesOf_written ht]

end LineReader

end LintPatrol
