import LintPatrol.Proofs.Stream.Lines
import LintPatrol.Sandbox.Run

/-!
# LintPatrol.Proofs.Sandbox.Output

What comes of the output of a container, once all of it has arrived.
`Daemon.Reads` says it of the bytes, as frames and without a reader.  A reader
that gives up early has seen a part of them only; that makes no difference,
since too many bytes stay too many when others follow, and so does a frame that
is too long (`isOutputFault_stays`).

## Main statements

* `Daemon.Reads.unique`: nothing else comes of the same bytes.
* `Daemon.reads_of_lines?`: whatever a reader ends with, and whenever it does,
  comes of all the bytes.
-/

namespace LintPatrol

open LineReader

/-- Only a frame that is too long is the fault of the output, of what can be
wrong behind frames. -/
theorem fault?_isOutputFault {rest : List UInt8} {e : StreamError} (h : fault? rest = some e)
    (he : e.isOutputFault = true) : ∃ length, e = .frameTooLong length := by
  cases e with
  | frameTooLong length => exact ⟨length, rfl⟩
  | headerCut got => cases he
  | payloadCut got length => cases he
  | outputTooLong limit => exact absurd rfl (message_ne_of_fault? h limit)

/-- What reading a transport comes to, by the frames that it begins with. -/
theorem readFrames_eq (limit : Nat) {t : Transport} {fs : List Frame} {rest : List UInt8}
    (h : LongestRun t.bytes fs rest) :
    readFrames limit t =
      if limit < (Frame.payloads fs).length then .error (.outputTooLong limit)
      else (fault? rest).elim (.ok (linesOf (Frame.payloads fs))) .error :=
  readLines_overFrames (by decide) limit h

/-- **Output that is at fault stays so, and in the same way**, when more of it
arrives. -/
theorem isOutputFault_stays {limit : Nat} {t : Transport} {e : StreamError}
    (h : readFrames limit t = .error e) (he : e.isOutputFault = true) (more : Transport) :
    readFrames limit (t ++ more) = .error e := by
  obtain ⟨fs, rest, hrun⟩ := exists_longestRun t.bytes
  have hbytes : Transport.bytes (t ++ more) = t.bytes ++ more.bytes := List.flatten_append
  rw [readFrames_eq limit hrun] at h
  split at h
  case isTrue hlong =>
    cases h
    obtain ⟨gs, rest', hrun'⟩ := exists_longestRun (t.bytes ++ more.bytes)
    obtain ⟨hs, rfl⟩ := hrun.prefix_of_append hrun'
    have hlonger : limit < (Frame.payloads (fs ++ hs)).length := by
      rw [Frame.payloads, List.flatMap_append, List.length_append]
      exact Nat.lt_add_right _ hlong
    rw [readFrames_eq limit (hbytes ▸ hrun'), if_pos hlonger]
  case isFalse hfits =>
    cases hf : fault? rest with
    | none =>
      rw [hf] at h
      cases h
    | some e' =>
      rw [hf] at h
      cases h
      obtain ⟨length, rfl⟩ := fault?_isOutputFault hf he
      obtain ⟨hrun', hf'⟩ := hrun.append_of_frameTooLong hf more.bytes
      rw [readFrames_eq limit (hbytes ▸ hrun'), if_neg hfits, hf']
      rfl

namespace Daemon

/-- What comes of the output of a container: its lines, or why there are none. -/
inductive Reads (d : Daemon) (limit : Nat) (container : String) (bytes : List UInt8) :
    Except SandboxError (List String) → Prop
  | tooLong {fs : List Frame} {rest : List UInt8} (run : LongestRun bytes fs rest)
      (long : limit < (Frame.payloads fs).length) :
      Reads d limit container bytes
        (.error (.outputRejected container (StreamError.outputTooLong limit).message))
  | oversized {fs : List Frame} {rest : List UInt8} {length : Nat} (run : LongestRun bytes fs rest)
      (fits : (Frame.payloads fs).length ≤ limit)
      (fault : fault? rest = some (.frameTooLong length)) :
      Reads d limit container bytes
        (.error (.outputRejected container (StreamError.frameTooLong length).message))
  | broken {fs : List Frame} {rest : List UInt8} {reason : String} (run : LongestRun bytes fs rest)
      (fits : (Frame.payloads fs).length ≤ limit)
      (proper : ∀ length, fault? rest ≠ some (.frameTooLong length))
      (breaks : d.broken? = some reason) :
      Reads d limit container bytes (.error (.stream container reason))
  | cut {fs : List Frame} {rest : List UInt8} {e : StreamError} (run : LongestRun bytes fs rest)
      (fits : (Frame.payloads fs).length ≤ limit)
      (proper : ∀ length, e ≠ .frameTooLong length)
      (fault : fault? rest = some e) (closes : d.broken? = none) :
      Reads d limit container bytes (.error (.stream container e.message))
  | lines {fs : List Frame} (run : LongestRun bytes fs [])
      (fits : (Frame.payloads fs).length ≤ limit) (closes : d.broken? = none) :
      Reads d limit container bytes (.ok (linesOf (Frame.payloads fs)))

variable {d : Daemon} {limit : Nat} {container : String} {t : Transport} {o : SandboxOutput}
  {r r' : Except SandboxError (List String)}

/-- It is what a reader ends with that sees all of it. -/
theorem Reads.lines?_eq (h : d.Reads limit container t.bytes r) :
    d.lines? limit container ⟨t, [], true⟩ = some r := by
  cases h with
  | tooLong run long =>
    rw [lines?, readFrames_eq limit run, if_pos long]
    rfl
  | oversized run fits fault =>
    rw [lines?, readFrames_eq limit run, if_neg (Nat.not_lt.mpr fits), fault]
    rfl
  | broken run fits proper breaks =>
    rw [lines?, readFrames_eq limit run, if_neg (Nat.not_lt.mpr fits), breaks]
    cases hf : fault? _ with
    | none => rfl
    | some e =>
      have he : ¬ e.isOutputFault = true := fun he => by
        obtain ⟨length, rfl⟩ := fault?_isOutputFault hf he
        exact proper length hf
      simp [he]
  | @cut _ _ e run fits proper fault closes =>
    have he : ¬ e.isOutputFault = true := fun he => by
      obtain ⟨length, rfl⟩ := fault?_isOutputFault fault he
      exact proper length rfl
    rw [lines?, readFrames_eq limit run, if_neg (Nat.not_lt.mpr fits), fault, closes]
    simp [he]
  | lines run fits closes =>
    rw [lines?, readFrames_eq limit run, if_neg (Nat.not_lt.mpr fits), closes,
      (fault?_eq_none_iff []).mpr rfl]
    rfl

/-- Output reads in one way. -/
theorem Reads.unique (h : d.Reads limit container t.bytes r)
    (h' : d.Reads limit container t.bytes r') : r = r' :=
  Option.some.inj (h.lines?_eq.symm.trans h'.lines?_eq)

/-- Something comes of any bytes. -/
theorem exists_reads (d : Daemon) (limit : Nat) (container : String) (bytes : List UInt8) :
    ∃ r, d.Reads limit container bytes r := by
  obtain ⟨fs, rest, run⟩ := exists_longestRun bytes
  by_cases hlong : limit < (Frame.payloads fs).length
  · exact ⟨_, .tooLong run hlong⟩
  have fits := Nat.le_of_not_lt hlong
  by_cases hframe : ∃ length, fault? rest = some (.frameTooLong length)
  · obtain ⟨length, fault⟩ := hframe
    exact ⟨_, .oversized run fits fault⟩
  have proper : ∀ length, fault? rest ≠ some (.frameTooLong length) := not_exists.mp hframe
  cases hbroken : d.broken? with
  | some reason => exact ⟨_, .broken run fits proper hbroken⟩
  | none =>
    cases hf : fault? rest with
    | some e => exact ⟨_, .cut run fits (fun length he => proper length (he ▸ hf)) hf hbroken⟩
    | none =>
      obtain rfl := (fault?_eq_none_iff rest).mp hf
      exact ⟨_, .lines run fits hbroken⟩

/-- At the end of the output a reader is at its end. -/
theorem isSome_lines? (d : Daemon) (limit : Nat) (container : String) (h : o.isOver = true) :
    (d.lines? limit container o).isSome = true := by
  unfold lines?
  rw [h]
  split
  · split <;> rfl
  · rw [if_pos rfl]
    split <;> rfl

/-- A reader that is at its end before the output has given it up, as one that
sees all of it does. -/
theorem lines?_stays (h : d.lines? limit container o = some r) (hover : o.isOver = false) :
    d.lines? limit container ⟨o.arrived ++ o.coming, [], true⟩ = some r := by
  unfold lines? at h
  rw [hover] at h
  split at h
  case h_1 e he =>
    simp only [Bool.false_eq_true, if_false] at h
    split at h
    case isTrue hfault =>
      rw [lines?, isOutputFault_stays he hfault]
      simpa [hfault] using h
    case isFalse => cases h
  case h_2 => cases h

/-- **Whatever a reader ends with comes of all the output**, also if it does not
see all. -/
theorem reads_of_lines? (h : d.lines? limit container o = some r)
    (hover : o.isOver = true → o.coming = []) :
    d.Reads limit container (o.arrived ++ o.coming : Transport).bytes r := by
  obtain ⟨r', hr'⟩ := d.exists_reads limit container (o.arrived ++ o.coming : Transport).bytes
  suffices hall : d.lines? limit container ⟨o.arrived ++ o.coming, [], true⟩ = some r by
    obtain rfl := Option.some.inj (hall.symm.trans hr'.lines?_eq)
    exact hr'
  cases hover' : o.isOver with
  | false => exact lines?_stays h hover'
  | true =>
    obtain ⟨arrived, coming, isOver⟩ := o
    obtain rfl : isOver = true := hover'
    obtain rfl : coming = [] := hover rfl
    rwa [List.append_nil]

end Daemon

end LintPatrol
