import LintPatrol.Lint.Run
import LintPatrol.Proofs.Sandbox.Completion

/-!
# LintPatrol.Proofs.Sandbox.Flood

A linter that floods its output has failed, and a task whose linter has failed
is not run again.  But a flood does not end a run: only the reader gives up, and
the container is waited for as before.  If its scope expires first, the run has
been cut short like any other, and that is a temporary failure.

So a flood is recorded as a failure of the linter just if the end of the
container is answered in time (`flood_temporary_iff`), and a linter that writes
without end is run again after every lease (`endless_flood_temporary`).
-/

namespace LintPatrol

open LineReader SandboxStep

/-! ## Floods -/

/-- Is there more output than is accepted, or too long a frame announced? -/
def Floods (limit : Nat) (bytes : List UInt8) : Prop :=
  ∃ fs rest, LongestRun bytes fs rest ∧
    (limit < (Frame.payloads fs).length ∨ ∃ length, fault? rest = some (.frameTooLong length))

/-- A reader gives a flood up. -/
theorem Floods.readFrames {limit : Nat} {t : Transport} (h : Floods limit t.bytes) :
    ∃ e, readFrames limit t = .error e ∧ e.isOutputFault = true := by
  obtain ⟨fs, rest, hrun, hflood⟩ := h
  rw [readFrames_eq limit hrun]
  by_cases hlong : limit < (Frame.payloads fs).length
  · exact ⟨_, if_pos hlong, rfl⟩
  · obtain ⟨length, hlength⟩ := hflood.resolve_left hlong
    exact ⟨_, by rw [if_neg hlong, hlength]; rfl, rfl⟩

/-- There is no flood without output. -/
theorem not_floods_nil (limit : Nat) : ¬ Floods limit [] := by
  rintro ⟨fs, rest, hrun, hflood⟩
  obtain ⟨rfl, rfl⟩ := hrun.unique .empty
  rcases hflood with hlong | ⟨length, hlength⟩
  · exact Nat.not_lt_zero _ hlong
  · cases hlength

namespace Daemon

variable {d : Daemon} {job : SandboxJob} {run : SandboxRun} {c : String}

/-- Output that floods is rejected, whatever else comes. -/
theorem lines?_of_floods {o : SandboxOutput} (h : Floods job.limits.maxOutput o.arrived.bytes) :
    ∃ reason, d.lines? job.limits.maxOutput c o = some (.error (.outputRejected c reason)) := by
  obtain ⟨e, he, hfault⟩ := h.readFrames
  exact ⟨e.message, by rw [lines?, he]; exact if_pos hfault⟩

/-! ## Runs with output -/

/-- Output is read only of a container that has been started. -/
theorem Stands.reaches_wait {stage : SandboxStage} {log : List SandboxEvent}
    {container? : Option String} (h : d.Stands job stage log container?)
    (hreading : stage.isReading = true) : ∃ c, d.Reaches job (.wait c) := by
  cases h with
  | ready step hr =>
    cases step with
    | wait c => exact ⟨c, hr⟩
    | _ => cases hreading
  | asked step hr =>
    cases step with
    | wait c => exact ⟨c, hr⟩
    | _ => cases hreading
  | waited c hr => exact ⟨c, hr⟩
  | unreachable => cases hreading
  | last => cases hreading

theorem output_settle (d : Daemon) (job : SandboxJob) (run : SandboxRun) :
    (d.settle job run).output = run.output := by
  unfold settle
  split
  · split <;> rfl
  · rfl

theorem output_respond (d : Daemon) (job : SandboxJob) (run : SandboxRun) :
    (d.respond job run).output = run.output := by
  unfold respond
  split <;> rfl

theorem output_proceed (d : Daemon) (job : SandboxJob) (run : SandboxRun) :
    (d.proceed job run).output = run.output := by
  unfold proceed
  split
  · split <;> rfl
  · rfl

/-- Output arrives only when the end of the container is awaited. -/
theorem reaches_of_arrived {turns : List SandboxTurn}
    (h : (d.run job turns).output.arrived ≠ []) : ∃ c, d.Reaches job (.wait c) := by
  induction turns using List.reverseRecOn with
  | nil => exact absurd rfl h
  | append_singleton turns t ih =>
    have hstands := (d.sound_run job turns).stands
    rw [run, List.foldl_append, ← run, List.foldl_cons, List.foldl_nil] at h
    cases t with
    | proceed => exact ih (by rwa [turn, output_proceed] at h)
    | answer => exact ih (by rwa [turn, output_settle, output_respond] at h)
    | output =>
      by_cases hreading : (d.run job turns).stage.isReading = true
      · exact hstands.reaches_wait hreading
      · rw [turn, output_settle, SandboxRun.receive, if_neg hreading] at h
        exact ih h

/-- A run whose container has ended goes on only to read. -/
theorem lines?_of_waited {turns : List SandboxTurn} {exit : Except String Int}
    (h : (d.run job turns).stage = .waited c exit) :
    d.lines? job.limits.maxOutput c (d.run job turns).output = none := by
  have hsettle : ∀ run, (d.settle job run).stage = .waited c exit →
      d.lines? job.limits.maxOutput c (d.settle job run).output = none := by
    intro run hrun
    have hsame : d.settle job run = run := (d.settle_cases job run).resolve_right
      fun hended => by rw [hrun] at hended; cases hended.1
    rw [hsame] at hrun ⊢
    rw [settle, hrun] at hsame
    simp only at hsame
    split at hsame
    case h_1 lines hlines =>
      rw [← hsame] at hrun
      cases hrun
    case h_2 hnone => exact hnone
  induction turns using List.reverseRecOn with
  | nil => cases h
  | append_singleton turns t ih =>
    rw [run, List.foldl_append, ← run, List.foldl_cons, List.foldl_nil] at h ⊢
    cases t with
    | answer => exact hsettle _ h
    | output => exact hsettle _ h
    | proceed =>
      by_cases hawaits : (d.run job turns).stage.awaits = .proceed
      · -- a client that proceeds has not waited yet
        rw [turn, proceed] at h
        split at h
        · split at h <;> cases h
        · rw [h] at hawaits
          cases hawaits
      · rw [turn, proceed_other hawaits] at h ⊢
        exact ih h

/-! ## What a flood is recorded as -/

/-- No step comes behind the wait for the end. -/
theorem answered_wait_notMem (step : SandboxStep) (c : String) :
    .answered (.wait c) ∉ trace step.before := by
  cases step <;> simp [trace, before]

/-- A container that has been waited for, and has flooded its output. -/
theorem ComesTo.of_floods {arrived coming : Transport} {r : Except SandboxError (List String)}
    (hcomes : d.ComesTo job r) (hreached : d.Reaches job (.wait c))
    (houtput : arrived ++ coming = d.begun.output.coming)
    (hflood : Floods job.limits.maxOutput arrived.bytes) (linter : LinterImage) :
    ∃ e, r = .error e ∧
      ((∃ reason, LintFailure.ofSandbox linter e = .temporary reason) ↔
        ∃ reason, d.exitCode c = .error reason) := by
  cases hexit : d.exitCode c with
  | error reason =>
    have hr := hcomes.unique (.wait hreached hexit)
    exact ⟨_, hr, iff_of_true ⟨_, rfl⟩ ⟨reason, rfl⟩⟩
  | ok code =>
    by_cases hcode : code = 0
    · subst hcode
      obtain ⟨t, hattached⟩ := hreached.attached
      obtain ⟨reason, hlines⟩ := lines?_of_floods (d := d) (c := c) (o := ⟨arrived, coming, false⟩)
        hflood
      have hreads := reads_of_lines? hlines nofun
      rw [houtput, coming_begun hattached] at hreads
      have hr := hcomes.unique (.output hreached hexit hattached hreads)
      exact ⟨_, hr, iff_of_false (by rintro ⟨_, ⟨⟩⟩) (by rintro ⟨_, ⟨⟩⟩)⟩
    · have hr := hcomes.unique (.exit hreached hexit hcode)
      exact ⟨_, hr, iff_of_false (by rintro ⟨_, ⟨⟩⟩) (by rintro ⟨_, ⟨⟩⟩)⟩

/-- **A flood is a temporary failure** just if the end of the container has not
been answered when the scope expires, or cannot be learnt. -/
theorem flood_temporary_iff (d : Daemon) (job : SandboxJob) (turns : List SandboxTurn)
    (linter : LinterImage)
    (hflood : Floods job.limits.maxOutput (d.run job turns).output.arrived.bytes) :
    ∃ c e, d.Reaches job (.wait c) ∧ (d.exec job turns).result = .error e ∧
      ((∃ reason, LintFailure.ofSandbox linter e = .temporary reason) ↔
        .answered (.wait c) ∉ (d.run job turns).log ∨ ∃ reason, d.exitCode c = .error reason) := by
  have harrived : (d.run job turns).output.arrived ≠ [] := by
    intro hnil
    rw [hnil] at hflood
    exact not_floods_nil _ hflood
  obtain ⟨c, hreached⟩ := reaches_of_arrived harrived
  have hunwaited : ∀ c' exit, (d.run job turns).stage ≠ .waited c' exit := by
    intro c' exit hwaited
    obtain ⟨reason, hlines⟩ := lines?_of_floods (d := d) (c := c') hflood
    rw [lines?_of_waited hwaited] at hlines
    cases hlines
  obtain ⟨hstands, houtput, -⟩ := d.sound_run job turns
  rw [exec]
  generalize d.run job turns = run at *
  obtain ⟨stage, log, output, container?⟩ := run
  refine ⟨c, ?_⟩
  cases hstands with
  | ready step hr =>
    have hlog : .answered (.wait c) ∉ trace step.before := answered_wait_notMem step c
    exact ⟨.cancelled, hreached, rfl, iff_of_true ⟨_, rfl⟩ (.inl hlog)⟩
  | asked step hr =>
    have hlog : .answered (.wait c) ∉ trace step.before ++ [.asked step] := by
      simpa using answered_wait_notMem step c
    exact ⟨.cancelled, hreached, rfl, iff_of_true ⟨_, rfl⟩ (.inl hlog)⟩
  | waited c' => exact absurd rfl (hunwaited c' _)
  | unreachable reason hu =>
    rw [hreached.connected (by simp)] at hu
    cases hu
  | last step hr hstopped r hcomes =>
    -- it was the last request, since that is reached
    obtain rfl : step = .wait c := by
      rcases hr.comparable hreached with hsame | hbefore | hbefore
      · exact hsame
      · obtain ⟨c', rfl⟩ := hstopped (hreached.succeeds step hbefore)
        simp [before] at hbefore
      · cases step <;> simp [before] at hbefore
    obtain ⟨e, rfl, htemporary⟩ := hcomes.of_floods hreached houtput hflood linter
    have hlog : .answered (.wait c) ∈
        trace (before (.wait c)) ++ [.asked (.wait c), .answered (.wait c)] := by simp
    refine ⟨e, hreached, rfl, htemporary.trans (Iff.symm (or_iff_right ?_))⟩
    exact not_not_intro hlog

/-! ## A linter that writes without end -/

/-- A daemon whose container writes two bytes. -/
def talkative : Daemon where
  unreachable? := none
  reply
    | .create .. => .ok ⟨201, "\x7b\"Id\":\"c1\"\x7d"⟩
    | .wait _ => .ok ⟨200, "\x7b\"StatusCode\":0\x7d"⟩
    | _ => .ok ⟨200, ""⟩
  output := [Text.Utf8.bytes "HTTP/1.1 200 OK\r\n\r\n", [1, 0, 0, 0, 0, 0, 0, 2, 120, 120]]
  broken? := none

/-- A job that may write one byte. -/
def terse : SandboxJob := ⟨"/var/run/docker.sock", ⟨0, 0, 0, 1⟩, "lint", "/src", "/tmp/repo"⟩

/-- The turns until the container has been started, the wait for its end has
begun, and its output has arrived. -/
def flooded : List SandboxTurn :=
  [.proceed, .answer, .proceed, .answer, .proceed, .answer, .proceed, .answer, .proceed,
   .output, .output]

theorem arrived_flooded :
    (talkative.run terse flooded).output.arrived = [[], [1, 0, 0, 0, 0, 0, 0, 2, 120, 120]] := by
  decide +kernel

/-- Two bytes are more than the one that is accepted. -/
theorem floods_flooded :
    Floods terse.limits.maxOutput (talkative.run terse flooded).output.arrived.bytes := by
  let f : Frame := ⟨[1, 0, 0, 0, 0, 0, 0, 2], [120, 120], rfl, rfl, by decide⟩
  have hrun : LongestRun (f.bytes ++ []) [f] [] := LongestRun.empty.cons
  rw [arrived_flooded]
  exact ⟨[f], [], hrun, .inl (by decide)⟩

/-- Two bytes are too many, and the end of the container is not answered. -/
theorem flood_temporary_iff_unanswered :
    Floods terse.limits.maxOutput (talkative.run terse flooded).output.arrived.bytes ∧
      ∃ e, (talkative.exec terse flooded).result = .error e ∧
        ∃ reason, LintFailure.ofSandbox default e = .temporary reason := by
  obtain ⟨c, e, -, hresult, hiff⟩ :=
    flood_temporary_iff talkative terse flooded default floods_flooded
  have hlog : (talkative.run terse flooded).log =
      trace [.pull, .create, .attach "c1", .start "c1"] ++ [.asked (.wait "c1")] := by decide +kernel
  have hunanswered : .answered (.wait c) ∉ (talkative.run terse flooded).log := by
    rw [hlog]
    simp [trace]
  exact ⟨floods_flooded, e, hresult, hiff.mpr (.inl hunanswered)⟩

/-- **A linter that floods its output and goes on is run again**, although its end
could have been learnt. -/
theorem endless_flood_temporary :
    ¬ ∀ (d : Daemon) (job : SandboxJob) (turns : List SandboxTurn) (linter : LinterImage),
      Floods job.limits.maxOutput (d.run job turns).output.arrived.bytes →
      ∀ e, (d.exec job turns).result = .error e →
        (∃ reason, LintFailure.ofSandbox linter e = .temporary reason) →
        ∃ c reason, d.Reaches job (.wait c) ∧ d.exitCode c = .error reason := by
  intro h
  have hresult : (talkative.exec terse flooded).result = .error .cancelled := by decide +kernel
  obtain ⟨c, reason, -, hfailed⟩ :=
    h talkative terse flooded default floods_flooded .cancelled hresult ⟨_, rfl⟩
  have hexit : talkative.exitCode c = .ok 0 :=
    calc talkative.exitCode c = talkative.exitCode "c1" := rfl
      _ = .ok 0 := by decide +kernel
  rw [hexit] at hfailed
  cases hfailed

end Daemon

end LintPatrol
