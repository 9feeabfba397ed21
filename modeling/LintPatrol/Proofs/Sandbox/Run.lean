import LintPatrol.Proofs.Sandbox.Output

/-!
# LintPatrol.Proofs.Sandbox.Run

A run of a container, whatever the daemon answers, in whatever order answers
and output come, and at whatever moment the scope expires.

`Daemon.Stands` says what a run can look like at each of its stages: what has
been sent and answered, and which container is known.  A turn keeps it
(`Sound.turn`), one case for each kind of turn, and so every run has it
(`sound_run`).  How a run can end is `Daemon.ComesTo`, a list of cases in which
no turn occurs; so the order of the turns makes no difference.

## Main statements

* `Daemon.ComesTo.unique`: a run that ends can end in one way only.
* `Daemon.sound_run`: what every run looks like.
-/

namespace LintPatrol

/-! ## Requests in order -/

namespace SandboxStep

/-- The requests before it. -/
def before : SandboxStep → List SandboxStep
  | pull => []
  | create => [pull]
  | attach _ => [pull, create]
  | start c => [pull, create, attach c]
  | wait c => [pull, create, attach c, start c]

/-- The container that it is about. -/
def container? : SandboxStep → Option String
  | pull => none
  | create => none
  | attach c => some c
  | start c => some c
  | wait c => some c

/-- Requests with their answers, one after the other. -/
def trace (steps : List SandboxStep) : List SandboxEvent :=
  steps.flatMap fun s => [.asked s, .answered s]

/-- None of them kills. -/
theorem request_ne_kill (job : SandboxJob) (s : SandboxStep) (c : String) :
    s.request job ≠ .kill c := by
  cases s <;> nofun

end SandboxStep

open SandboxStep

namespace Daemon

/-- Have the requests before it succeeded? -/
inductive Reaches (d : Daemon) (job : SandboxJob) : SandboxStep → Prop
  | pull : Reaches d job .pull
  | create (connected : d.unreachable? = none) (pulled : d.pulled job = .ok ()) :
      Reaches d job .create
  | attach {c : String} (reached : Reaches d job .create) (created : d.created job = .ok c) :
      Reaches d job (.attach c)
  | start {c : String} {t : Transport} (reached : Reaches d job (.attach c))
      (attached : d.attached c = .ok t) : Reaches d job (.start c)
  | wait {c : String} (reached : Reaches d job (.start c)) (started : d.started c = .ok ()) :
      Reaches d job (.wait c)

/-- Is its answer the one that is hoped for? -/
def Succeeds (d : Daemon) (job : SandboxJob) : SandboxStep → Prop
  | .pull => d.pulled job = .ok ()
  | .create => ∃ c, d.created job = .ok c
  | .attach c => ∃ t, d.attached c = .ok t
  | .start c => d.started c = .ok ()
  | .wait c => ∃ code, d.exitCode c = .ok code

/-- How a run ends that is not cut short. -/
inductive ComesTo (d : Daemon) (job : SandboxJob) : Except SandboxError (List String) → Prop
  | connect {reason : String} (unreachable : d.unreachable? = some reason) :
      ComesTo d job (.error (.connect job.socket reason))
  | pull {reason : String} (connected : d.unreachable? = none)
      (failed : d.pulled job = .error reason) :
      ComesTo d job (.error (.pull job.image reason))
  | create {reason : String} (reached : d.Reaches job .create)
      (failed : d.created job = .error reason) :
      ComesTo d job (.error (.create job.image reason))
  | attach {c reason : String} (reached : d.Reaches job (.attach c))
      (failed : d.attached c = .error reason) :
      ComesTo d job (.error (.attach c reason))
  | start {c reason : String} (reached : d.Reaches job (.start c))
      (failed : d.started c = .error reason) :
      ComesTo d job (.error (.start c reason))
  | wait {c reason : String} (reached : d.Reaches job (.wait c))
      (failed : d.exitCode c = .error reason) :
      ComesTo d job (.error (.wait c reason))
  | exit {c : String} {code : Int} (reached : d.Reaches job (.wait c))
      (exited : d.exitCode c = .ok code) (failed : code ≠ 0) :
      ComesTo d job (.error (.nonZeroExitCode code))
  | output {c : String} {t : Transport} {r : Except SandboxError (List String)}
      (reached : d.Reaches job (.wait c)) (exited : d.exitCode c = .ok 0)
      (attached : d.attached c = .ok t) (reads : d.Reads job.limits.maxOutput c t.bytes r) :
      ComesTo d job r

variable {d : Daemon} {job : SandboxJob} {step : SandboxStep}
  {r r' : Except SandboxError (List String)}

/-- Behind the first request there is a daemon. -/
theorem Reaches.connected (h : d.Reaches job step) (hne : step ≠ .pull) :
    d.unreachable? = none := by
  induction h with
  | pull => exact absurd rfl hne
  | create hc => exact hc
  | attach _ _ ih => exact ih nofun
  | start _ _ ih => exact ih nofun
  | wait _ _ ih => exact ih nofun

/-- A request about a container is about the one that has been created. -/
theorem Reaches.created {c : String} (h : d.Reaches job step) (hc : step.container? = some c) :
    d.created job = .ok c := by
  induction h with
  | pull => cases hc
  | create => cases hc
  | attach _ hcreated => rwa [← Option.some.inj hc]
  | start _ _ ih => exact ih hc
  | wait _ _ ih => exact ih hc

/-- A step is reached when all before it have succeeded. -/
theorem Reaches.succeeds (h : d.Reaches job step) : ∀ s ∈ step.before, d.Succeeds job s := by
  have hsnoc : ∀ {steps : List SandboxStep} {s : SandboxStep},
      (∀ s ∈ steps, d.Succeeds job s) → d.Succeeds job s → ∀ s' ∈ steps ++ [s], d.Succeeds job s' :=
    fun hsteps hs => List.forall_mem_append.mpr ⟨hsteps, List.forall_mem_singleton.mpr hs⟩
  induction h with
  | pull => nofun
  | create _ hp => exact List.forall_mem_singleton.mpr hp
  | attach _ hcreated ih => exact hsnoc ih ⟨_, hcreated⟩
  | start _ hattached ih => exact hsnoc ih ⟨_, hattached⟩
  | wait _ hstarted ih => exact hsnoc ih hstarted

/-- Of two requests that are reached one comes before the other. -/
theorem Reaches.comparable {step' : SandboxStep} (h : d.Reaches job step)
    (h' : d.Reaches job step') : step = step' ∨ step ∈ step'.before ∨ step' ∈ step.before := by
  have hsame : ∀ c c', step.container? = some c → step'.container? = some c' → c = c' :=
    fun c c' hc hc' => Except.ok.inj ((h.created hc).symm.trans (h'.created hc'))
  clear h h'
  cases step <;> cases step' <;> simp_all [before, container?]

/-- Output is read from a connection that has been made. -/
theorem Reaches.attached {c : String} (h : d.Reaches job (.wait c)) : ∃ t, d.attached c = .ok t :=
  h.succeeds (.attach c) (by simp [before])

/-! ## One way to end -/

/-- What a run comes to, request by request. -/
def outcome (d : Daemon) (job : SandboxJob) : Except SandboxError (List String) := do
  d.connection job.socket
  (d.pulled job).mapError (.pull job.image)
  let c ← (d.created job).mapError (.create job.image)
  let t ← (d.attached c).mapError (.attach c)
  (d.started c).mapError (.start c)
  verdict c (d.exitCode c)
    ((d.lines? job.limits.maxOutput c ⟨t, [], true⟩).getD (.error .cancelled))

/-- From the creation on, the outcome is that of the steps left. -/
theorem outcome_of_create (h : d.Reaches job .create) :
    d.outcome job = (do
      let c ← (d.created job).mapError (.create job.image)
      let t ← (d.attached c).mapError (.attach c)
      (d.started c).mapError (.start c)
      verdict c (d.exitCode c)
        ((d.lines? job.limits.maxOutput c ⟨t, [], true⟩).getD (.error .cancelled))) := by
  obtain - | ⟨hc, hp⟩ := h
  rw [outcome, connection, hc, hp]
  rfl

/-- So it is from the attachment on. -/
theorem outcome_of_attach {c : String} (h : d.Reaches job (.attach c)) :
    d.outcome job = (do
      let t ← (d.attached c).mapError (.attach c)
      (d.started c).mapError (.start c)
      verdict c (d.exitCode c)
        ((d.lines? job.limits.maxOutput c ⟨t, [], true⟩).getD (.error .cancelled))) := by
  obtain - | - | ⟨hreached, hcreated⟩ := h
  rw [outcome_of_create hreached, hcreated]
  rfl

/-- So it is from the start on. -/
theorem outcome_of_start {c : String} (h : d.Reaches job (.start c)) :
    ∃ t, d.attached c = .ok t ∧ d.outcome job = (do
      (d.started c).mapError (.start c)
      verdict c (d.exitCode c)
        ((d.lines? job.limits.maxOutput c ⟨t, [], true⟩).getD (.error .cancelled))) := by
  obtain - | - | - | ⟨hreached, hattached⟩ := h
  refine ⟨_, hattached, ?_⟩
  rw [outcome_of_attach hreached, hattached]
  rfl

/-- At the wait, it is what the exit code and the output say. -/
theorem outcome_of_wait {c : String} (h : d.Reaches job (.wait c)) :
    ∃ t, d.attached c = .ok t ∧ d.outcome job =
      verdict c (d.exitCode c)
        ((d.lines? job.limits.maxOutput c ⟨t, [], true⟩).getD (.error .cancelled)) := by
  obtain - | - | - | - | ⟨hreached, hstarted⟩ := h
  obtain ⟨t, hattached, houtcome⟩ := outcome_of_start hreached
  refine ⟨t, hattached, ?_⟩
  rw [houtcome, hstarted]
  rfl

/-- A run comes to the outcome of its job, and to nothing else. -/
theorem ComesTo.eq_outcome (h : d.ComesTo job r) : r = d.outcome job := by
  cases h with
  | connect hu => rw [outcome, connection, hu]; rfl
  | pull hc hp => rw [outcome, connection, hc, hp]; rfl
  | create hr hf => rw [outcome_of_create hr, hf]; rfl
  | attach hr hf => rw [outcome_of_attach hr, hf]; rfl
  | start hr hf =>
    obtain ⟨t, -, ho⟩ := outcome_of_start hr
    rw [ho, hf]
    rfl
  | wait hr hf =>
    obtain ⟨t, -, ho⟩ := outcome_of_wait hr
    rw [ho, hf]
    rfl
  | exit hr he hne =>
    obtain ⟨t, -, ho⟩ := outcome_of_wait hr
    rw [ho, he, verdict, if_pos hne]
  | output hr he hattached hreads =>
    obtain ⟨t', hattached', ho⟩ := outcome_of_wait hr
    obtain rfl := Except.ok.inj (hattached.symm.trans hattached')
    rw [ho, he, hreads.lines?_eq]
    rfl

/-- **A run that ends can end in one way only.** -/
theorem ComesTo.unique (h : d.ComesTo job r) (h' : d.ComesTo job r') : r = r' :=
  h.eq_outcome.trans h'.eq_outcome.symm

/-! ## What a run looks like -/

/-- What a run can look like: where it stands, what has been sent and answered,
and which container is known. -/
inductive Stands (d : Daemon) (job : SandboxJob) :
    SandboxStage → List SandboxEvent → Option String → Prop
  | ready (step : SandboxStep) (reached : d.Reaches job step) :
      Stands d job (.ready step) (trace step.before) step.container?
  | asked (step : SandboxStep) (reached : d.Reaches job step) (connected : d.unreachable? = none) :
      Stands d job (.asked step) (trace step.before ++ [.asked step]) step.container?
  | waited (c : String) (reached : d.Reaches job (.wait c)) :
      Stands d job (.waited c (d.exitCode c))
        (trace (before (.wait c)) ++ [.asked (.wait c), .answered (.wait c)]) (some c)
  | unreachable (reason : String) (unreachable : d.unreachable? = some reason) :
      Stands d job (.ended (.error (.connect job.socket reason))) [] none
  | last (step : SandboxStep) (reached : d.Reaches job step)
      (stopped : d.Succeeds job step → ∃ c, step = .wait c)
      (r : Except SandboxError (List String)) (comes : d.ComesTo job r) :
      Stands d job (.ended r) (trace step.before ++ [.asked step, .answered step]) step.container?

/-- What holds in every run, output included. -/
structure Sound (d : Daemon) (job : SandboxJob) (run : SandboxRun) : Prop where
  stands : d.Stands job run.stage run.log run.container?
  output : run.output.arrived ++ run.output.coming = d.begun.output.coming
  drained : run.output.isOver = true → run.output.coming = []

variable {run : SandboxRun}

/-- A run that begins is sound. -/
theorem sound_begun (d : Daemon) (job : SandboxJob) : d.Sound job d.begun where
  stands := .ready .pull .pull
  output := rfl
  drained := nofun

/-- The output that is read is that of the connection. -/
theorem coming_begun {c : String} {t : Transport} (h : d.attached c = .ok t) :
    d.begun.output.coming = t := by
  unfold attached answer at h
  cases hr : d.reply (.attach c) with
  | error => rw [hr] at h; cases h
  | ok reply =>
    rw [hr] at h
    cases hh : Attach.readHead d.output with
    | error => simp [hh, Except.bind, Except.mapError] at h
    | ok t' => simpa [hh, Except.bind, Except.mapError, begun, Except.toOption] using h

/-! ## One turn -/

/-- It is so when a request has been sent. -/
theorem Sound.proceed (h : d.Sound job run) : d.Sound job (d.proceed job run) := by
  obtain ⟨stage, log, output, container?⟩ := run
  obtain ⟨hstands, houtput, hover⟩ := h
  cases stage with
  | ready step =>
    obtain ⟨_, hreached⟩ := hstands
    cases hu : d.unreachable? with
    | none =>
      simp only [Daemon.proceed, connection, hu]
      exact ⟨.asked step hreached hu, houtput, hover⟩
    | some reason =>
      simp only [Daemon.proceed, connection, hu]
      obtain rfl : step = .pull := Decidable.byContradiction fun hne => by
        simp [hreached.connected hne] at hu
      exact ⟨.unreachable reason hu, houtput, hover⟩
  | _ => exact ⟨hstands, houtput, hover⟩

/-- An answer leads where it should. -/
theorem Stands.after (hreached : d.Reaches job step) (hc : d.unreachable? = none) :
    d.Stands job (d.after job step) (trace step.before ++ [.asked step, .answered step])
      (if step = .create then (d.created job).toOption else step.container?) := by
  cases step with
  | pull =>
    simp only [Daemon.after]
    cases hp : d.pulled job with
    | ok => exact .ready .create (.create hc hp)
    | error reason => exact .last .pull .pull (by simp [Succeeds, hp]) _ (.pull hc hp)
  | create =>
    simp only [Daemon.after]
    cases hp : d.created job with
    | ok c => exact .ready (.attach c) (.attach hreached hp)
    | error reason => exact .last .create hreached (by simp [Succeeds, hp]) _ (.create hreached hp)
  | attach c =>
    simp only [Daemon.after]
    cases hp : d.attached c with
    | ok t => exact .ready (.start c) (.start hreached hp)
    | error reason =>
      exact .last (.attach c) hreached (by simp [Succeeds, hp]) _ (.attach hreached hp)
  | start c =>
    simp only [Daemon.after]
    cases hp : d.started c with
    | ok => exact .ready (.wait c) (.wait hreached hp)
    | error reason =>
      exact .last (.start c) hreached (by simp [Succeeds, hp]) _ (.start hreached hp)
  | wait c => exact .waited c hreached

/-- It is so when one has been answered. -/
theorem Sound.respond (h : d.Sound job run) : d.Sound job (d.respond job run) := by
  obtain ⟨stage, log, output, container?⟩ := run
  obtain ⟨hstands, houtput, hover⟩ := h
  cases stage with
  | asked step =>
    obtain - | ⟨_, hreached, hc⟩ := hstands
    refine ⟨?_, houtput, hover⟩
    show d.Stands job (d.after job step) (trace step.before ++ [.asked step] ++ [.answered step]) _
    rw [List.append_assoc]
    exact .after hreached hc
  | _ => exact ⟨hstands, houtput, hover⟩

/-- It is so when output has arrived. -/
theorem Sound.receive (h : d.Sound job run) : d.Sound job run.receive := by
  unfold SandboxRun.receive
  split
  case isFalse => exact h
  case isTrue =>
    obtain ⟨stage, log, ⟨arrived, coming, isOver⟩, container?⟩ := run
    obtain ⟨hstands, houtput, hover⟩ := h
    cases coming with
    | nil => exact ⟨hstands, houtput, fun _ => rfl⟩
    | cons p ps =>
      refine ⟨hstands, ?_, fun hend => ?_⟩
      · exact (List.append_assoc arrived [p] ps).trans houtput
      · exact absurd (hover hend) (List.cons_ne_nil p ps)

/-- A container that has ended, with all that is known of its output. -/
theorem ComesTo.of_verdict {c : String} {lines : Except SandboxError (List String)} {t : Transport}
    (hreached : d.Reaches job (.wait c)) (hattached : d.attached c = .ok t)
    (hreads : d.Reads job.limits.maxOutput c t.bytes lines) :
    d.ComesTo job (verdict c (d.exitCode c) lines) := by
  cases hexit : d.exitCode c with
  | error reason => exact .wait hreached hexit
  | ok code =>
    by_cases hcode : code = 0
    · subst hcode
      exact .output hreached hexit hattached hreads
    · rw [verdict, if_pos hcode]
      exact .exit hreached hexit hcode

theorem Sound.settle (h : d.Sound job run) : d.Sound job (d.settle job run) := by
  obtain ⟨stage, log, output, container?⟩ := run
  cases stage with
  | waited c exit =>
    unfold Daemon.settle
    simp only
    cases hlines : d.lines? job.limits.maxOutput c output with
    | none => exact h
    | some lines =>
      obtain ⟨hstands, houtput, hover⟩ := h
      obtain - | - | ⟨_, hreached⟩ := hstands
      obtain ⟨t, hattached⟩ := hreached.attached
      have hreads := reads_of_lines? hlines hover
      rw [houtput, coming_begun hattached] at hreads
      exact ⟨.last (.wait c) hreached (fun _ => ⟨c, rfl⟩) _ (.of_verdict hreached hattached hreads),
        houtput, hover⟩
  | _ => exact h

/-- No turn makes it otherwise. -/
theorem Sound.turn (h : d.Sound job run) (t : SandboxTurn) : d.Sound job (d.turn job run t) := by
  cases t with
  | proceed => exact h.proceed
  | answer => exact h.respond.settle
  | output => exact h.receive.settle

/-- Every run looks as a run can look. -/
theorem sound_run (d : Daemon) (job : SandboxJob) (turns : List SandboxTurn) :
    d.Sound job (d.run job turns) := by
  induction turns using List.reverseRecOn with
  | nil => exact d.sound_begun job
  | append_singleton turns t ih =>
    rw [run, List.foldl_append]
    exact ih.turn t

end Daemon

end LintPatrol
