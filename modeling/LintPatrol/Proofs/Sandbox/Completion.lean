import LintPatrol.Proofs.Sandbox.Run

/-!
# LintPatrol.Proofs.Sandbox.Completion

What comes of a run of a container.  That it does end is shown by one measure,
`SandboxRun.left`: no turn raises it, and the turn that the run is waiting for
lowers it or ends the run.  So it is over after a number of rounds, in each of
which every kind of turn comes once at least, in any order.

## Main statements

* `Daemon.isEnded_rounds`: a run ends if every kind of turn comes again and
  again.
* `Daemon.exec_ran`: requests in order, a kill just if a container is known,
  the result of a run that ends, and that it ends.
-/

namespace LintPatrol

open SandboxStep

/-! ## What is waited for -/

/-- How many turns a request may still take, with those behind it. -/
def SandboxStep.rank : SandboxStep → Nat
  | pull => 10
  | create => 8
  | attach _ => 6
  | start _ => 4
  | wait _ => 2

namespace SandboxStage

/-- How many turns may still pass until the end of the container is known. -/
def rank : SandboxStage → Nat
  | ready step => step.rank
  | asked step => step.rank - 1
  | waited .. => 0
  | ended _ => 0

/-- The turn that it goes on with. -/
def awaits : SandboxStage → SandboxTurn
  | ready _ => .proceed
  | asked _ => .answer
  | _ => .output

/-- Is it the end? -/
def isEnded : SandboxStage → Bool
  | ended _ => true
  | _ => false

theorem isEnded_iff {stage : SandboxStage} : stage.isEnded = true ↔ ∃ r, stage = .ended r := by
  cases stage <;> simp [isEnded]

end SandboxStage

/-- How many pieces of the output may still be waited for, with its end. -/
def SandboxOutput.left (o : SandboxOutput) : Nat := o.coming.length + if o.isOver then 0 else 1

/-- How many turns may still be waited for. -/
def SandboxRun.left (run : SandboxRun) : Nat := run.stage.rank + run.output.left

theorem SandboxOutput.left_receive_le (o : SandboxOutput) : o.receive.left ≤ o.left := by
  fun_cases receive o with
  | case1 => simp [left]
  | case2 => simp [left]

/-- Once the end has been seen, or else something arrives. -/
theorem SandboxOutput.left_receive_lt (o : SandboxOutput) :
    o.receive.left < o.left ∨ o.receive.isOver = true := by
  fun_cases receive o with
  | case1 => exact .inl (by simp [left])
  | case2 => exact .inr rfl

namespace Daemon

variable {d : Daemon} {job : SandboxJob} {run : SandboxRun}

/-- An answer leads on, or to the end. -/
theorem rank_after_lt (d : Daemon) (job : SandboxJob) (step : SandboxStep) :
    (d.after job step).rank < step.rank - 1 := by
  have hfollow : ∀ {α : Type} (a : Except String α) (failed : String → SandboxError)
      (next : α → SandboxStage) (n : Nat), (∀ x, (next x).rank < n) → 0 < n →
      (follow a failed next).rank < n := by
    intro α a failed next n hnext hn
    cases a with
    | ok x => exact hnext x
    | error => exact hn
  cases step with
  | wait c => exact Nat.one_pos
  | _ =>
    exact hfollow _ _ _ _ (fun _ => by simp [SandboxStage.rank, SandboxStep.rank])
      (by simp [SandboxStep.rank])

/-- Settling changes nothing, or ends the run. -/
theorem settle_cases (d : Daemon) (job : SandboxJob) (run : SandboxRun) :
    d.settle job run = run ∨
      (d.settle job run).stage.isEnded = true ∧ (d.settle job run).left ≤ run.left := by
  obtain ⟨stage, log, output, container?⟩ := run
  cases stage with
  | waited c exit =>
    unfold settle
    simp only
    split
    · exact .inr ⟨rfl, Nat.le_refl _⟩
    · exact .inl rfl
  | _ => exact .inl rfl

/-- To notice the end leaves no more to do. -/
theorem left_settle_le (d : Daemon) (job : SandboxJob) (run : SandboxRun) :
    (d.settle job run).left ≤ run.left := by
  rcases d.settle_cases job run with heq | ⟨-, hle⟩
  · exact Nat.le_of_eq (congrArg _ heq)
  · exact hle

/-- A request that is sent leaves less to do. -/
theorem left_proceed (h : run.stage.awaits = .proceed) : (d.proceed job run).left < run.left := by
  obtain ⟨stage, log, output, container?⟩ := run
  cases stage with
  | ready step =>
    have hrank : 0 < step.rank := by cases step <;> exact Nat.succ_pos _
    unfold proceed
    simp only
    split
    · exact Nat.add_lt_add_right hrank _
    · exact Nat.add_lt_add_right (Nat.sub_lt hrank Nat.one_pos) _
  | _ => cases h

/-- So does one that is answered. -/
theorem left_respond (h : run.stage.awaits = .answer) : (d.respond job run).left < run.left := by
  obtain ⟨stage, log, output, container?⟩ := run
  cases stage with
  | asked step => exact Nat.add_lt_add_right (d.rank_after_lt job step) _
  | _ => cases h

/-- A turn that is not waited for does no harm. -/
theorem proceed_other (h : run.stage.awaits ≠ .proceed) : d.proceed job run = run := by
  obtain ⟨stage, log, output, container?⟩ := run
  cases stage with
  | ready step => exact absurd rfl h
  | _ => rfl

theorem respond_other (h : run.stage.awaits ≠ .answer) : d.respond job run = run := by
  obtain ⟨stage, log, output, container?⟩ := run
  cases stage with
  | asked step => exact absurd rfl h
  | _ => rfl

theorem stage_receive (run : SandboxRun) : run.receive.stage = run.stage := by
  unfold SandboxRun.receive
  split <;> rfl

/-- Output that arrives leaves no more to do. -/
theorem left_receive_le (run : SandboxRun) : run.receive.left ≤ run.left := by
  unfold SandboxRun.receive
  split
  · exact Nat.add_le_add_left run.output.left_receive_le _
  · exact Nat.le_refl _

/-- No turn adds to what is waited for. -/
theorem left_turn_le (d : Daemon) (job : SandboxJob) (run : SandboxRun) (t : SandboxTurn) :
    (d.turn job run t).left ≤ run.left := by
  cases t with
  | proceed =>
    by_cases h : run.stage.awaits = .proceed
    · exact Nat.le_of_lt (left_proceed h)
    · exact Nat.le_of_eq (congrArg _ (proceed_other h))
  | answer =>
    refine Nat.le_trans (d.left_settle_le job _) ?_
    by_cases h : run.stage.awaits = .answer
    · exact Nat.le_of_lt (left_respond h)
    · exact Nat.le_of_eq (congrArg _ (respond_other h))
  | output => exact Nat.le_trans (d.left_settle_le job _) (left_receive_le run)

/-- A run that has ended has ended. -/
theorem turn_of_isEnded (h : run.stage.isEnded = true) (t : SandboxTurn) :
    d.turn job run t = run := by
  obtain ⟨stage, log, output, container?⟩ := run
  obtain ⟨r, rfl⟩ := SandboxStage.isEnded_iff.mp h
  cases t <;> rfl

/-- **The turn that is waited for** brings the run nearer to its end. -/
theorem turn_awaited (d : Daemon) (job : SandboxJob) (h : run.stage.isEnded = false) :
    (d.turn job run run.stage.awaits).left < run.left ∨
      (d.turn job run run.stage.awaits).stage.isEnded = true := by
  cases hstage : run.stage with
  | ready step => exact .inl (left_proceed (by rw [hstage]; rfl))
  | asked step =>
    have hlt : (d.respond job run).left < run.left := left_respond (by rw [hstage]; rfl)
    exact .inl (Nat.lt_of_le_of_lt (d.left_settle_le job _) hlt)
  | ended r => simp [hstage, SandboxStage.isEnded] at h
  | waited c exit =>
    obtain ⟨stage, log, output, container?⟩ := run
    obtain rfl : stage = .waited c exit := hstage
    rcases output.left_receive_lt with hlt | hover
    · have hrun : SandboxRun.left ⟨.waited c exit, log, output.receive, container?⟩ <
          SandboxRun.left ⟨.waited c exit, log, output, container?⟩ := Nat.add_lt_add_left hlt _
      exact .inl (Nat.lt_of_le_of_lt (d.left_settle_le job _) hrun)
    · -- the end of the output has been seen, and so reading is at its end
      obtain ⟨lines, hlines⟩ := Option.isSome_iff_exists.mp
        (d.isSome_lines? job.limits.maxOutput c hover)
      right
      simp [SandboxStage.awaits, turn, SandboxRun.receive, SandboxStage.isReading, settle, hlines,
        SandboxStage.isEnded]

/-- Any other turn leaves the run where it stands, or ends it. -/
theorem turn_other (d : Daemon) (job : SandboxJob) {t : SandboxTurn}
    (h : t ≠ run.stage.awaits) :
    (d.turn job run t).stage = run.stage ∨ (d.turn job run t).stage.isEnded = true := by
  cases t with
  | proceed => exact .inl (congrArg _ (proceed_other (Ne.symm h)))
  | answer =>
    rw [turn, respond_other (Ne.symm h)]
    exact (d.settle_cases job run).imp (congrArg _) And.left
  | output =>
    refine (d.settle_cases job run.receive).imp (fun heq => ?_) And.left
    rw [turn, heq, stage_receive]

/-! ## Rounds -/

/-- A run that has ended changes no more. -/
theorem foldl_of_isEnded (h : run.stage.isEnded = true) (turns : List SandboxTurn) :
    turns.foldl (d.turn job) run = run := by
  induction turns with
  | nil => rfl
  | cons t turns ih => rw [List.foldl_cons, turn_of_isEnded h, ih]

/-- However it goes on, there is never more left to do. -/
theorem left_foldl_le (d : Daemon) (job : SandboxJob) (run : SandboxRun)
    (turns : List SandboxTurn) : (turns.foldl (d.turn job) run).left ≤ run.left := by
  induction turns generalizing run with
  | nil => exact Nat.le_refl _
  | cons t turns ih => exact Nat.le_trans (ih _) (d.left_turn_le job run t)

/-- Turns among which is the one that is waited for bring the run nearer to its
end. -/
theorem foldl_awaited (d : Daemon) (job : SandboxJob) {turns : List SandboxTurn}
    (h : run.stage.awaits ∈ turns) :
    (turns.foldl (d.turn job) run).left < run.left ∨
      (turns.foldl (d.turn job) run).stage.isEnded = true := by
  induction turns generalizing run with
  | nil => cases h
  | cons t turns ih =>
    rw [List.foldl_cons]
    by_cases hended : (d.turn job run t).stage.isEnded = true
    · exact .inr (by rwa [foldl_of_isEnded hended])
    have hopen : run.stage.isEnded = false := by
      by_contra hrun
      rw [turn_of_isEnded (by simpa using hrun)] at hended
      exact hrun (by simpa using hended)
    by_cases ht : t = run.stage.awaits
    · have hlt := (d.turn_awaited job hopen).resolve_right (ht ▸ hended)
      exact .inl (Nat.lt_of_le_of_lt (d.left_foldl_le job _ turns) (ht ▸ hlt))
    · have hstage := (d.turn_other job ht).resolve_right hended
      have hmem : (d.turn job run t).stage.awaits ∈ turns := by
        rw [hstage]
        exact (List.mem_cons.mp h).resolve_left (Ne.symm ht)
      exact (ih hmem).imp_left fun hlt => Nat.lt_of_lt_of_le hlt (d.left_turn_le job run t)

/-- **A run ends** if every kind of turn comes again and again. -/
theorem isEnded_rounds {rounds : List (List SandboxTurn)}
    (hfair : ∀ round ∈ rounds, ∀ t, t ∈ round) (hmany : run.left < rounds.length) :
    (rounds.flatten.foldl (d.turn job) run).stage.isEnded = true := by
  induction rounds generalizing run with
  | nil => cases hmany
  | cons round rounds ih =>
    obtain ⟨hround, hrounds⟩ := List.forall_mem_cons.mp hfair
    rw [List.flatten_cons, List.foldl_append]
    rcases d.foldl_awaited job (hround run.stage.awaits) with hlt | hended
    · exact ih hrounds (by rw [List.length_cons] at hmany; omega)
    · rwa [foldl_of_isEnded hended]

/-! ## What comes of a run -/

variable {stage : SandboxStage} {log : List SandboxEvent} {container? : Option String}
  {step : SandboxStep} {r : Except SandboxError (List String)}

/-- A run that has ended has come to what it stands at. -/
theorem Stands.comesTo (h : d.Stands job (.ended r) log container?) : d.ComesTo job r := by
  cases h with
  | unreachable reason hu => exact .connect hu
  | last _ _ _ _ hcomes => exact hcomes

/-- What has been sent is what leads up to a step that is reached, and perhaps the step. -/
theorem Stands.sent (h : d.Stands job stage log container?) :
    ∃ step, d.Reaches job step ∧ ∃ own, own <+: [.asked step, .answered step] ∧
      log = trace step.before ++ own := by
  cases h with
  | ready step hr => exact ⟨step, hr, [], List.nil_prefix, (List.append_nil _).symm⟩
  | asked step hr => exact ⟨step, hr, [.asked step], ⟨[.answered step], rfl⟩, rfl⟩
  | waited c hr => exact ⟨.wait c, hr, _, List.prefix_rfl, rfl⟩
  | unreachable => exact ⟨.pull, .pull, [], List.nil_prefix, rfl⟩
  | last step hr => exact ⟨step, hr, _, List.prefix_rfl, rfl⟩

/-- A request about a container comes behind the answer that named it. -/
theorem Reaches.container?_eq (h : d.Reaches job step) :
    step.container? =
      if .answered .create ∈ trace step.before then (d.created job).toOption else none := by
  have hnamed : ∀ c, step.container? = some c → (d.created job).toOption = some c := by
    intro c hc
    rw [h.created hc]
    rfl
  cases step with
  | pull => rfl
  | create => rfl
  | attach c => exact (hnamed c rfl).symm
  | start c => exact (hnamed c rfl).symm
  | wait c => exact (hnamed c rfl).symm

/-- A container is known just if it has been answered that it was created. -/
theorem Stands.container?_eq (h : d.Stands job stage log container?) :
    container? = if .answered .create ∈ log then (d.created job).toOption else none := by
  cases h with
  | ready step hr => exact hr.container?_eq
  | asked step hr => simpa using hr.container?_eq
  | waited c hr => exact hr.container?_eq
  | unreachable => rfl
  | last step hr hstopped =>
    by_cases hstep : step = .create
    · subst hstep
      cases hcreated : d.created job with
      | ok c => exact absurd (hstopped ⟨c, hcreated⟩) nofun
      | error => rfl
    · simpa [Ne.symm hstep] using hr.container?_eq

theorem left_begun (d : Daemon) : d.begun.left = 11 + d.begun.output.coming.length := by
  show 10 + (d.begun.output.coming.length + 1) = _
  omega

/-- What comes of a run that has these turns before its scope expires. -/
structure Ran (d : Daemon) (job : SandboxJob) (turns : List SandboxTurn) : Prop where
  /-- Requests are sent in one order, each after the answer to the one before,
  which was a success. -/
  sent : ∃ step, d.Reaches job step ∧ ∃ own, own <+: [.asked step, .answered step] ∧
    (d.run job turns).log = trace step.before ++ own
  /-- None of them kills. -/
  spared : ∀ c, .kill c ∉ (d.run job turns).requests job
  /-- A container is killed once, behind all else, if it has been answered that
  it was created. -/
  killed : ∀ c, .answered .create ∈ (d.run job turns).log → d.created job = .ok c →
    (d.exec job turns).requests = (d.run job turns).requests job ++ [.kill c]
  /-- Otherwise nothing is killed. -/
  unknown : (.answered .create ∈ (d.run job turns).log → ∀ c, d.created job ≠ .ok c) →
    (d.exec job turns).requests = (d.run job turns).requests job
  /-- A run that is over before its scope has expired has come to the one thing
  that it can come to. -/
  ended : ∀ r, (d.run job turns).stage = .ended r →
    (d.exec job turns).result = r ∧ ∀ r', d.ComesTo job r' ↔ r' = r
  /-- Otherwise it has been cut short. -/
  expired : (∀ r, (d.run job turns).stage ≠ .ended r) →
    (d.exec job turns).result = .error .cancelled
  /-- Whatever has happened, it will be over if requests are answered and output
  comes to its end. -/
  ends : ∀ rounds : List (List SandboxTurn), (∀ round ∈ rounds, ∀ t, t ∈ round) →
    12 + d.begun.output.coming.length ≤ rounds.length →
    ∃ r, (d.run job (turns ++ rounds.flatten)).stage = .ended r

/-- **A run keeps to its order, kills the container that it knows, and comes to
one thing only**, whatever the daemon does, in whatever order, and whenever the
scope expires. -/
theorem exec_ran (d : Daemon) (job : SandboxJob) (turns : List SandboxTurn) :
    d.Ran job turns := by
  have hstands := (d.sound_run job turns).stands
  have hrequests : (d.exec job turns).requests = (d.run job turns).requests job ++
      (if .answered .create ∈ (d.run job turns).log then (d.created job).toOption
        else none).toList.map .kill := by
    rw [← hstands.container?_eq]
    rfl
  constructor
  case sent => exact hstands.sent
  case spared =>
    intro c hmem
    obtain ⟨s, -, hs⟩ := List.mem_map.mp hmem
    exact s.request_ne_kill job c hs
  case killed =>
    intro c hanswered hcreated
    rw [hrequests, if_pos hanswered, hcreated]
    rfl
  case unknown =>
    intro huncreated
    rw [hrequests]
    split
    case isFalse => exact List.append_nil _
    case isTrue hanswered =>
      cases hcreated : d.created job with
      | ok c => exact absurd hcreated (huncreated hanswered c)
      | error => exact List.append_nil _
  case ended =>
    intro r hr
    rw [hr] at hstands
    refine ⟨by rw [exec, SandboxRun.finish, hr], fun r' => ⟨fun h => h.unique hstands.comesTo, ?_⟩⟩
    rintro rfl
    exact hstands.comesTo
  case expired =>
    intro hopen
    rw [exec, SandboxRun.finish]
    split
    case h_1 r hr => exact absurd hr (hopen r)
    case h_2 => rfl
  case ends =>
    intro rounds hfair hmany
    have hleft : (d.run job turns).left ≤ d.begun.left := d.left_foldl_le job d.begun turns
    rw [left_begun] at hleft
    rw [run, List.foldl_append]
    exact SandboxStage.isEnded_iff.mp (isEnded_rounds hfair (Nat.lt_of_le_of_lt hleft (by omega)))

end Daemon

end LintPatrol
