import LintPatrol.Proofs.Chain.Work
import LintPatrol.Role.Step

/-!
# LintPatrol.Proofs.Role.Timely

A chain whose stages are all on time: when the body of a stage ends, the scope
it worked in is not at its end, neither by its deadline nor by being cancelled.
Services may take as long as they like, and may take it into account what time
it is; so whether a chain is on time is said of each run of it, stage by stage
(`TimedChain.isOnTime`).

A body sees its scope last until it ends, so what it does within the scope is
not refused.  What a stage leaves is `World.step_of_produced` or
`World.step_of_failed`.
-/

namespace LintPatrol

open Chain Time

namespace World

variable {δ ε α β : Type}

/-! ## Stored data within a scope -/

/-- Calls take no time. -/
theorem time_of_call {s : Scope} {f : δ → α × δ} {answer : Option α} {w w' : World δ ε}
    (h : w.call s f = (answer, w')) : w'.time = w.time := by
  unfold call at h
  split at h <;> cases h <;> rfl

/-- A call within its time reaches stored data. -/
theorem call_of_live {s : Scope} {w : World δ ε} (h : w.time.isExpired s = false) (f : δ → α × δ) :
    w.call s f = (some (f w.data).1, { w with data := (f w.data).2 }) := by
  rw [call, h]
  rfl

/-- A call that comes too late is not made. -/
theorem call_of_expired {s : Scope} {w : World δ ε} (h : w.time.isExpired s = true)
    (f : δ → α × δ) : w.call s f = (none, w) := by
  rw [call, h]
  rfl

/-- A look within its time finds stored data. -/
theorem look_of_live {s : Scope} {w : World δ ε} (h : w.time.isExpired s = false) (f : δ → α) :
    w.look s f = some (f w.data) := by
  rw [look, h]
  rfl

/-! ## One stage -/

def stageScope (s : Scope) (timeout : Duration) (w : World δ ε) : Scope :=
  (w.time.child s timeout).1

/-- The world in which the body of a stage begins. -/
def atStage (s : Scope) (timeout : Duration) (w : World δ ε) : World δ ε :=
  { w with time := (w.time.child s timeout).2 }

section Stage

variable {name : String} {timeout : Duration}
  {body : Scope → α → World δ ε → Ending β × World δ ε} {rest : Rest δ ε β} {s : Scope} {a : α}
  {w w' : World δ ε}

/-- A stage reports what came of the items that its body produced. -/
theorem step_of_produced {items : List β}
    (h : body (w.stageScope s timeout) a (w.atStage s timeout) = (.produced items, w')) :
    step name timeout body rest s a w =
      (reportOf none (through rest s items w').1, (through rest s items w').2) := by
  simp only [stageScope, atStage] at h
  simp only [step, h]

/-- A stage that produces nothing is done. -/
theorem step_of_nothing
    (h : body (w.stageScope s timeout) a (w.atStage s timeout) = (.produced [], w')) :
    step name timeout body rest s a w = (none, w') := step_of_produced h

/-- A stage that produces one item passes on what comes of it. -/
theorem step_of_one {b : β}
    (h : body (w.stageScope s timeout) a (w.atStage s timeout) = (.produced [b], w')) :
    step name timeout body rest s a w = rest s b w' := by
  rw [step_of_produced h]
  have hreport : reportOf none [(rest s b w').1] = (rest s b w').1 := by
    cases (rest s b w').1 <;> rfl
  exact Prod.ext hreport rfl

/-- A stage reports the failure of its body, and nothing comes behind it. -/
theorem step_of_failed {reason : Failure}
    (h : body (w.stageScope s timeout) a (w.atStage s timeout) = (.failed reason, w')) :
    (step name timeout body rest s a w).1.isSome ∧ (step name timeout body rest s a w).2 = w' := by
  simp only [stageScope, atStage] at h
  simp only [step, h]
  refine ⟨?_, trivial⟩
  rw [← Option.ne_none_iff_isSome, ne_eq, reportOf_eq_none_iff]
  rintro ⟨⟨⟩, -⟩

/-- A stage that reports nothing has produced items of which nothing is reported
either. -/
theorem exists_produced_of_step_eq_none (h : (step name timeout body rest s a w).1 = none) :
    ∃ items w', body (w.stageScope s timeout) a (w.atStage s timeout) = (.produced items, w') ∧
      (∀ r ∈ (through rest s items w').1, r = none) ∧
      (step name timeout body rest s a w).2 = (through rest s items w').2 := by
  cases hbody : body (w.stageScope s timeout) a (w.atStage s timeout) with
  | mk ending w' =>
    cases ending with
    | crashed =>
      simp only [stageScope, atStage] at hbody
      simp [step, hbody] at h
    | failed reason =>
      have hfailed : (step name timeout body rest s a w).1.isSome := (step_of_failed hbody).1
      rw [h] at hfailed
      cases hfailed
    | produced items =>
      rw [step_of_produced hbody] at h ⊢
      exact ⟨items, w', rfl, ((reportOf_eq_none_iff _ _).mp h).2, rfl⟩

end Stage

end World

/-! ## Chains that are on time -/

/-- A chain, with what it takes for a run of it to be on time. -/
structure TimedChain (δ ε α : Type) where
  rest : World.Rest δ ε α
  isOnTime : Scope → α → World δ ε → Bool

namespace TimedChain

variable {δ ε α β : Type}

def done : TimedChain δ ε α := ⟨World.done, fun _ _ _ => true⟩

/-- Are all of some items on time, each when its turn comes? -/
def areOnTime (c : TimedChain δ ε α) (s : Scope) : List α → World δ ε → Bool
  | [], _ => true
  | a :: as, w => c.isOnTime s a w && areOnTime c s as (c.rest s a w).2

/-- One stage with the rest of the chain behind it.  It is on time if its body
ends before its scope does, and all it produces is on time. -/
def step (name : String) (timeout : Duration)
    (body : Scope → α → World δ ε → Ending β × World δ ε) (next : TimedChain δ ε β) :
    TimedChain δ ε α where
  rest := World.step name timeout body next.rest
  isOnTime s a w :=
    let inner := w.stageScope s timeout
    let (ending, w') := body inner a (w.atStage s timeout)
    !w'.time.isExpired inner &&
      match ending with
      | .produced items => next.areOnTime s items w'
      | _ => true

section Stage

variable {name : String} {timeout : Duration}
  {body : Scope → α → World δ ε → Ending β × World δ ε} {next : TimedChain δ ε β} {s : Scope}
  {a : α} {w w' : World δ ε}

/-- The scope of a stage that is on time outlasts its body. -/
theorem live_of_isOnTime (h : (step name timeout body next).isOnTime s a w = true) :
    (body (w.stageScope s timeout) a (w.atStage s timeout)).2.time.isExpired
      (w.stageScope s timeout) = false := by
  obtain ⟨hlive, -⟩ := Bool.and_eq_true_iff.mp h
  simpa using hlive

/-- What a stage that is on time produces is on time. -/
theorem areOnTime_of_isOnTime (h : (step name timeout body next).isOnTime s a w = true)
    {items : List β}
    (hbody : body (w.stageScope s timeout) a (w.atStage s timeout) = (.produced items, w')) :
    next.areOnTime s items w' = true := by
  obtain ⟨-, hnext⟩ := Bool.and_eq_true_iff.mp h
  rwa [hbody] at hnext

/-- A stage that is on time and produces one item is followed by the rest of
the chain, which is on time as well. -/
theorem one_of_isOnTime (h : (step name timeout body next).isOnTime s a w = true) {b : β}
    (hbody : body (w.stageScope s timeout) a (w.atStage s timeout) = (.produced [b], w')) :
    (step name timeout body next).rest s a w = next.rest s b w' ∧
      next.isOnTime s b w' = true := by
  have hnext := areOnTime_of_isOnTime h hbody
  rw [areOnTime, Bool.and_eq_true] at hnext
  exact ⟨World.step_of_one hbody, hnext.1⟩

end Stage

end TimedChain

end LintPatrol
