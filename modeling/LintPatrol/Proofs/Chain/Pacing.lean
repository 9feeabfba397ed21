import LintPatrol.Proofs.Chain.Completion
import LintPatrol.Proofs.Chain.Rhythm
import LintPatrol.Proofs.Chain.Scopes

/-!
# LintPatrol.Proofs.Chain.Pacing

A chain whose source repeats itself, in every schedule.  Steps are made in any
order, and the chain may be cancelled between any two of them; time passes,
though not past a step that the source could make (`System.Unfolds`).

The source stands where its rhythm says, and the chain behind it works on
nothing but what the source awaits the report on (`System.Paces`).

## Main statements

* `System.Paces.moveAt`: a step of the chain keeps the rhythm of its source.
* `System.Unfolds.paces`: so every schedule does.
* `System.Unfolds.silent`: nothing is emitted once the chain has been
  cancelled.
-/

namespace LintPatrol.Chain

open Time

variable {α : Type}

/-! ## what is noted of a step -/

/-- What is noted of a source that hears reports. -/
def hearing (t : Timeline) (root : Scope) (completions : List Completion) : List Beat :=
  completions.flatMap fun c =>
    .heard t.now c.report.isSome :: if t.isExpired root then [.ended t.now] else []

namespace System

/-- A chain of stages that have nothing to do yet, behind a source that repeats
itself; it is drained. -/
def periodic (root : Scope) (time : Timeline) (item : α) (ρ : Rhythm) (stages : List (Stage α)) :
    System α :=
  { root, time
    source := .periodic item ρ.failDelay ρ.successDelay .ready
    stations := stages.map .idle
    sink := .drain }

/-- What is noted of the source in a step. -/
def beats (choice : Choice) (s : System α) : List Beat :=
  match choice with
  | .source =>
    match s.source with
    | .periodic item _ _ .ready =>
      if s.time.isExpired s.root then [.ended s.time.now]
      else
        .emitted s.time.now ::
          hearing s.time s.root (offer [⟨item, s.root, 0⟩] s.stations s.sink).2.2
    | .periodic _ _ _ (.resting m) =>
      if m ≤ s.time.now then [] else if s.time.isExpired s.root then [.ended s.time.now] else []
    | _ => []
  | .place i step =>
    match moveBelow s.time step i s.stations s.sink with
    | some b => hearing b.time s.root b.completions
    | none => []

/-- Time may pass up to a moment: before it the source has no step to make. -/
def MayWait (s : System α) (moment : Nat) : Prop :=
  ∀ earlier, s.time.now ≤ earlier → earlier < moment → (s.wait earlier).moveSource = none

def cancel (s : System α) : System α := { s with time := s.time.cancel s.root.token }

/-- A schedule leads from one state of the chain to another, and this is noted
of the source: steps are made in any order, time passes at any moment but not
past a step of the source, and the chain may be cancelled at any moment. -/
inductive Unfolds (s : System α) : List Beat → System α → Prop
  | refl : Unfolds s [] s
  | move {log : List Beat} {s' s'' : System α} (choice : Choice) (h : Unfolds s log s')
    (hm : s'.moveAt choice = some s'') : Unfolds s (log ++ s'.beats choice) s''
  | wait {log : List Beat} {s' : System α} (moment : Nat) (h : Unfolds s log s')
    (prompt : s'.MayWait moment) : Unfolds s log (s'.wait moment)
  | cancel {log : List Beat} {s' : System α} (h : Unfolds s log s') : Unfolds s log s'.cancel

section moveSource

variable {s : System α} {item : α} {failDelay successDelay : Duration}

/-- A source that is about to emit has a step to make. -/
theorem moveSource_of_ready (hs : s.source = .periodic item failDelay successDelay .ready) :
    s.moveSource ≠ none := by
  simp only [moveSource, hs]
  split <;> simp

/-- So has one whose pause is over, or cut short. -/
theorem moveSource_of_resting {m : Nat}
    (hs : s.source = .periodic item failDelay successDelay (.resting m))
    (hm : m ≤ s.time.now ∨ s.time.isExpired s.root = true) : s.moveSource ≠ none := by
  simp only [moveSource, hs]
  split
  · simp
  next hlt =>
    rw [if_pos (hm.resolve_left hlt)]
    simp

end moveSource

/-! ## where the source stands -/

/-- The source keeps its rhythm, and the chain behind it works on what the
source awaits a report on. -/
structure Paces (ρ : Rhythm) (item : α) (s : System α) (log : List Beat) (pace : Pace)
    (b : Batch α) : Prop where
  source_eq : s.source = .periodic item ρ.failDelay ρ.successDelay pace
  stands : ρ.Stands s.time.now pace log.getLast?
  keeps : ρ.Keeps log
  cancelled : ∀ z, .ended z ∈ log → s.time.isExpired s.root = true
  awaited : if pace = .waiting then b = [⟨item, none⟩] else b = []
  accounted : ∃ done, Accounted s.sink s.stations b done

namespace Paces

variable {ρ : Rhythm} {item : α} {s s' : System α} {log : List Beat} {pace : Pace} {b : Batch α}

/-- At the start nothing has been emitted, and the source is ready. -/
theorem start (root : Scope) {time : Timeline} {stages : List (Stage α)}
    (hstart : time.now = ρ.start) (hs : ∀ st ∈ stages, ∀ item k, .crash ∉ st.body item k) :
    Paces ρ item (.periodic root time item ρ stages) [] .ready [] where
  source_eq := rfl
  stands := .first hstart
  keeps := ρ.keeps_nil
  cancelled _ h := absurd h List.not_mem_nil
  awaited := rfl
  accounted := ⟨[], accounted_idle hs⟩

/-- Only while a report is awaited something is on its way. -/
theorem batch_eq_nil (h : Paces ρ item s log pace b) (hp : pace ≠ .waiting) : b = [] := by
  have hb := h.awaited
  rwa [if_neg hp] at hb

/-- The source sends its item down the chain. -/
theorem emit (h : Paces ρ item s log .ready b) :
    (offer [⟨item, s.root, 0⟩] s.stations s.sink).2.2 = [] ∧
      Paces ρ item
        (s.emit s.time (.periodic item ρ.failDelay ρ.successDelay .waiting) ⟨item, s.root, 0⟩)
        (log ++ [.emitted s.time.now]) .waiting [⟨item, none⟩] := by
  obtain rfl := h.batch_eq_nil (by simp)
  obtain ⟨done, hacc⟩ := h.accounted
  rcases ho : offer [⟨item, s.root, 0⟩] s.stations s.sink with ⟨stations, sink, dropped⟩
  obtain ⟨-, rfl, hacc'⟩ := hacc.offer s.root [item] ho
  have hemit :
      s.emit s.time (.periodic item ρ.failDelay ρ.successDelay .waiting) ⟨item, s.root, 0⟩ =
        { s with
          stations, sink, source := .periodic item ρ.failDelay ρ.successDelay .waiting } := by
    unfold System.emit
    rw [ho]
    rfl
  refine ⟨rfl, ?_⟩
  rw [hemit]
  exact
    { source_eq := rfl
      stands := by
        rw [List.getLast?_concat]
        exact .waiting (Nat.le_refl _)
      keeps := h.keeps.emitted h.stands
      cancelled := fun z hz => h.cancelled z (by simpa using hz)
      awaited := rfl
      accounted := ⟨done, hacc'⟩ }

/-- The source stops. -/
theorem stop (h : Paces ρ item s log pace b) (hw : pace ≠ .waiting) (hp : pace ≠ .stopped)
    (he : s.time.isExpired s.root = true) :
    Paces ρ item { s with source := .periodic item ρ.failDelay ρ.successDelay .stopped }
      (log ++ [.ended s.time.now]) .stopped b where
  source_eq := rfl
  stands := by
    rw [List.getLast?_concat]
    exact .stopped
  keeps := h.keeps.ended h.stands hw hp
  cancelled _ _ := he
  awaited := h.batch_eq_nil hw
  accounted := h.accounted

/-- The pause of the source is over. -/
theorem wake {m : Nat} (h : Paces ρ item s log (.resting m) b) (hm : m ≤ s.time.now) :
    Paces ρ item { s with source := .periodic item ρ.failDelay ρ.successDelay .ready } log .ready
      b where
  source_eq := rfl
  stands := by
    obtain ⟨r, failed, hlast, rfl, -, hle⟩ := h.stands.of_resting
    rw [hlast]
    exact .due (Nat.le_antisymm hle hm)
  keeps := h.keeps
  cancelled := h.cancelled
  awaited := h.batch_eq_nil (by simp)
  accounted := h.accounted

/-- **A step of the source keeps its rhythm.** -/
theorem source (h : Paces ρ item s log pace b) (hm : s.moveSource = some s') :
    ∃ pace' b', Paces ρ item s' (log ++ s.beats .source) pace' b' := by
  simp only [moveSource, h.source_eq] at hm
  simp only [beats, h.source_eq]
  cases pace with
  | ready =>
    simp only at hm ⊢
    split at hm
    next he =>
      cases hm
      rw [if_pos he]
      exact ⟨_, _, h.stop (by simp) (by simp) he⟩
    next he =>
      cases hm
      obtain ⟨hdropped, hpaces⟩ := h.emit
      rw [if_neg he, hdropped]
      exact ⟨_, _, hpaces⟩
  | resting m =>
    simp only at hm ⊢
    split at hm
    next hle =>
      cases hm
      rw [if_pos hle, List.append_nil]
      exact ⟨_, _, h.wake hle⟩
    next hle =>
      split at hm
      next he =>
        cases hm
        rw [if_neg hle, if_pos he]
        exact ⟨_, _, h.stop (by simp) (by simp) he⟩
      next => cases hm
  | waiting => cases hm
  | stopped => cases hm

/-- The source hears the report that it awaits. -/
theorem hear (h : Paces ρ item s log .waiting b) {m : Below α} (hnow : m.time.now = s.time.now)
    (hleads : s.time.Leads m.time) {c : Completion} (hc : m.completions = [c])
    {done : List (Work α)} (hacc : Accounted m.sink m.stations [] done) :
    ∃ pace' b', Paces ρ item
      { s with
        time := m.time
        stations := m.stations
        sink := m.sink
        source := s.source.receiveAll m.time s.root m.completions }
      (log ++ hearing m.time s.root m.completions) pace' b' := by
  have hheard : ρ.Keeps (log ++ [.heard m.time.now c.report.isSome]) :=
    hnow ▸ h.keeps.heard h.stands c.report.isSome
  have hover : ∀ z, .ended z ∈ log ++ [.heard m.time.now c.report.isSome] →
      m.time.isExpired s.root = true := by
    intro z hz
    exact hleads.isExpired (h.cancelled z (by simpa using hz))
  rw [hc, h.source_eq]
  simp only [Source.receiveAll, List.foldl_cons, List.foldl_nil, Source.receive, hearing,
    List.flatMap_cons, List.flatMap_nil, List.append_nil]
  by_cases he : m.time.isExpired s.root = true
  · refine ⟨.stopped, [], ?_⟩
    rw [if_pos he, if_pos he, ← List.singleton_append, ← List.append_assoc]
    exact
      { source_eq := rfl
        stands := by
          rw [List.getLast?_concat]
          exact .stopped
        keeps := hheard.append List.getLast?_concat ⟨Nat.le_refl _, ρ.le_due _ _⟩
        cancelled := fun _ _ => he
        awaited := rfl
        accounted := ⟨done, hacc⟩ }
  · refine ⟨.resting (ρ.due m.time.now c.report.isSome), [], ?_⟩
    rw [if_neg he, if_neg he]
    exact
      { source_eq := rfl
        stands := by
          rw [List.getLast?_concat]
          exact .resting (Nat.le_refl _) (ρ.le_due _ _)
        keeps := hheard
        cancelled := hover
        awaited := rfl
        accounted := ⟨done, hacc⟩ }

/-- **A step behind the source leaves it its rhythm.** -/
theorem place (h : Paces ρ item s log pace b) {i : Nat} {step : Step} {m : Below α}
    (hm : moveBelow s.time step i s.stations s.sink = some m) :
    ∃ pace' b', Paces ρ item
      { s with
        time := m.time
        stations := m.stations
        sink := m.sink
        source := s.source.receiveAll m.time s.root m.completions }
      (log ++ hearing m.time s.root m.completions) pace' b' := by
  have hbelow := stepBelow_of_moveBelow hm
  have hleads := (turns_of_moveBelow hm).leads
  obtain ⟨done, hacc⟩ := h.accounted
  cases hacc.step hbelow with
  | quiet _ completions hacc' =>
    refine ⟨pace, b, ?_⟩
    rw [completions, hearing, List.flatMap_nil, List.append_nil]
    exact
      { source_eq := h.source_eq
        stands := hbelow.now_eq ▸ h.stands
        keeps := h.keeps
        cancelled := fun z hz => hleads.isExpired (h.cancelled z hz)
        awaited := h.awaited
        accounted := ⟨done, hacc'⟩ }
  | completes c p w _ completions piece _ hacc' =>
    -- only what the source has sent can be reported on
    obtain rfl : pace = .waiting := by
      by_contra hp
      rw [h.batch_eq_nil hp] at piece
      cases piece
    obtain rfl : b = [⟨item, none⟩] := h.awaited
    have hticket : c.ticket = 0 := by simpa using (List.getElem?_eq_some_iff.mp piece).1
    rw [hticket] at hacc'
    exact h.hear hbelow.now_eq hleads completions (hacc'.settle rfl)

/-- Time passes, though not past a step of the source. -/
theorem wait (h : Paces ρ item s log pace b) {moment : Nat} (hw : s.MayWait moment) :
    Paces ρ item (s.wait moment) log pace b where
  source_eq := h.source_eq
  stands := by
    have hmax : (s.wait moment).time.now = max s.time.now moment := rfl
    have hsource : ∀ earlier,
        (s.wait earlier).source = .periodic item ρ.failDelay ρ.successDelay pace :=
      fun _ => h.source_eq
    have hstands := h.stands
    rw [hmax]
    cases pace with
    | ready =>
      have hle : moment ≤ s.time.now := by
        by_contra hlt
        exact moveSource_of_ready (hsource s.time.now) (hw _ (Nat.le_refl _) (Nat.lt_of_not_le hlt))
      rwa [Nat.max_eq_left hle]
    | waiting =>
      generalize log.getLast? = last at hstands ⊢
      cases hstands with
      | waiting emitted => exact .waiting (Nat.le_trans emitted (Nat.le_max_left ..))
    | resting m =>
      obtain ⟨r, failed, hlast, rfl, hr, hle⟩ := hstands.of_resting
      have hm : moment ≤ ρ.due r failed := by
        by_contra hlt
        exact moveSource_of_resting (hsource (ρ.due r failed)) (.inl (Nat.le_max_right ..))
          (hw _ hle (Nat.lt_of_not_le hlt))
      rw [hlast]
      exact .resting (Nat.le_trans hr (Nat.le_max_left ..)) (Nat.max_le.mpr ⟨hle, hm⟩)
    | stopped =>
      generalize log.getLast? = last at hstands ⊢
      cases hstands
      exact .stopped
  keeps := h.keeps
  cancelled z hz := (Timeline.Leads.advanceTo _ moment).isExpired (h.cancelled z hz)
  awaited := h.awaited
  accounted := h.accounted

/-- That the chain is cancelled does not show until the source takes notice of it. -/
theorem cancel (h : Paces ρ item s log pace b) : Paces ρ item s.cancel log pace b :=
  { h with cancelled := fun z hz => (Timeline.Leads.cancel ..).isExpired (h.cancelled z hz) }

/-- **A step of the chain keeps the rhythm of its source.** -/
theorem moveAt (h : Paces ρ item s log pace b) {choice : Choice}
    (hm : s.moveAt choice = some s') :
    ∃ pace' b', Paces ρ item s' (log ++ s.beats choice) pace' b' := by
  cases choice with
  | source => exact h.source hm
  | place i step =>
    obtain ⟨m, hm', rfl⟩ := Option.map_eq_some_iff.mp hm
    have hbeats : s.beats (.place i step) = hearing m.time s.root m.completions := by
      simp only [beats, hm']
    rw [hbeats]
    exact h.place hm'

end Paces

/-! ## the scopes -/

/-- The scope of the chain has no deadline, and those of the stages descend
from it. -/
structure Founded (s : System α) : Prop where
  unbounded : s.root.deadline = none
  scopes : ∀ st ∈ s.stations, st.Scoped s.root.token s.time.now

namespace Founded

variable {s s' : System α}

/-- A step keeps the chain founded. -/
theorem moveAt (h : s.Founded) {choice : Choice} (hm : s.moveAt choice = some s') :
    s'.Founded := by
  have hroot := root_of_moveAt hm
  refine ⟨hroot ▸ h.unbounded, ?_⟩
  rw [hroot]
  exact kept_of_moveAt (Station.kept_scoped _) (fun _ hj => hj) hm h.scopes

/-- The passing of time does. -/
theorem wait (h : s.Founded) (moment : Nat) : (s.wait moment).Founded :=
  ⟨h.unbounded, kept_of_wait (Station.kept_scoped _) moment h.scopes⟩

/-- When the chain has been cancelled no body waits for the end of its scope
for ever. -/
theorem not_awaitsForever (h : s.Founded) (he : s.time.isExpired s.root = true) :
    ¬ ∃ st ∈ s.stations, AwaitsForever s.time st := by
  rintro ⟨st, hst, r, left, hr, -, hendless, -⟩
  have hscoped := (h.scopes st hst).current r hr
  obtain ⟨k, hscope⟩ := hscoped.scope
  have hcancelled : s.time.isCancelled s.root.token = true := by
    rw [Timeline.isExpired, Timeline.isPast, h.unbounded, Bool.or_false] at he
    exact he
  have hsuffix : s.root.token <:+ r.scope.token := by
    rw [hscope]
    exact hscoped.descends.trans (List.suffix_cons ..)
  exact absurd (Timeline.isExpired_of_suffix hcancelled hsuffix) (by simp [hendless.1])

end Founded

/-! ## schedules -/

section schedules

variable {root : Scope} {time : Timeline} {item : α} {ρ : Rhythm} {stages : List (Stage α)}
  {s s' : System α} {log : List Beat}

/-- Every schedule keeps the rhythm of the source. -/
theorem Unfolds.paces (hroot : root.deadline = none) (hstart : time.now = ρ.start)
    (hs : ∀ st ∈ stages, ∀ item k, .crash ∉ st.body item k)
    (h : Unfolds (.periodic root time item ρ stages) log s) :
    (∃ pace b, Paces ρ item s log pace b) ∧ s.Founded := by
  induction h with
  | refl =>
    refine ⟨⟨_, _, .start root hstart hs⟩, hroot, fun st hst => ?_⟩
    obtain ⟨stage, -, rfl⟩ := List.mem_map.mp hst
    exact Station.scoped_idle _ _ stage
  | move choice _ hm ih =>
    obtain ⟨⟨pace, b, hp⟩, hf⟩ := ih
    exact ⟨hp.moveAt hm, hf.moveAt hm⟩
  | wait moment _ prompt ih =>
    obtain ⟨⟨pace, b, hp⟩, hf⟩ := ih
    exact ⟨⟨pace, b, hp.wait prompt⟩, hf.wait moment⟩
  | cancel _ ih =>
    obtain ⟨⟨pace, b, hp⟩, hf⟩ := ih
    exact ⟨⟨pace, b, hp.cancel⟩, hf.unbounded, hf.scopes⟩

/-- To hear reports is not to emit. -/
theorem emitted_not_mem_hearing (t : Timeline) (root : Scope) (completions : List Completion)
    (m : Nat) : .emitted m ∉ hearing t root completions := by
  intro h
  obtain ⟨c, -, hc⟩ := List.mem_flatMap.mp h
  split at hc <;> simp at hc

/-- A source whose scope is at its end does not emit. -/
theorem emitted_not_mem_beats (he : s.time.isExpired s.root = true) (choice : Choice) (m : Nat) :
    .emitted m ∉ s.beats choice := by
  cases choice with
  | source =>
    simp only [beats, he, if_true]
    split
    · simp
    · split <;> simp
    · simp
  | place i step =>
    simp only [beats]
    split
    · exact emitted_not_mem_hearing _ _ _ m
    · simp

/-- **Nothing is emitted once the chain has been cancelled.** -/
theorem Unfolds.silent (h : Unfolds s log s') (he : s.time.isExpired s.root = true) :
    s'.time.isExpired s'.root = true ∧ ∀ m, .emitted m ∉ log := by
  induction h with
  | refl => exact ⟨he, fun _ h => absurd h List.not_mem_nil⟩
  | move choice _ hm ih =>
    obtain ⟨he', hlog⟩ := ih
    refine ⟨?_, fun m hmem => ?_⟩
    · rw [root_of_moveAt hm]
      exact (moveAt_leads hm).isExpired he'
    · rcases List.mem_append.mp hmem with hmem | hmem
      · exact hlog m hmem
      · exact emitted_not_mem_beats he' choice m hmem
  | wait moment _ _ ih => exact ⟨(Timeline.Leads.advanceTo _ moment).isExpired ih.1, ih.2⟩
  | cancel _ ih => exact ⟨(Timeline.Leads.cancel ..).isExpired ih.1, ih.2⟩

end schedules

end System

end LintPatrol.Chain
