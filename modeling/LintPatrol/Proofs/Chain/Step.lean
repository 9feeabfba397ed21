import LintPatrol.Chain.System

/-!
# LintPatrol.Proofs.Chain.Step

All that one step of a chain can do, said once: how a body goes on
(`Run.Advances`), what a station does (`Station.Does`), and what a step is
somewhere in the rest of a chain (`StepBelow`).  Whatever is proved of steps is
proved by cases on these.

## Main statements

* `Station.does_of_move`: every move of a station is one of these.
* `stepBelow_of_moveBelow`: so is every step behind the source.
* `System.emits_of_moveSource`: and what a source does that follows a script.
-/

namespace LintPatrol.Chain

variable {α : Type}

/-! ## bodies -/

/-- The act does nothing but pass. -/
def Act.isQuiet : Act α → Bool
  | sleep _ => true
  | scopeSleep _ => true
  | awaitExpiry => true
  | cancelStage => true
  | cancelRun => true
  | probe => true
  | produce _ => false
  | fail _ => false
  | crash => false

/-- The pause is one that the act leads to. -/
def Act.LeadsTo (act : Act α) : Pause → Prop
  | .ready => True
  | .sleeping _ => True
  | .expiry => act = .awaitExpiry
  | .scopeSleeping _ => ∃ length, act = .scopeSleep length

/-- A body that pauses, and has these acts left, ends with its failure. -/
inductive Ends (t : Timeline) (scope : Scope) : Pause → List (Act α) → Option Failure → Prop
  | nothing (pause : Pause) : Ends t scope pause [] none
  | fail (pause : Pause) (reason : Failure) (left : List (Act α)) :
    Ends t scope pause (.fail reason :: left) (some reason)
  | late (pause : Pause) (length : Nat) (left : List (Act α)) (expired : t.isExpired scope = true) :
    Ends t scope pause (.scopeSleep length :: left) (some (.plain Scope.expiredMessage))
  | woken (moment : Nat) (left : List (Act α)) (expired : t.isExpired scope = true) :
    Ends t scope (.scopeSleeping moment) left (some (.plain Scope.expiredMessage))

/-- The body of a run goes on: the run as it is then, and the items that are
handed on. -/
inductive Run.Advances (t : Timeline) (r : Run α) : Run α → List α → Prop
  | ends {pause : Pause} {left : List (Act α)} {own : Option Failure}
    (phase : r.phase = .working pause left) (ends : Ends t r.scope pause left own) :
    r.Advances t (r.finish t.now own) []
  | passes {pause : Pause} {act : Act α} {left : List (Act α)} (next : Pause)
    (probe : Option (Bool × Option Nat)) (phase : r.phase = .working pause (act :: left))
    (quiet : act.isQuiet = true) (leads : act.LeadsTo next) :
    r.Advances t { r.goOn next left with record := { r.record with probe } } []
  | produces {pause : Pause} {left : List (Act α)} (items : List α)
    (phase : r.phase = .working pause (.produce items :: left)) :
    r.Advances t { r.goOn .ready left with handles := r.handles ++ items.map fun _ => none } items

/-- A run goes on with the job that it began with. -/
theorem Run.Advances.job_eq {t : Timeline} {r r' : Run α} {items : List α}
    (h : r.Advances t r' items) : r'.job = r.job := by
  cases h <;> rfl

/-! ## stations -/

namespace Station

/-- What a station does. -/
inductive Does (t : Timeline) (s : Station α) : StationMove α → Prop
  | begins (job : Job α) (inbox : Inbox α) (current : s.current = none)
    (receive : s.inbox.receive = some (job, inbox)) : s.Does t (begin t s job inbox)
  | advances (r r' : Run α) (items : List α) (time : Timeline) (current : s.current = some r)
    (now : time.now = t.now) (advances : r.Advances t r' items) :
    s.Does t { time, station := { s with current := some r' }, products := r.jobs items }
  | crashes (r : Run α) (pause : Pause) (left : List (Act α)) (current : s.current = some r)
    (phase : r.phase = .working pause (.crash :: left)) : s.Does t (crash t s r)
  | reports (r : Run α) (own : Option Failure) (reports : List (Option Report))
    (current : s.current = some r) (phase : r.phase = .joining own)
    (came : outcomes? r.handles = some reports) : s.Does t (report t s r own reports)

variable {t : Timeline} {s : Station α} {m : StationMove α}

/-- The next act of a body is something that the station does. -/
theorem does_act {r : Run α} {pause : Pause} {left : List (Act α)} (hc : s.current = some r)
    (hp : r.phase = .working pause left) : s.Does t (act t s r left) := by
  have ends : ∀ own, Ends t r.scope pause left own →
      s.Does t { time := t, station := { s with current := some (r.finish t.now own) } } :=
    fun own he => .advances r _ [] t hc rfl (.ends hp he)
  cases left with
  | nil => exact ends _ (.nothing pause)
  | cons a left =>
    have passes : ∀ next probe time, a.isQuiet = true → a.LeadsTo next → time.now = t.now →
        s.Does t
          { time
            station :=
              { s with
                current := some { r.goOn next left with record := { r.record with probe } } } } :=
      fun next probe time hq hl hn => .advances r _ [] time hc hn (.passes next probe hp hq hl)
    cases a with
    | fail reason => exact ends _ (.fail pause reason left)
    | sleep length => exact passes (.sleeping _) r.record.probe t rfl trivial rfl
    | scopeSleep length =>
      rw [act]
      split
      next he => exact ends _ (.late pause length left he)
      next => exact passes (.scopeSleeping _) r.record.probe t rfl ⟨length, rfl⟩ rfl
    | awaitExpiry => exact passes .expiry r.record.probe t rfl rfl rfl
    | produce items => exact .advances r _ items t hc rfl (.produces items hp)
    | cancelStage => exact passes .ready r.record.probe _ rfl trivial rfl
    | cancelRun => exact passes .ready r.record.probe _ rfl trivial rfl
    | crash => exact .crashes r pause left hc hp
    | probe => exact passes .ready (some _) t rfl trivial rfl

/-- **All that a station can do.** -/
theorem does_of_move (h : s.move t = some m) : s.alive = true ∧ s.Does t m := by
  unfold move at h
  split at h
  next => cases h
  next halive =>
    refine ⟨by simpa using halive, ?_⟩
    cases hc : s.current with
    | none =>
      simp only [hc] at h
      obtain ⟨⟨job, inbox⟩, hi, rfl⟩ := Option.map_eq_some_iff.mp h
      exact .begins job inbox hc hi
    | some r =>
      simp only [hc] at h
      cases hp : r.phase with
      | joining own =>
        simp only [hp] at h
        obtain ⟨reports, ho, rfl⟩ := Option.map_eq_some_iff.mp h
        exact .reports r own reports hc hp ho
      | working pause left =>
        simp only [hp] at h
        cases hw : pause.waking? t r.scope with
        | none => simp [hw] at h
        | some waking =>
          cases waking with
          | proceed =>
            obtain rfl : act t s r left = m := by simpa [hw] using h
            exact does_act hc hp
          | expired =>
            obtain ⟨⟨moment, rfl⟩, he⟩ := Pause.scopeSleeping_of_waking? hw
            simp only [hw, Option.some.injEq] at h
            subst h
            exact .advances r _ [] t hc rfl (.ends hp (.woken moment left he))

end Station

/-! ## the rest of a chain -/

/-- Jobs that are offered change at most what is on its way to the first
station. -/
theorem offer_cases (jobs : List (Job α)) (stations : List (Station α)) (sink : Sink α) :
    (offer jobs stations sink).1 = stations ∨ ∃ s rest, stations = s :: rest ∧
      (offer jobs stations sink).1 = { s with inbox := s.inbox.add jobs } :: rest := by
  unfold offer
  cases stations with
  | nil =>
    simp only
    split <;> exact .inl rfl
  | cons s rest =>
    simp only
    split
    · exact .inr ⟨s, rest, rfl, rfl⟩
    · exact .inl rfl

/-- A step somewhere in the rest of a chain. -/
inductive StepBelow (t : Timeline) (sink : Sink α) : List (Station α) → Below α → Prop
  | sendSink (k : Nat) (inbox : Inbox α) (send : sink.inbox.send k = some inbox) :
    StepBelow t sink []
      { time := t, stations := [], sink := { sink with inbox }, completions := [] }
  | receive (job : Job α) (inbox : Inbox α) (receive : sink.inbox.receive = some (job, inbox)) :
    StepBelow t sink []
      { time := t
        stations := []
        sink :=
          { sink with
            inbox
            records := sink.records ++ [⟨job.item, t.now, t.isExpired job.scope⟩] }
        completions := [(sink.reaction job.item).completion job] }
  | send (s : Station α) (rest : List (Station α)) (k : Nat) (inbox : Inbox α)
    (send : s.inbox.send k = some inbox) :
    StepBelow t sink (s :: rest)
      { time := t, stations := { s with inbox } :: rest, sink, completions := [] }
  | work (s : Station α) (rest : List (Station α)) (m : StationMove α) (alive : s.alive = true)
    (does : s.Does t m) {stations : List (Station α)} {sink' : Sink α} {dropped : List Completion}
    (offered : offer m.products rest sink = (stations, sink', dropped)) :
    StepBelow t sink (s :: rest)
      { time := m.time
        stations := m.station.hear dropped :: stations
        sink := sink'
        completions := m.completions }
  | further (s : Station α) (rest : List (Station α)) (m : Below α)
    (step : StepBelow t sink rest m) :
    StepBelow t sink (s :: rest)
      { m with stations := s.hear m.completions :: m.stations, completions := [] }

/-- **All that a step behind the source can be.** -/
theorem stepBelow_of_moveBelow {t : Timeline} {step : Step} {i : Nat} {stations : List (Station α)}
    {sink : Sink α} {m : Below α} (h : moveBelow t step i stations sink = some m) :
    StepBelow t sink stations m := by
  induction i generalizing stations m with
  | zero =>
    cases stations with
    | nil =>
      cases step with
      | send k =>
        obtain ⟨inbox, hi, rfl⟩ := Option.map_eq_some_iff.mp h
        exact .sendSink k inbox hi
      | work =>
        obtain ⟨⟨job, inbox⟩, hi, rfl⟩ := Option.map_eq_some_iff.mp h
        exact .receive job inbox hi
    | cons s rest =>
      cases step with
      | send k =>
        obtain ⟨inbox, hi, rfl⟩ := Option.map_eq_some_iff.mp h
        exact .send s rest k inbox hi
      | work =>
        obtain ⟨sm, hs, rfl⟩ := Option.map_eq_some_iff.mp h
        obtain ⟨halive, hd⟩ := Station.does_of_move hs
        exact .work s rest sm halive hd rfl
  | succ i ih =>
    cases stations with
    | nil => cases h
    | cons s rest =>
      obtain ⟨m', hm', rfl⟩ := Option.map_eq_some_iff.mp h
      exact .further s rest m' (ih hm')

/-! ## the source -/

/-- A source that follows a script sends its next item down the chain. -/
theorem System.emits_of_moveSource {s s' : System α} {left : List (Emission α)} {waiting : Bool}
    {outcomes : List Outcome} (hs : s.source = .script left waiting outcomes)
    (hm : s.moveSource = some s') :
    waiting = false ∧ ∃ e left' time scope, left = e :: left' ∧
      s' = s.emit time (.script left' true outcomes) ⟨e.item, scope, 0⟩ := by
  simp only [moveSource, hs] at hm
  cases left with
  | nil => cases hm
  | cons e left =>
    cases waiting with
    | true => cases hm
    | false =>
      cases hm
      exact ⟨rfl, e, left, _, _, rfl, rfl⟩

end LintPatrol.Chain
