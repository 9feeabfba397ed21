import LintPatrol.Proofs.Chain.Kept

/-!
# LintPatrol.Proofs.Chain.Order

The runs of one station do not overlap: a run begins when the one before has
ended.  This holds whatever the bodies do, also of a station that crashes,
since a crashed station begins with nothing any more.

## Main statements

* `Station.Timely.records`: of two runs the former has ended when the latter
  begins.
* `System.Reaches.timely`: every schedule keeps it so.
* `System.moveAt_begins`: a station that begins with a job in a step worked on
  nothing before.
-/

namespace LintPatrol.Chain

variable {α : Type}

/-- The first run had ended when the second one began. -/
def RunRecord.Before (a b : RunRecord α) : Prop :=
  ∃ moment good, a.finish = some (moment, good) ∧ moment ≤ b.start

namespace Run.Advances

variable {t : Timeline} {r r' : Run α} {items : List α}

theorem start_eq (h : r.Advances t r' items) : r'.record.start = r.record.start := by
  cases h <;> rfl

/-- A body that has ended has done so by now. -/
theorem finish (h : r.Advances t r' items) {own : Option Failure} (hp : r'.phase = .joining own) :
    ∃ moment good, r'.record.finish = some (moment, good) ∧ moment ≤ t.now := by
  cases h with
  | ends => exact ⟨t.now, _, rfl, Nat.le_refl _⟩
  | passes => cases hp
  | produces => cases hp

end Run.Advances

namespace Station

/-- The runs of a station lie one after the other, and up to now. -/
structure Timely (now : Nat) (s : Station α) : Prop where
  past : s.past.Pairwise fun later earlier => earlier.Before later
  ended : s.alive = true → ∀ a ∈ s.past, ∃ moment good,
    a.finish = some (moment, good) ∧ moment ≤ now
  started : ∀ r, s.current = some r → ∀ a ∈ s.past, a.Before r.record
  joining : ∀ r own, s.current = some r → r.phase = .joining own → ∃ moment good,
    r.record.finish = some (moment, good) ∧ moment ≤ now

namespace Timely

variable {s : Station α} {now : Nat}

/-- The runs that were noted do not overlap. -/
theorem records (h : s.Timely now) : s.records.Pairwise RunRecord.Before := by
  rw [Station.records, List.pairwise_append, List.pairwise_reverse]
  refine ⟨h.past, ?_, fun a ha b hb => ?_⟩
  · cases s.current <;> simp
  · cases hc : s.current with
    | none => simp [hc] at hb
    | some r =>
      obtain rfl : b = r.record := by simpa [hc] using hb
      exact h.started r hc a (List.mem_reverse.mp ha)

/-- A station that works on nothing. -/
theorem of_past (hp : s.past.Pairwise fun later earlier => earlier.Before later)
    (he : s.alive = true → ∀ a ∈ s.past, ∃ moment good,
      a.finish = some (moment, good) ∧ moment ≤ now)
    (hc : s.current = none) : s.Timely now where
  past := hp
  ended := he
  started r h := by
    rw [hc] at h
    cases h
  joining r own h := by
    rw [hc] at h
    cases h

theorem idle (stage : Stage α) (now : Nat) : (Station.idle stage).Timely now :=
  of_past .nil (fun _ _ h => absurd h List.not_mem_nil) rfl

/-- What is in time now is in time later. -/
theorem mono {later : Nat} (h : s.Timely now) (hl : now ≤ later) : s.Timely later where
  past := h.past
  ended ha a hm := by
    obtain ⟨moment, good, hf, hle⟩ := h.ended ha a hm
    exact ⟨moment, good, hf, Nat.le_trans hle hl⟩
  started := h.started
  joining r own hc hp := by
    obtain ⟨moment, good, hf, hle⟩ := h.joining r own hc hp
    exact ⟨moment, good, hf, Nat.le_trans hle hl⟩

theorem inbox (h : s.Timely now) (inbox : Inbox α) : Timely now { s with inbox } :=
  ⟨h.past, h.ended, h.started, h.joining⟩

/-- The work goes on: when the run began stays. -/
theorem current {r r' : Run α} (h : s.Timely now) (hc : s.current = some r)
    (hs : r'.record.start = r.record.start)
    (hj : ∀ own, r'.phase = .joining own → ∃ moment good,
      r'.record.finish = some (moment, good) ∧ moment ≤ now) :
    Timely now { s with current := some r' } := by
  refine ⟨h.past, h.ended, ?_, ?_⟩
  · rintro _ ⟨⟩ a ha
    obtain ⟨moment, good, hf, hle⟩ := h.started r hc a ha
    exact ⟨moment, good, hf, hs ▸ hle⟩
  · rintro _ own ⟨⟩
    exact hj own

theorem hear (h : s.Timely now) (completions : List Completion) :
    (s.hear completions).Timely now := by
  rcases s.hear_cases completions with hs | ⟨r, handles, hc, hs⟩
  · rwa [hs]
  · rw [hs]
    exact h.current hc rfl fun own => h.joining r own hc

/-- What a station does keeps its runs one after the other. -/
theorem does {t : Timeline} {m : StationMove α} (h : s.Timely t.now)
    (halive : s.alive = true) (hd : s.Does t m) : m.station.Timely t.now := by
  cases hd with
  | begins job inbox current receive =>
    refine ⟨h.past, h.ended, ?_, ?_⟩
    · rintro _ ⟨⟩ a ha
      exact h.ended halive a ha
    · rintro _ own ⟨⟩ hp
      cases hp
  | advances r r' items time current now advances =>
    exact h.current current advances.start_eq fun _ => advances.finish
  | crashes r pause left current phase =>
    exact .of_past (List.pairwise_cons.mpr ⟨h.started r current, h.past⟩) (fun h => nomatch h) rfl
  | reports r own reports current phase came =>
    refine .of_past (List.pairwise_cons.mpr ⟨h.started r current, h.past⟩) (fun _ a ha => ?_) rfl
    rcases List.mem_cons.mp ha with rfl | ha
    · exact h.joining r own current phase
    · exact h.ended halive a ha

end Timely

/-- **What happens to a station keeps its runs one after the other.** -/
theorem kept_timely : Kept (α := α) Timely fun _ => True where
  later := .mono
  add h _ := h.inbox _
  send h _ := h.inbox _
  hear completions h := h.hear completions
  does h halive hd := ⟨h.does halive hd, fun _ _ => trivial⟩

end Station

def AllTimely (now : Nat) (stations : List (Station α)) : Prop := ∀ s ∈ stations, s.Timely now

/-! ## beginning -/

namespace Station

variable {s : Station α}

@[simp] theorem records_hear (s : Station α) (completions : List Completion) :
    (s.hear completions).records = s.records := by
  rcases s.hear_cases completions with h | ⟨r, handles, hc, h⟩
  · rw [h]
  · simp [h, records, hc]

/-- Only a station that works on nothing begins with a job. -/
theorem Does.current_of_begins {t : Timeline} {m : StationMove α} (hd : s.Does t m)
    (h : s.records.length < m.station.records.length) : s.current = none := by
  cases hd with
  | begins job inbox current => exact current
  | advances r r' items time current => simp [records, current] at h
  | crashes r pause left current => simp [records, crash, current] at h
  | reports r own reports current => simp [records, report, current] at h

end Station

/-- Jobs that are offered change nothing of what is noted. -/
theorem records_offer (jobs : List (Job α)) (stations : List (Station α)) (sink : Sink α) :
    (offer jobs stations sink).1.map Station.records = stations.map Station.records := by
  rcases offer_cases jobs stations sink with h | ⟨s, rest, rfl, h⟩
  · rw [h]
  · rw [h]
    rfl

/-- An offer lets no station begin with a job. -/
theorem not_begins_of_offer {stations : List (Station α)} (jobs : List (Job α)) (sink : Sink α)
    {j : Nat} {s s' : Station α} (hs : stations[j]? = some s)
    (hs' : (offer jobs stations sink).1[j]? = some s') :
    ¬ s.records.length < s'.records.length := by
  have hr := congrArg (fun records => records[j]?) (records_offer jobs stations sink)
  simp only [List.getElem?_map, hs, hs', Option.map_some, Option.some.injEq] at hr
  rw [hr]
  exact Nat.lt_irrefl _

/-- **A station that begins with a job in a step worked on nothing before.** -/
theorem StepBelow.begins {t : Timeline} {stations : List (Station α)} {sink : Sink α} {m : Below α}
    (hm : StepBelow t sink stations m) {j : Nat} {s s' : Station α} (hs : stations[j]? = some s)
    (hs' : m.stations[j]? = some s') (h : s.records.length < s'.records.length) :
    s.current = none := by
  induction hm generalizing j with
  | sendSink => cases hs
  | receive => cases hs
  | send head rest k inbox =>
    cases j with
    | zero =>
      cases hs
      cases hs'
      exact absurd h (Nat.lt_irrefl _)
    | succ j =>
      cases hs.symm.trans hs'
      exact absurd h (Nat.lt_irrefl _)
  | work head rest m alive does offered =>
    cases j with
    | zero =>
      cases hs
      cases hs'
      rw [Station.records_hear] at h
      exact does.current_of_begins h
    | succ j =>
      have hr : rest[j]? = some s := hs
      refine absurd h (not_begins_of_offer m.products sink hr ?_)
      rw [offered]
      exact hs'
  | further head rest m step ih =>
    cases j with
    | zero =>
      cases hs
      cases hs'
      rw [Station.records_hear] at h
      exact absurd h (Nat.lt_irrefl _)
    | succ j => exact ih hs hs'

/-! ## schedules -/

namespace System

/-- A schedule leads from one state of the chain to another: steps are made in
any order, and time may pass at any moment. -/
inductive Reaches (s : System α) : System α → Prop
  | refl : Reaches s s
  | move {s' s'' : System α} (choice : Choice) (h : Reaches s s')
    (hm : s'.moveAt choice = some s'') : Reaches s s''
  | wait {s' : System α} (moment : Nat) (h : Reaches s s') : Reaches s (s'.wait moment)

/-- **In every state that a schedule leads to, the runs of one station lie one
after the other.** -/
theorem Reaches.timely {s s' : System α} (hr : Reaches s s')
    (h : AllTimely s.time.now s.stations) : AllTimely s'.time.now s'.stations := by
  induction hr with
  | refl => exact h
  | move choice _ hm ih => exact kept_of_moveAt Station.kept_timely (fun _ _ => trivial) hm ih
  | wait moment _ ih => exact kept_of_wait Station.kept_timely moment ih

/-- A station that begins with a job in a step of the chain worked on nothing
before. -/
theorem moveAt_begins {s s' : System α} {choice : Choice} {j : Nat} {st st' : Station α}
    (hm : s.moveAt choice = some s') (hs : s.stations[j]? = some st)
    (hs' : s'.stations[j]? = some st') (h : st.records.length < st'.records.length) :
    st.current = none := by
  cases choice with
  | source =>
    rcases (offers_of_moveSource hm).stations with he | ⟨job, -, he⟩
    · rw [he] at hs'
      cases hs.symm.trans hs'
      exact absurd h (Nat.lt_irrefl _)
    · rw [he] at hs'
      exact absurd h (not_begins_of_offer [job] s.sink hs hs')
  | place i step =>
    obtain ⟨m, hm', rfl⟩ := Option.map_eq_some_iff.mp hm
    exact (stepBelow_of_moveBelow hm').begins hs hs' h

end System

end LintPatrol.Chain
