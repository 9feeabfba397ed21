import LintPatrol.Proofs.Chain.Pacing

/-!
# LintPatrol.Proofs.Chain.Closing

How a chain ends whose source repeats itself.  Once it has been cancelled, what
was emitted is still waited for; then the source ends, and the chain closes
behind it.  Until then some step can be made, and only finitely many can.

## Main statements

* `System.Paces.sinkDone_iff`: the chain closes when its source has ended.
* `System.runFor_unfolds`: the chain as it is run follows one of the schedules.
* `System.periodic_paced`: whatever the schedule, the source keeps its rhythm,
  and once it is cancelled the chain closes.
-/

namespace LintPatrol.Chain

open Time

variable {α : Type}

/-! ## the end -/

namespace Accounted

variable {sink : Sink α} {stations : List (Station α)} {b : Batch α} {done : List (Work α)}

/-- The rest of a chain ends in a sink that drains. -/
theorem drains (h : Accounted sink stations b done) : sink.Drains := by
  induction stations generalizing b done with
  | nil =>
    cases h with
    | sink drains => exact drains
  | cons s rest ih =>
    cases h with
    | station _ _ _ _ _ _ _ accounted => exact ih accounted

/-- The stations come to their end only if the source has. -/
theorem eq_true_of_stationsDone (h : Accounted sink stations b done) {sourceDone : Bool}
    (hd : System.stationsDone sourceDone stations = true) : sourceDone = true := by
  induction stations generalizing b done sourceDone with
  | nil => exact hd
  | cons s rest ih =>
    cases h with
    | station alive _ _ _ _ _ _ accounted =>
      have hrest := ih accounted hd
      rw [alive, Bool.not_true, Bool.false_or, Bool.and_eq_true] at hrest
      exact hrest.1

end Accounted

namespace System

/-- Stations that have nothing to do come to their end with the source. -/
theorem stationsDone_of_isIdle {stations : List (Station α)}
    (h : ∀ st ∈ stations, st.isIdle = true) : stationsDone true stations = true := by
  induction stations with
  | nil => rfl
  | cons s rest ih =>
    obtain ⟨hs, hrest⟩ := List.forall_mem_cons.mp h
    rw [stationsDone, hs, Bool.and_true, Bool.or_true]
    exact ih hrest

section ending

variable {ρ : Rhythm} {item : α} {s s' : System α} {log : List Beat} {pace : Pace} {b : Batch α}

/-- The source is done just if it has ended last. -/
theorem Paces.isDone_iff (h : Paces ρ item s log pace b) :
    s.source.isDone = true ↔ ∃ z, log.getLast? = some (.ended z) := by
  have hstands := h.stands
  rw [h.source_eq]
  generalize log.getLast? = last at hstands ⊢
  cases hstands <;> simp [Source.isDone]

/-- When the source is done nothing is on its way or being worked on. -/
theorem Paces.idle (h : Paces ρ item s log pace b) (hd : s.source.isDone = true) :
    (∀ st ∈ s.stations, st.isIdle = true) ∧ s.sink.inbox.isEmpty = true := by
  obtain rfl : b = [] := by
    refine h.batch_eq_nil ?_
    rintro rfl
    rw [h.source_eq] at hd
    cases hd
  obtain ⟨done, hacc⟩ := h.accounted
  exact hacc.idle

/-- **The chain closes when the source has ended.** -/
theorem Paces.sinkDone_iff (h : Paces ρ item s log pace b) :
    s.sinkDone = true ↔ s.source.isDone = true := by
  obtain ⟨done, hacc⟩ := h.accounted
  have hopen := hacc.drains.isOpen
  rw [sinkDone, hopen, Bool.not_true, Bool.false_or, Bool.and_eq_true]
  constructor
  · rintro ⟨hstations, -⟩
    exact hacc.eq_true_of_stationsDone hstations
  · intro hd
    obtain ⟨hidle, hempty⟩ := h.idle hd
    rw [hd]
    exact ⟨stationsDone_of_isIdle hidle, hempty⟩

/-- As long as the source has not ended, some step can be made once the chain
has been cancelled. -/
theorem Paces.progress (h : Paces ρ item s log pace b) (hf : s.Founded)
    (he : s.time.isExpired s.root = true) (hd : s.source.isDone = false) :
    ∃ moment choice, s.MayWait moment ∧ ((s.wait moment).moveAt choice).isSome = true := by
  have now : (s.wait s.time.now).moveSource ≠ none →
      ∃ moment choice, s.MayWait moment ∧ ((s.wait moment).moveAt choice).isSome = true := by
    intro hm
    refine ⟨s.time.now, .source, fun earlier hle hlt => absurd hle (Nat.not_le_of_lt hlt), ?_⟩
    exact Option.isSome_iff_ne_none.mpr hm
  have hsource : ∀ moment,
      (s.wait moment).source = .periodic item ρ.failDelay ρ.successDelay pace :=
    fun _ => h.source_eq
  cases pace with
  | ready => exact now (moveSource_of_ready (hsource _))
  | resting m =>
    exact now (moveSource_of_resting (hsource _)
      (.inr ((Timeline.Leads.advanceTo ..).isExpired he)))
  | waiting =>
    obtain ⟨done, hacc⟩ := h.accounted
    obtain rfl : b = [⟨item, none⟩] := h.awaited
    rcases hacc.progress (by simp [Batch.pendingFrom]) s.time with ⟨moment, i, step, hm⟩ | hw
    · refine ⟨moment, .place i step, fun earlier _ _ => ?_, ?_⟩
      · simp only [moveSource, hsource]
      · simpa [System.moveAt, System.wait] using hm
    · exact absurd hw (hf.not_awaitsForever he)
  | stopped =>
    rw [h.source_eq] at hd
    cases hd

end ending

/-! ## no more than finitely many steps -/

/-- How much a source that repeats itself is from its end, once the chain has
been cancelled. -/
def paceRank : Source α → Nat
  | .script .. => 0
  | .periodic _ _ _ .stopped => 0
  | .periodic _ _ _ .waiting => 1
  | .periodic _ _ _ .ready => 2
  | .periodic _ _ _ (.resting _) => 3

section ranks

variable {s s' : System α} {item : α} {failDelay successDelay : Duration} {pace : Pace}

/-- Once the chain has been cancelled, a source that hears anything stops. -/
theorem receiveAll_periodic {t : Timeline} {root : Scope} (he : t.isExpired root = true)
    (completions : List Completion) :
    Source.receiveAll t root (.periodic item failDelay successDelay pace : Source α) completions =
      .periodic item failDelay successDelay (if completions = [] then pace else .stopped) := by
  induction completions generalizing pace with
  | nil => rfl
  | cons c cs ih =>
    rw [Source.receiveAll, List.foldl_cons, ← Source.receiveAll]
    simp only [Source.receive, he, if_true, ih]
    split <;> simp

/-- Once the chain has been cancelled, any step leads to a lower rank. -/
theorem moveAt_paceRank {choice : Choice}
    (hs : s.source = .periodic item failDelay successDelay pace)
    (he : s.time.isExpired s.root = true) (hm : s.moveAt choice = some s') :
    ∃ pace', s'.source = .periodic item failDelay successDelay pace' ∧
      s'.stations.length = s.stations.length ∧
      RankLt s.stations.length
        (paceRank s'.source, rank s.stations.length s'.stations s'.sink)
        (paceRank s.source, rank s.stations.length s.stations s.sink) := by
  cases choice with
  | source =>
    simp only [System.moveAt, moveSource, hs, he, if_true] at hm
    rw [hs]
    cases pace with
    | ready =>
      cases hm
      exact ⟨_, rfl, rfl, .left _ _ (by simp [paceRank])⟩
    | resting m =>
      simp only at hm
      split at hm <;> cases hm
      · exact ⟨_, rfl, rfl, .left _ _ (by simp [paceRank])⟩
      · exact ⟨_, rfl, rfl, .left _ _ (by simp [paceRank])⟩
    | waiting => cases hm
    | stopped => cases hm
  | place i step =>
    obtain ⟨m, hm', rfl⟩ := Option.map_eq_some_iff.mp hm
    obtain ⟨hl, hr⟩ := (stepBelow_of_moveBelow hm').rank_lt
    have he' := (turns_of_moveBelow hm').leads.isExpired he
    simp only [hs, receiveAll_periodic he']
    refine ⟨_, rfl, hl, ?_⟩
    split
    · exact .right _ hr
    · -- the source has heard something, and stops if it has not before
      rcases Nat.eq_zero_or_pos (paceRank (.periodic item failDelay successDelay pace : Source α))
        with hzero | hpos
      · rw [hzero]
        exact .right _ hr
      · exact .left _ _ hpos

/-- Once the chain has been cancelled, no schedule goes on for ever. -/
theorem not_next_forever_of_isExpired
    (hs : s.source = .periodic item failDelay successDelay pace)
    (he : s.time.isExpired s.root = true) :
    ¬ ∃ f : Nat → System α, f 0 = s ∧ ∀ n, (f n).Next (f (n + 1)) := by
  let P : System α → Prop := fun s =>
    (∃ pace, s.source = .periodic item failDelay successDelay pace) ∧
      s.time.isExpired s.root = true
  refine not_forever_of_rank P paceRank ?_ ⟨⟨pace, hs⟩, he⟩ rfl
  rintro s s' ⟨⟨pace, hs⟩, he⟩ hn hnext
  obtain ⟨s₁, choice, hroot, hsource, hstations, hsink, hleads, hm⟩ := Next.moveAt hnext
  have he₁ : s₁.time.isExpired s₁.root = true := hroot ▸ hleads.isExpired he
  obtain ⟨pace', hs', hl, hr⟩ := moveAt_paceRank (hsource.trans hs) he₁ hm
  rw [hstations] at hl
  rw [hsource, hstations, hsink, hn] at hr
  refine ⟨⟨⟨pace', hs'⟩, ?_⟩, hl.trans hn, hr⟩
  rw [root_of_moveAt hm]
  exact (moveAt_leads hm).isExpired he₁

end ranks

/-! ## one schedule -/

/-- What is noted of the source in the first step that can be made. -/
def noted (s : System α) : List Beat :=
  ((s.choices.find? fun c => (s.moveAt c).isSome).map s.beats).getD []

/-- What is noted of the source while the chain works for at most so many
steps. -/
def beatsFor : (steps : Nat) → System α → List Beat
  | 0, _ => []
  | steps + 1, s =>
    if s.isDone && !s.sink.isOpen then []
    else
      match s.move with
      | some s' => s.noted ++ beatsFor steps s'
      | none =>
        if s.isDone then []
        else
          match s.nextMoment? with
          | some m => beatsFor steps (s.wait m)
          | none => []

/-- What the chain does of itself is one of the steps that can be chosen. -/
theorem exists_choice_of_move {s s' : System α} (hm : s.move = some s') :
    ∃ choice, s.moveAt choice = some s' ∧ s.noted = s.beats choice := by
  unfold move at hm
  unfold noted
  generalize s.choices = choices at hm ⊢
  induction choices with
  | nil => cases hm
  | cons c choices ih =>
    rw [List.findSome?_cons] at hm
    rw [List.find?_cons]
    cases hc : s.moveAt c with
    | some s'' =>
      simp only [hc] at hm
      exact ⟨c, hc.trans hm, rfl⟩
    | none =>
      simp only [hc] at hm
      exact ih hm

section runs

variable {root : Scope} {time : Timeline} {item : α} {ρ : Rhythm} {stages : List (Stage α)}
  {s : System α} {log : List Beat} {pace : Pace} {b : Batch α}

/-- A chain that can make no step has a source that can make none. -/
theorem moveSource_eq_none_of_move (hm : s.move = none) : s.moveSource = none :=
  List.findSome?_eq_none_iff.mp hm .source List.mem_cons_self

/-- A chain that works on step by step lets no time pass in which its source
could make one. -/
theorem Paces.mayWait (h : Paces ρ item s log pace b) (hf : s.Founded) (hm : s.move = none)
    {moment : Nat} (hn : s.nextMoment? = some moment) : s.MayWait moment := by
  have hnone := moveSource_eq_none_of_move hm
  have hleast := (List.min?_eq_some_iff.mp hn).2
  intro earlier hle hlt
  have hsource : (s.wait earlier).source = .periodic item ρ.failDelay ρ.successDelay pace :=
    h.source_eq
  cases pace with
  | ready => exact absurd hnone (moveSource_of_ready h.source_eq)
  | waiting => simp only [moveSource, hsource]
  | stopped => simp only [moveSource, hsource]
  | resting m =>
    obtain ⟨hlater, hlive⟩ : s.time.now < m ∧ s.time.isExpired s.root ≠ true := by
      have := mt (moveSource_of_resting h.source_eq) (not_not.mpr hnone)
      rwa [not_or, Nat.not_le] at this
    have hnow : (s.wait earlier).time.now = earlier := Nat.max_eq_right hle
    have hpause : ¬ m ≤ (s.wait earlier).time.now := by
      have hm' : moment ≤ m := by
        refine hleast m (List.mem_append_left _ ?_)
        simp [h.source_eq, Source.moments, hlater]
      omega
    -- nothing that would end the pause is to be cancelled before
    have hlive' : ¬ (s.wait earlier).time.isExpired (s.wait earlier).root = true := by
      intro he
      have hroot : (s.wait earlier).root.deadline = none := hf.unbounded
      rw [Timeline.isExpired, Timeline.isPast, hroot, Bool.or_false, Timeline.isCancelled_iff] at he
      obtain ⟨token, hmem, hsuffix⟩ := he
      rcases List.mem_append.mp hmem with hmem | hmem
      · obtain ⟨c, hc, -⟩ := List.mem_map.mp hmem
        obtain ⟨hc, hdue⟩ := List.mem_filter.mp hc
        have hdue : c.1 ≤ max s.time.now earlier := of_decide_eq_true hdue
        have hm' : moment ≤ max s.time.now c.1 :=
          hleast _ (List.mem_append_right _ (List.mem_map_of_mem hc))
        omega
      · have hself := (Timeline.isCancelled_iff ..).mpr ⟨token, hmem, List.suffix_rfl⟩
        exact hlive (Timeline.isExpired_of_suffix hself hsuffix)
    simp only [moveSource, hsource]
    rw [if_neg hpause, if_neg hlive']

/-- A schedule may go on step by step. -/
theorem Unfolds.runFor (hroot : root.deadline = none) (hstart : time.now = ρ.start)
    (hs : ∀ st ∈ stages, ∀ item k, .crash ∉ st.body item k) (steps : Nat)
    (h : Unfolds (.periodic root time item ρ stages) log s) :
    Unfolds (.periodic root time item ρ stages) (log ++ s.beatsFor steps) (s.runFor steps) := by
  induction steps generalizing s log with
  | zero => simpa [beatsFor, System.runFor] using h
  | succ steps ih =>
    unfold System.runFor beatsFor
    split
    · simpa using h
    · cases hm : s.move with
      | some s' =>
        obtain ⟨choice, hc, hnoted⟩ := exists_choice_of_move hm
        simp only
        rw [hnoted, ← List.append_assoc]
        exact ih (h.move choice hc)
      | none =>
        simp only
        split
        · simpa using h
        · cases hn : s.nextMoment? with
          | none => simpa using h
          | some m =>
            obtain ⟨⟨pace, b, hp⟩, hf⟩ := h.paces hroot hstart hs
            exact ih (h.wait m (hp.mayWait hf hm hn))

/-- **The order in which a chain is worked on step by step is one of the
schedules.** -/
theorem runFor_unfolds (hroot : root.deadline = none) (hstart : time.now = ρ.start)
    (hs : ∀ st ∈ stages, ∀ item k, .crash ∉ st.body item k) (steps : Nat) :
    Unfolds (.periodic root time item ρ stages)
      ((periodic root time item ρ stages).beatsFor steps)
      ((periodic root time item ρ stages).runFor steps) :=
  Unfolds.runFor hroot hstart hs steps .refl

end runs

/-! ## what a schedule leads to -/

/-- The source keeps its rhythm. -/
structure Paced (ρ : Rhythm) (s : System α) (log : List Beat) : Prop where
  /-- It emits at its start.  When it has emitted, it hears the report on that
  next, also if the chain has been cancelled; then it emits just when the pause
  is over, or ends not later. -/
  keeps : ρ.Keeps log
  /-- A pause is over at the first whole millisecond that is not too early. -/
  isLeast_due : ∀ r failed,
    IsLeast {m | nanosPerMilli ∣ m ∧ r + Timeline.pauseFrom r (ρ.delay failed) ≤ m}
      (ρ.due r failed)
  /-- It has its full length and no more if it ends at a whole millisecond which
  the clock can show. -/
  due_eq : ∀ r failed, r + (ρ.delay failed).nanos < Timeline.clockLimit →
    nanosPerMilli ∣ r + (ρ.delay failed).nanos → ρ.due r failed = r + (ρ.delay failed).nanos
  /-- There is never more than one emission that has not been reported on. -/
  outstanding : ∀ n, Rhythm.emissions (log.take n) ≤ Rhythm.reports (log.take n) + 1
  /-- It begins at once. -/
  begins : log = [] → s.time.now = ρ.start
  /-- As long as the chain has not been cancelled, it has emitted just when the
  pause after a report was over, if it was. -/
  onTime : s.time.isExpired s.root = false → ∀ i r failed, log[i]? = some (.heard r failed) →
    log[i + 1]? = some (.emitted (ρ.due r failed)) ∨
      i + 1 = log.length ∧ s.time.now ≤ ρ.due r failed
  /-- It ends only if the chain has been cancelled. -/
  cancelled : ∀ z, .ended z ∈ log → s.time.isExpired s.root = true
  /-- Once the chain has been cancelled it emits nothing any more. -/
  silent : s.time.isExpired s.root = true → ∀ more s', Unfolds s more s' →
    ∀ m, .emitted m ∉ more
  /-- The chain closes, so that all of it has been drained, just when the source
  has ended. -/
  closed_iff : s.sinkDone = true ↔ ∃ z, log.getLast? = some (.ended z)
  /-- Then nothing is on its way or being worked on. -/
  idle : s.sinkDone = true → (∀ st ∈ s.stations, st.isIdle = true) ∧
    s.sink.inbox.isEmpty = true
  /-- Once the chain has been cancelled some step can be made until it
  closes. -/
  goesOn : s.time.isExpired s.root = true → s.sinkDone = false →
    ∃ moment choice, s.MayWait moment ∧ ((s.wait moment).moveAt choice).isSome = true
  /-- Then only finitely many steps can be made. -/
  ends : s.time.isExpired s.root = true →
    ¬ ∃ f : Nat → System α, f 0 = s ∧ ∀ n, (f n).Next (f (n + 1))

section main

variable {root : Scope} {time : Timeline} {item : α} {ρ : Rhythm} {stages : List (Stage α)}
  {s : System α} {log : List Beat} {pace : Pace} {b : Batch α}

/-- The pause after the last report is not over yet. -/
theorem Paces.now_le_due (h : Paces ρ item s log pace b) {r : Nat} {failed : Bool}
    (hlast : log.getLast? = some (.heard r failed)) : s.time.now ≤ ρ.due r failed := by
  have hstands := h.stands
  rw [hlast] at hstands
  cases hstands with
  | due due => exact Nat.le_of_eq due
  | resting _ early => exact early

/-- Behind each report stands the emission that is due then, or the report is the latest
beat and the emission is not overdue. -/
theorem Paces.onTime (h : Paces ρ item s log pace b) (he : s.time.isExpired s.root = false)
    {i r : Nat} {failed : Bool} (hi : log[i]? = some (.heard r failed)) :
    log[i + 1]? = some (.emitted (ρ.due r failed)) ∨
      i + 1 = log.length ∧ s.time.now ≤ ρ.due r failed := by
  obtain ⟨hlt, hget⟩ := List.getElem?_eq_some_iff.mp hi
  rcases Nat.lt_or_ge (i + 1) log.length with hlt' | hge
  · have hfollows := List.isChain_iff_getElem.mp h.keeps.follows i hlt'
    have hmem : log[i + 1] ∈ log := List.getElem_mem hlt'
    rw [hget] at hfollows
    rw [List.getElem?_eq_getElem hlt']
    generalize log[i + 1] = next at hfollows hmem ⊢
    cases next with
    | emitted e =>
      obtain rfl : e = ρ.due r failed := hfollows
      exact .inl rfl
    | heard => exact hfollows.elim
    | ended z =>
      rw [h.cancelled z hmem] at he
      cases he
  · have hlength : i + 1 = log.length := Nat.le_antisymm hlt hge
    refine .inr ⟨hlength, h.now_le_due ?_⟩
    rw [List.getLast?_eq_getElem?, ← hlength]
    exact hi

/-- **Whatever the schedule, a source that repeats itself keeps its rhythm, and
once it is cancelled the chain closes.** -/
theorem periodic_paced (hroot : root.deadline = none) (hstart : time.now = ρ.start)
    (hs : ∀ st ∈ stages, ∀ item k, .crash ∉ st.body item k)
    (h : Unfolds (.periodic root time item ρ stages) log s) : Paced ρ s log := by
  obtain ⟨⟨pace, b, hp⟩, hf⟩ := h.paces hroot hstart hs
  exact
    { keeps := hp.keeps
      isLeast_due := ρ.isLeast_due
      due_eq := fun _ _ => Rhythm.due_eq
      outstanding := hp.keeps.outstanding
      begins := by
        rintro rfl
        cases hp.stands with
        | first start => exact start
      onTime := fun he _ _ _ => hp.onTime he
      cancelled := hp.cancelled
      silent := fun he _ _ hmore => (hmore.silent he).2
      closed_iff := hp.sinkDone_iff.trans hp.isDone_iff
      idle := fun hd => hp.idle (hp.sinkDone_iff.mp hd)
      goesOn := fun he hd => hp.progress hf he (by
        rw [← Bool.not_eq_true] at hd ⊢
        exact mt hp.sinkDone_iff.mpr hd)
      ends := not_next_forever_of_isExpired hp.source_eq }

end main

/-- A stage that takes 2 ms, and fails with the first item. -/
def flaky : List (Stage Unit) :=
  [⟨"flaky", .ofSeconds 1, fun _ k =>
    .sleep 2000000 :: if k = 0 then [.fail (.plain "flaky")] else []⟩]

/-- Pauses of 5 and of 10 ms. -/
def fiveAndTen : Rhythm := ⟨0, .ofMillis 5, .ofMillis 10⟩

/-- A source with these pauses that is cancelled after 20 ms. -/
def flakyStart : System Unit :=
  periodic ⟨[0], none⟩ { Timeline.start with scheduled := [(20000000, [0])] } () fiveAndTen flaky

/-- The third time it is cancelled while it awaits the report. -/
theorem periodic_paced_flaky :
    let log := [.emitted 0, .heard 2000000 true, .emitted 7000000, .heard 9000000 false,
      .emitted 19000000, .heard 21000000 false, .ended 21000000]
    Unfolds flakyStart log (flakyStart.runFor 40) ∧ Paced fiveAndTen (flakyStart.runFor 40) log ∧
      (flakyStart.runFor 40).sinkDone = true := by
  intro log
  have hs : ∀ st ∈ flaky, ∀ item k, .crash ∉ st.body item k := by
    refine List.forall_mem_singleton.mpr fun item k => ?_
    by_cases hk : k = 0 <;> simp [hk]
  have hlog : flakyStart.beatsFor 40 = log := by decide +kernel
  have hrun : Unfolds flakyStart (flakyStart.beatsFor 40) (flakyStart.runFor 40) :=
    runFor_unfolds rfl rfl hs 40
  have h : Unfolds flakyStart log (flakyStart.runFor 40) := hlog ▸ hrun
  have hp := periodic_paced rfl rfl hs h
  exact ⟨h, hp, hp.closed_iff.mpr ⟨21000000, rfl⟩⟩

/-- Pauses of one and a half milliseconds. -/
def oneAndAHalf : Rhythm := ⟨0, ⟨1500000, by decide⟩, ⟨1500000, by decide⟩⟩

/-- A stage that does nothing. -/
def idler : List (Stage Unit) := [⟨"idler", .ofSeconds 5, fun _ _ => []⟩]

/-- A source with these pauses. -/
def idlerStart : System Unit := periodic ⟨[0], none⟩ .start () oneAndAHalf idler

/-- It emits again after two milliseconds: no timer goes off in between. -/
theorem periodic_late_idler :
    Unfolds idlerStart [.emitted 0, .heard 0 false, .emitted 2000000] (idlerStart.runFor 8) ∧
      (idlerStart.runFor 8).time.isExpired (idlerStart.runFor 8).root = false ∧
      2000000 ≠ 0 + oneAndAHalf.successDelay.nanos := by
  have hs : ∀ st ∈ idler, ∀ item k, .crash ∉ st.body item k :=
    List.forall_mem_singleton.mpr fun _ _ => List.not_mem_nil
  have hlog : idlerStart.beatsFor 8 = [.emitted 0, .heard 0 false, .emitted 2000000] := by
    decide +kernel
  have hrun : Unfolds idlerStart (idlerStart.beatsFor 8) (idlerStart.runFor 8) :=
    runFor_unfolds rfl rfl hs 8
  exact ⟨hlog ▸ hrun, by decide +kernel, by decide⟩

end System

end LintPatrol.Chain
