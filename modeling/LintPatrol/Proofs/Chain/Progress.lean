import LintPatrol.Proofs.Chain.Accounting
import LintPatrol.Proofs.Scope.Expiry
import Mathlib.Order.WellFounded

/-!
# LintPatrol.Proofs.Chain.Progress

A chain that has not reported on an item goes on: some step can be made, at
once or after some time, and only finitely many steps can be made in all.

Every step takes something from the place at which it is made, and gives
something at most to places further down.  So the places are ranked one after
the other (`rank`), and a step leads to a lower rank.

## Main statements

* `Accounted.progress`: where something is awaited, a step can be made.
* `StepBelow.rank_lt`: a step behind the source leads to a lower rank.
* `System.not_next_forever`: no schedule goes on for ever.
-/

namespace LintPatrol.Timeline

variable {t : Timeline} {scope : Scope}

/-- No time ends the scope: it has not ended, it has no deadline, and nothing
that is to be cancelled ends it. -/
def Endless (t : Timeline) (scope : Scope) : Prop :=
  t.isExpired scope = false ∧ scope.deadline = none ∧
    ∀ c ∈ t.scheduled, c.2.isSuffixOf scope.token = false

theorem le_now_advanceTo (t : Timeline) (moment : Nat) : moment ≤ (t.advanceTo moment).now :=
  Nat.le_max_right ..

/-- A scope that is not endless ends some time. -/
theorem isExpired_advanceTo (h : ¬ t.Endless scope) :
    ∃ moment, (t.advanceTo moment).isExpired scope = true := by
  unfold Endless at h
  rw [not_and_or, not_and_or] at h
  rcases h with h | h | h
  · rw [Bool.not_eq_false] at h
    exact ⟨t.now, (Leads.advanceTo t t.now).isExpired h⟩
  · obtain ⟨d, hd⟩ := Option.ne_none_iff_exists'.mp h
    have hp : (t.advanceTo d).isPast scope = true := by
      rw [isPast, hd]
      exact decide_eq_true (le_now_advanceTo t d)
    exact ⟨d, by rw [isExpired, hp, Bool.or_true]⟩
  · push Not at h
    obtain ⟨⟨moment, token⟩, hc, hs⟩ := h
    have hm : token ∈ (t.advanceTo moment).cancelled := by
      refine List.mem_append_left _ (List.mem_map.mpr ⟨(moment, token), ?_, rfl⟩)
      exact List.mem_filter.mpr ⟨hc, decide_eq_true (le_now_advanceTo t moment)⟩
    refine ⟨moment, ?_⟩
    rw [isExpired, Bool.or_eq_true]
    exact .inl (List.any_eq_true.mpr ⟨token, hm, by simpa using hs⟩)

end LintPatrol.Timeline

namespace LintPatrol.Chain

variable {α : Type}

/-! ## some step can be made -/

/-- A body pauses until its scope ends, which no time does. -/
def AwaitsForever (t : Timeline) (s : Station α) : Prop :=
  ∃ r left, s.current = some r ∧ r.phase = .working .expiry left ∧ t.Endless r.scope ∧
    ∃ k, .awaitExpiry ∈ s.stage.body r.job.item k

/-- A job that is on its way can be sent or received. -/
theorem Inbox.progress {b : Inbox α} (h : b.jobs ≠ []) :
    b.receive.isSome = true ∨ ∃ k, (b.send k).isSome = true := by
  obtain ⟨spawned, slot⟩ := b
  cases slot with
  | some job => exact .inl rfl
  | none =>
    cases spawned with
    | nil => exact absurd rfl h
    | cons job spawned => exact .inr ⟨0, rfl⟩

/-- Every pause ends some time, apart from one that waits for the end of an
endless scope. -/
theorem Pause.progress (pause : Pause) (t : Timeline) (scope : Scope) :
    (∃ moment, (pause.waking? (t.advanceTo moment) scope).isSome = true) ∨
      pause = .expiry ∧ t.Endless scope := by
  cases pause with
  | ready => exact .inl ⟨t.now, rfl⟩
  | sleeping m =>
    have hm := t.le_now_advanceTo m
    exact .inl ⟨m, by simp [waking?, hm]⟩
  | scopeSleeping m =>
    have hm := t.le_now_advanceTo m
    exact .inl ⟨m, by simp [waking?, hm]⟩
  | expiry =>
    by_cases he : t.Endless scope
    · exact .inr ⟨rfl, he⟩
    · obtain ⟨moment, hp⟩ := Timeline.isExpired_advanceTo he
      exact .inl ⟨moment, by simp [waking?, hp]⟩

namespace Station

variable {s : Station α} {b : Batch α} {r : Run α}

/-- A station that works on nothing can do something if a job has been sent to it. -/
theorem isSome_move_of_receive (t : Timeline) (halive : s.alive = true) (hc : s.current = none)
    (h : s.inbox.receive.isSome = true) : (s.move t).isSome = true := by
  simp [move, halive, hc, h]

/-- A station that has heard of all that it handed on goes on some time. -/
theorem progress (t : Timeline) (halive : s.alive = true) (hb : s.Busy b)
    (hc : s.current = some r) (hnone : b.pendingFrom 0 = []) :
    (∃ moment, (s.move (t.advanceTo moment)).isSome = true) ∨ AwaitsForever t s := by
  obtain ⟨k, hf⟩ := hb.follows hc
  cases hp : r.phase with
  | joining own =>
    cases ho : outcomes? r.handles with
    | some reports => exact .inl ⟨t.now, by simp [move, halive, hc, hp, ho]⟩
    | none => exact absurd hnone (Batch.pendingFrom_ne_nil (hf.handles ▸ ho) 0)
  | working pause left =>
    rcases pause.progress t r.scope with ⟨moment, hw⟩ | ⟨rfl, he⟩
    · refine .inl ⟨moment, ?_⟩
      obtain ⟨waking, hw⟩ := Option.isSome_iff_exists.mp hw
      cases waking <;> simp [move, halive, hc, hp, hw]
    · exact .inr ⟨r, left, hc, hp, he, k, (hf.working _ left hp).1.awaits rfl⟩

end Station

/-- **Where something is awaited, a step can be made some time, unless a body
waits for ever.** -/
theorem Accounted.progress {sink : Sink α} {stations : List (Station α)} {b : Batch α}
    {done : List (Work α)} (h : Accounted sink stations b done) (hb : b.pendingFrom 0 ≠ [])
    (t : Timeline) :
    (∃ moment i step, (moveBelow (t.advanceTo moment) step i stations sink).isSome = true) ∨
      ∃ s ∈ stations, AwaitsForever t s := by
  induction stations generalizing b done with
  | nil =>
    cases h with
    | sink _ _ awaits =>
      rcases Inbox.progress (awaits.ne_nil hb) with hr | ⟨k, hk⟩
      · exact .inl ⟨t.now, 0, .work, by simpa [moveBelow, Sink.move] using hr⟩
      · exact .inl ⟨t.now, 0, .send k, by simpa [moveBelow, Sink.move] using hk⟩
  | cons s rest ih =>
    cases h with
    | @station _ _ _ inner _ _ alive _ _ awaits _ busy _ accounted =>
      cases hc : s.current with
      | none =>
        have hj : s.inbox.jobs ≠ [] := by simpa [Station.jobs, hc] using awaits.ne_nil hb
        rcases Inbox.progress hj with hr | ⟨k, hk⟩
        · have hm := Station.isSome_move_of_receive (t.advanceTo t.now) alive hc hr
          exact .inl ⟨t.now, 0, .work, by simpa [moveBelow, moveHead] using hm⟩
        · exact .inl ⟨t.now, 0, .send k, by simpa [moveBelow, moveHead] using hk⟩
      | some r =>
        by_cases hi : inner.pendingFrom 0 = []
        · rcases Station.progress t alive busy hc hi with ⟨moment, hm⟩ | hw
          · exact .inl ⟨moment, 0, .work, by simpa [moveBelow, moveHead] using hm⟩
          · exact .inr ⟨s, List.mem_cons_self, hw⟩
        · rcases ih accounted hi with ⟨moment, i, step, hm⟩ | ⟨s', hs', hw⟩
          · exact .inl ⟨moment, i + 1, step, by simpa [moveBelow] using hm⟩
          · exact .inr ⟨s', List.mem_cons_of_mem _ hs', hw⟩

/-! ## no more than finitely many steps -/

/-- What is on its way to a place counts twice as long as it has not been
sent. -/
def Inbox.rank (b : Inbox α) : Nat := 2 * b.spawned.length + b.slot.toList.length

/-- How much is left to do for the job that is worked on. -/
def Run.rank (r : Run α) : Nat :=
  match r.phase with
  | .working _ left => left.length + 2
  | .joining _ => 1

/-- What is on its way to a station counts for more than what is left to do for
its job. -/
def Station.rank (s : Station α) : Nat × Nat :=
  (s.inbox.rank, (s.current.map Run.rank).getD 0)

/-- Pairs of numbers, the first of which counts for more. -/
abbrev PairLt : Nat × Nat → Nat × Nat → Prop := Prod.Lex (· < ·) (· < ·)

/-- The ranks of a chain of `n` stations and a sink. -/
def Rank : Nat → Type
  | 0 => Nat
  | n + 1 => (Nat × Nat) × Rank n

/-- A rank is lower if it is so at the first place at which it differs. -/
def Lower : (n : Nat) → Rank n → Rank n → Prop
  | 0 => fun a b : Nat => a < b
  | n + 1 => Prod.Lex PairLt (Lower n)

/-- There is no endless descent of ranks. -/
theorem lower_wf (n : Nat) : WellFounded (Lower n) := by
  induction n with
  | zero => exact Nat.lt_wfRel.wf
  | succ n ih =>
    exact WellFounded.prod_lex (WellFounded.prod_lex Nat.lt_wfRel.wf Nat.lt_wfRel.wf) ih

/-- The rank of the rest of a chain that has `n` stations. -/
def rank : (n : Nat) → List (Station α) → Sink α → Rank n
  | 0, _, sink => sink.inbox.rank
  | n + 1, [], sink => ((0, 0), rank n [] sink)
  | n + 1, s :: rest, sink => (s.rank, rank n rest sink)

/-- A body that goes on comes nearer to its end. -/
theorem Run.Advances.rank_lt {t : Timeline} {r r' : Run α} {items : List α}
    (h : r.Advances t r' items) : r'.rank < r.rank := by
  cases h with
  | ends phase => simp [Run.rank, Run.finish, phase]
  | passes next probe phase => simp [Run.rank, Run.goOn, phase]
  | produces items phase => simp [Run.rank, Run.goOn, phase]

/-- To send a job lowers the rank of an inbox. -/
theorem Inbox.send_rank {b b' : Inbox α} {k : Nat} (h : b.send k = some b') : b'.rank < b.rank := by
  unfold Inbox.send at h
  split at h
  next job hs hk =>
    cases h
    have hl := (List.getElem?_eq_some_iff.mp hk).1
    simp only [Inbox.rank, hs, List.length_eraseIdx_of_lt hl, Option.toList_some,
      Option.toList_none, List.length_singleton, List.length_nil]
    omega
  next => cases h

/-- To receive a job lowers it, too. -/
theorem Inbox.receive_rank {b b' : Inbox α} {job : Job α} (h : b.receive = some (job, b')) :
    b'.rank < b.rank := by
  obtain ⟨_, hs, ⟨⟩⟩ := Option.map_eq_some_iff.mp h
  simp [Inbox.rank, hs]

namespace Station

variable {s : Station α} {r : Run α}

@[simp] theorem rank_hear (s : Station α) (completions : List Completion) :
    (s.hear completions).rank = s.rank := by
  rcases s.hear_cases completions with h | ⟨r, handles, hc, h⟩
  · rw [h]
  · simp [h, rank, hc, Run.rank]

/-- The work on the job comes nearer to its end. -/
theorem rank_of_run {r' : Run α} (hc : s.current = some r) (h : r'.rank < r.rank) :
    PairLt (rank { s with current := some r' }) s.rank := by
  have : s.rank = (s.inbox.rank, r.rank) := by simp [rank, hc]
  rw [this]
  exact .right _ h

/-- The work on the job is given up. -/
theorem rank_of_none {s' : Station α} (hc : s.current = some r) (hn : s'.current = none)
    (hi : s'.inbox.rank ≤ s.inbox.rank) : PairLt s'.rank s.rank := by
  have hs : s.rank = (s.inbox.rank, r.rank) := by simp [rank, hc]
  have hs' : s'.rank = (s'.inbox.rank, 0) := by simp [rank, hn]
  have hr : 0 < r.rank := by
    unfold Run.rank
    split <;> omega
  rw [hs, hs']
  rcases Nat.lt_or_eq_of_le hi with hlt | heq
  · exact .left _ _ hlt
  · rw [heq]
    exact .right _ hr

/-- **What a station does leads to a lower rank.** -/
theorem Does.rank_lt {t : Timeline} {m : StationMove α} (h : s.Does t m) :
    PairLt m.station.rank s.rank := by
  cases h with
  | begins job inbox current receive => exact .left _ _ (Inbox.receive_rank receive)
  | advances r r' items time current now advances => exact rank_of_run current advances.rank_lt
  | crashes r pause left current phase => exact rank_of_none current rfl (Nat.zero_le _)
  | reports r own reports current phase came => exact rank_of_none current rfl (Nat.le_refl _)

end Station

theorem length_offer (jobs : List (Job α)) (stations : List (Station α)) (sink : Sink α) :
    (offer jobs stations sink).1.length = stations.length := by
  rcases offer_cases jobs stations sink with h | ⟨s, rest, rfl, h⟩
  · rw [h]
  · rw [h]
    rfl

/-- **A step behind the source leads to a lower rank.** -/
theorem StepBelow.rank_lt {t : Timeline} {stations : List (Station α)} {sink : Sink α} {m : Below α}
    (h : StepBelow t sink stations m) :
    m.stations.length = stations.length ∧
      Lower stations.length (rank stations.length m.stations m.sink)
        (rank stations.length stations sink) := by
  induction h with
  | sendSink k inbox send => exact ⟨rfl, Inbox.send_rank send⟩
  | receive job inbox receive => exact ⟨rfl, Inbox.receive_rank receive⟩
  | send s rest k inbox send => exact ⟨rfl, .left _ _ (.left _ _ (Inbox.send_rank send))⟩
  | work s rest m alive does offered =>
    have hl := length_offer m.products rest sink
    rw [offered] at hl
    refine ⟨congrArg Nat.succ hl, .left _ _ ?_⟩
    rw [Station.rank_hear]
    exact does.rank_lt
  | further s rest m step ih =>
    obtain ⟨hl, hr⟩ := ih
    refine ⟨congrArg Nat.succ hl, ?_⟩
    show Prod.Lex PairLt (Lower rest.length) ((s.hear m.completions).rank, _) (s.rank, _)
    rw [Station.rank_hear]
    exact .right _ hr

namespace System

variable {s s' : System α} {left : List (Emission α)} {waiting : Bool} {outcomes : List Outcome}

/-- How much a script is from its end. -/
def scriptRank (left : List (Emission α)) (waiting : Bool) : Nat := 2 * left.length + waiting.toNat

/-- Reports leave a script what it has still to emit. -/
theorem receiveAll_script (t : Timeline) (root : Scope) (completions : List Completion)
    (left : List (Emission α)) (waiting : Bool) (outcomes : List Outcome) :
    ∃ waiting' outcomes',
      Source.receiveAll t root (.script left waiting outcomes) completions =
        .script left waiting' outcomes' ∧ waiting'.toNat ≤ waiting.toNat := by
  induction completions generalizing waiting outcomes with
  | nil => exact ⟨waiting, outcomes, rfl, Nat.le_refl _⟩
  | cons c cs ih =>
    obtain ⟨waiting', outcomes', he, hle⟩ := ih false (outcomes ++ [⟨c.report, t.now⟩])
    exact ⟨waiting', outcomes', he, Nat.le_trans hle (Nat.zero_le _)⟩

/-- The ranks of the source and of the chain of `n` stations behind it. -/
abbrev RankLt (n : Nat) : Nat × Rank n → Nat × Rank n → Prop := Prod.Lex (· < ·) (Lower n)

/-- There is no endless descent of the ranks of chains. -/
theorem rankLt_wf (n : Nat) : WellFounded (RankLt n) :=
  WellFounded.prod_lex Nat.lt_wfRel.wf (lower_wf n)

/-- Any step leads to a lower rank, that of the source counting for more than
that of the chain behind it. -/
theorem moveAt_rank {choice : Choice} (hs : s.source = .script left waiting outcomes)
    (hm : s.moveAt choice = some s') :
    ∃ left' waiting' outcomes', s'.source = .script left' waiting' outcomes' ∧
      s'.stations.length = s.stations.length ∧
      RankLt s.stations.length
        (scriptRank left' waiting', rank s.stations.length s'.stations s'.sink)
        (scriptRank left waiting, rank s.stations.length s.stations s.sink) := by
  cases choice with
  | source =>
    obtain ⟨rfl, e, left, time, scope, rfl, rfl⟩ := emits_of_moveSource hs hm
    obtain ⟨waiting', outcomes', he, hle⟩ := receiveAll_script time s.root
      (offer [⟨e.item, scope, 0⟩] s.stations s.sink).2.2 left true outcomes
    refine ⟨left, waiting', outcomes', he, length_offer .., .left _ _ ?_⟩
    have hw : waiting'.toNat ≤ 1 := hle
    simp only [scriptRank, List.length_cons, Bool.toNat_false]
    omega
  | place i step =>
    obtain ⟨m, hm', rfl⟩ := Option.map_eq_some_iff.mp hm
    obtain ⟨hl, hr⟩ := (stepBelow_of_moveBelow hm').rank_lt
    obtain ⟨waiting', outcomes', he, hle⟩ :=
      receiveAll_script m.time s.root m.completions left waiting outcomes
    refine ⟨left, waiting', outcomes', by rw [← he, ← hs], hl, ?_⟩
    rcases Nat.lt_or_eq_of_le hle with hlt | heq
    · exact .left _ _ (Nat.add_lt_add_left hlt _)
    · rw [scriptRank, scriptRank, heq]
      exact .right _ hr

/-- One step, perhaps after some time. -/
def Next (s s' : System α) : Prop :=
  ∃ s₁ choice, (s₁ = s ∨ ∃ moment, s₁ = s.wait moment) ∧ s₁.moveAt choice = some s'

/-- A step is made where time may have passed, and nothing else. -/
theorem Next.moveAt (h : s.Next s') :
    ∃ (s₁ : System α) (choice : Choice),
      s₁.root = s.root ∧ s₁.source = s.source ∧ s₁.stations = s.stations ∧
      s₁.sink = s.sink ∧ s.time.Leads s₁.time ∧ s₁.moveAt choice = some s' := by
  obtain ⟨s₁, choice, rfl | ⟨moment, rfl⟩, hm⟩ := h
  · exact ⟨s₁, choice, rfl, rfl, rfl, rfl, .refl _, hm⟩
  · exact ⟨s.wait moment, choice, rfl, rfl, rfl, rfl, .advanceTo .., hm⟩

/-- No schedule goes on for ever of which each step leads to a lower rank, that
of the source counting for more than that of the chain behind it. -/
theorem not_forever_of_rank {n : Nat} (P : System α → Prop) (sourceRank : Source α → Nat)
    (hnext : ∀ s s' : System α, P s → s.stations.length = n → s.Next s' →
      P s' ∧ s'.stations.length = n ∧
        RankLt n (sourceRank s'.source, rank n s'.stations s'.sink)
          (sourceRank s.source, rank n s.stations s.sink))
    (hs : P s) (hn : s.stations.length = n) :
    ¬ ∃ f : Nat → System α, f 0 = s ∧ ∀ k, (f k).Next (f (k + 1)) := by
  rintro ⟨f, rfl, hf⟩
  have hall : ∀ k, P (f k) ∧ (f k).stations.length = n := by
    intro k
    induction k with
    | zero => exact ⟨hs, hn⟩
    | succ k ih =>
      obtain ⟨hp, hl, -⟩ := hnext _ _ ih.1 ih.2 (hf k)
      exact ⟨hp, hl⟩
  let ranks : Nat → Nat × Rank n := fun k =>
    (sourceRank (f k).source, rank n (f k).stations (f k).sink)
  have hlower : ∀ k, RankLt n (ranks (k + 1)) (ranks k) := fun k =>
    (hnext _ _ (hall k).1 (hall k).2 (hf k)).2.2
  exact (wellFounded_iff_isEmpty_descending_chain.mp (rankLt_wf n)).false ⟨ranks, hlower⟩

/-- How much a source that follows a script is from its end. -/
def planRank : Source α → Nat
  | .script left waiting _ => scriptRank left waiting
  | .periodic .. => 0

/-- **No schedule goes on for ever.** -/
theorem not_next_forever (hs : s.source = .script left waiting outcomes) :
    ¬ ∃ f : Nat → System α, f 0 = s ∧ ∀ n, (f n).Next (f (n + 1)) := by
  let P : System α → Prop := fun s =>
    ∃ left waiting outcomes, s.source = .script left waiting outcomes
  refine not_forever_of_rank P planRank ?_ ⟨left, waiting, outcomes, hs⟩ rfl
  rintro s s' ⟨left, waiting, outcomes, hs⟩ hn hnext
  obtain ⟨s₁, choice, -, hsource, hstations, hsink, -, hm⟩ := Next.moveAt hnext
  obtain ⟨left', waiting', outcomes', hs', hl, hr⟩ := moveAt_rank (hsource.trans hs) hm
  rw [hstations] at hl
  rw [hstations, hsink, hn] at hr
  refine ⟨⟨left', waiting', outcomes', hs'⟩, hl.trans hn, ?_⟩
  rw [hs, hs']
  exact hr

end System

end LintPatrol.Chain
