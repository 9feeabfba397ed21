import LintPatrol.Proofs.Chain.Completion
import LintPatrol.Proofs.Chain.Scopes

/-!
# LintPatrol.Proofs.Chain.Blame

What a stage blames the failure of its body on.  A stage says that it exceeded
its timeout if its scope is at its end when it reports, and it reports when all
that the body handed on has been reported on.  So the timeout is blamed just if
it is over by then, which may be long after the body ended.

Only the deadline ends the scope of a stage, if bodies do not cancel the scopes
of their stages and what is cancelled from outside is the chain as a whole
(`System.Undisturbed`).

## Main statements

* `System.Reaches.undisturbed`: every schedule leaves it so.
* `System.blames_overdue_iff`: when the timeout is blamed, and when rightly.
-/

namespace LintPatrol

/-- Nothing within the scope of the token has been cancelled by itself, or will
be. -/
def Timeline.Spares (t : Timeline) (token : Token) : Prop :=
  ∀ c, c ∈ t.cancelled ∨ c ∈ t.scheduled.map Prod.snd → token <:+ c → c = token

namespace Timeline.Spares

variable {t t' : Timeline} {root token : Token}

/-- A scope within that of the token is cancelled only along with the one it
was made within. -/
theorem isCancelled_cons (h : t.Spares root) (hd : root <:+ token) (k : Nat) :
    t.isCancelled (k :: token) = t.isCancelled token := by
  rw [Bool.eq_iff_iff, isCancelled_iff, isCancelled_iff]
  refine exists_congr fun c => and_congr_right fun hc => ?_
  rw [List.suffix_cons_iff]
  refine or_iff_right fun heq => ?_
  subst heq
  have hroot := h _ (.inl hc) (hd.trans (List.suffix_cons k token))
  exact absurd hd.length_le (by simp [← hroot])

theorem advanceTo (h : t.Spares root) (moment : Nat) : (t.advanceTo moment).Spares root := by
  intro c hc
  refine h c ?_
  simp only [Timeline.advanceTo, List.mem_append, List.mem_map, List.mem_filter] at hc ⊢
  rcases hc with (⟨p, ⟨hp, -⟩, rfl⟩ | hc) | ⟨p, ⟨hp, -⟩, rfl⟩
  · exact .inr ⟨p, hp, rfl⟩
  · exact .inl hc
  · exact .inr ⟨p, hp, rfl⟩

/-- To cancel a scope spares the root unless that is the scope. -/
theorem cancel (h : t.Spares root) (ht : root <:+ token → token = root) :
    (t.cancel token).Spares root := by
  rintro c (hc | hc)
  · rcases List.mem_cons.mp hc with rfl | hc
    · exact ht
    · exact h c (.inl hc)
  · exact h c (.inr hc)

end Timeline.Spares

end LintPatrol

namespace LintPatrol.Chain

open Time

variable {α : Type}

/-! ## bodies that leave the scopes of their stages alone -/

/-- The bodies of the stage do not cancel its scope; the acts that are left of
the one at work do not either. -/
structure Station.Tame (s : Station α) : Prop where
  bodies : ∀ item k, .cancelStage ∉ s.stage.body item k
  left : ∀ r pause left, s.current = some r → r.phase = .working pause left → .cancelStage ∉ left

namespace Station

variable {s : Station α}

/-- A station whose body never cancels its stage begins tame. -/
theorem tame_idle {stage : Stage α} (h : ∀ item k, .cancelStage ∉ stage.body item k) :
    (Station.idle stage).Tame :=
  ⟨h, fun _ _ _ hc => nomatch hc⟩

/-- A station that works on nothing. -/
theorem Tame.of_none {s' : Station α} (h : s.Tame) (hs : s'.stage = s.stage)
    (hc : s'.current = none) : s'.Tame := by
  refine ⟨hs ▸ h.bodies, fun r _ _ hr => ?_⟩
  rw [hc] at hr
  cases hr

/-- Whatever a tame station does leaves it tame. -/
theorem Tame.does {t : Timeline} {m : StationMove α} (h : s.Tame) (hd : s.Does t m) :
    m.station.Tame := by
  cases hd with
  | begins job inbox current receive =>
    refine ⟨h.bodies, ?_⟩
    rintro _ _ _ ⟨⟩ ⟨⟩
    exact h.bodies job.item s.past.length
  | advances r r' items time current now advances =>
    refine ⟨h.bodies, ?_⟩
    rintro _ pause left ⟨⟩ hp
    cases advances with
    | ends => cases hp
    | passes next probe phase =>
      cases hp
      exact fun hm => h.left r _ _ current phase (List.mem_cons_of_mem _ hm)
    | produces items phase =>
      cases hp
      exact fun hm => h.left r _ _ current phase (List.mem_cons_of_mem _ hm)
  | crashes r pause left current phase => exact h.of_none rfl rfl
  | reports r own reports current phase came => exact h.of_none rfl rfl

/-- No step of a chain makes a station other than tame. -/
theorem kept_tame : Kept (α := α) (fun _ s => s.Tame) (fun _ => True) where
  later h _ := h
  add h _ := ⟨h.bodies, h.left⟩
  send h _ := ⟨h.bodies, h.left⟩
  hear completions h := by
    rename_i _ s
    rcases s.hear_cases completions with hs | ⟨r, handles, hc, hs⟩
    · rwa [hs]
    · rw [hs]
      refine ⟨h.bodies, ?_⟩
      rintro _ pause left ⟨⟩
      exact h.left r pause left hc
  does h _ hd := ⟨h.does hd, fun _ _ => trivial⟩

end Station

/-! ## chains -/

namespace System

variable {s s' : System α}

/-- The scopes of the stages end with those of their items, or by their
deadlines. -/
structure Undisturbed (s : System α) : Prop where
  root : s.root.token ≠ []
  spares : s.time.Spares s.root.token
  scopes : ∀ st ∈ s.stations, st.Scoped s.root.token s.time.now
  tame : ∀ st ∈ s.stations, st.Tame

/-- To cancel the whole chain is to cancel nothing within its scope. -/
theorem eq_of_suffix_getLast {root token : Token} (hroot : root ≠ [])
    (h : root <:+ token.getLast?.toList) : token.getLast?.toList = root := by
  refine (h.eq_of_length (Nat.le_antisymm h.length_le ?_)).symm
  have hpos := List.length_pos_iff.mpr hroot
  have hle : token.getLast?.toList.length ≤ 1 := by cases token.getLast? <;> simp
  omega

/-- No step disturbs a chain that has not been disturbed. -/
theorem Undisturbed.moveAt {choice : Choice} (h : s.Undisturbed)
    (hm : s.moveAt choice = some s') : s'.Undisturbed := by
  have hroot := root_of_moveAt hm
  refine ⟨hroot ▸ h.root, ?_, ?_, ?_⟩
  · cases choice with
    | source =>
      have ho := offers_of_moveSource hm
      intro c hc hd
      rw [ho.root_eq] at hd ⊢
      rw [ho.cancelled] at hc
      rcases hc with hc | hc
      · exact h.spares c (.inl hc) hd
      · obtain ⟨p, hp, rfl⟩ := List.mem_map.mp hc
        rcases ho.scheduled p hp with hp | hp
        · exact h.spares p.2 (.inr (List.mem_map_of_mem hp)) hd
        · exact hp
    | place i step =>
      obtain ⟨m, hm', rfl⟩ := Option.map_eq_some_iff.mp hm
      rcases turns_of_moveBelow hm' with ht | ⟨st, hst, r, token, hr, hc, ht⟩
      · rw [ht]
        exact h.spares
      · rw [ht]
        refine h.spares.cancel fun hd => ?_
        cases hc with
        | stage phase =>
          exact absurd List.mem_cons_self ((h.tame st hst).left r _ _ hr phase)
        | run => exact eq_of_suffix_getLast h.root hd
  · rw [hroot]
    exact kept_of_moveAt (Station.kept_scoped _) (fun _ hj => hj) hm h.scopes
  · exact kept_of_moveAt Station.kept_tame (fun _ _ => trivial) hm h.tame

/-- Nor does the passing of time. -/
theorem Undisturbed.wait (h : s.Undisturbed) (moment : Nat) : (s.wait moment).Undisturbed where
  root := h.root
  spares := h.spares.advanceTo moment
  scopes := kept_of_wait (Station.kept_scoped _) moment h.scopes
  tame := h.tame

/-- **Every schedule leaves the scopes of the stages alone.** -/
theorem Reaches.undisturbed (hr : Reaches s s') (h : s.Undisturbed) : s'.Undisturbed := by
  induction hr with
  | refl => exact h
  | move choice _ hm ih => exact ih.moveAt hm
  | wait moment _ ih => exact ih.wait moment

/-- A chain of stages that have nothing to do yet. -/
theorem undisturbed_idle {stages : List (Stage α)} (hroot : s.root.token ≠ [])
    (hspares : s.time.Spares s.root.token) (hs : s.stations = stages.map .idle)
    (htame : ∀ stage ∈ stages, ∀ item k, .cancelStage ∉ stage.body item k) : s.Undisturbed where
  root := hroot
  spares := hspares
  scopes st hst := by
    obtain ⟨stage, -, rfl⟩ := List.mem_map.mp (hs ▸ hst)
    exact Station.scoped_idle _ _ stage
  tame st hst := by
    obtain ⟨stage, hmem, rfl⟩ := List.mem_map.mp (hs ▸ hst)
    exact Station.tame_idle (htame stage hmem)

end System

/-! ## what is blamed -/

namespace Stage

/-- The failure of a body that is blamed on the timeout. -/
def overdue (stage : Stage α) (f : Failure) : Failure :=
  f.within ("stage " ++ stage.name ++ " exceeded " ++ stage.timeout.text)

def failed (stage : Stage α) (f : Failure) : Failure := f.within ("stage " ++ stage.name)

/-- The time of a run that began at `start` is over at a moment. -/
def IsOver (stage : Stage α) (start moment : Nat) : Prop :=
  ∃ d, stage.limit? start = some d ∧ d ≤ moment

/-- A body that is over stays over. -/
theorem IsOver.later {stage : Stage α} {start moment later : Nat}
    (h : stage.IsOver start moment) (hl : moment ≤ later) : stage.IsOver start later := by
  obtain ⟨d, hd, hle⟩ := h
  exact ⟨d, hd, Nat.le_trans hle hl⟩

instance (stage : Stage α) (start moment : Nat) : Decidable (stage.IsOver start moment) :=
  decidable_of_iff ((stage.limit? start).any (· ≤ moment) = true) <| by
    simp [IsOver, Option.any_eq_true]

/-- The two are told apart. -/
theorem overdue_ne_failed (stage : Stage α) (f : Failure) : stage.overdue f ≠ stage.failed f := by
  intro h
  have hlength := congrArg (fun g : Failure => g.message.length) h
  simp only [overdue, failed, Failure.within, String.length_append] at hlength
  have : " exceeded ".length = 10 := rfl
  omega

/-- The deadline of a stage is blamed just if its scope is at its end and that of the
item is not. -/
theorem blame_eq (stage : Stage α) (stageExpired itemExpired : Bool) (f : Failure) :
    blame stage.name stage.timeout stageExpired itemExpired f =
      if stageExpired && !itemExpired then stage.overdue f else stage.failed f := rfl

end Stage

/-- The scope of a stage is at its end just if its time is over, as long as the
item may be worked on for ever. -/
theorem Run.Scoped.isExpired_iff {t : Timeline} {root : Token} {stage : Stage α} {r : Run α}
    (h : r.Scoped root stage t.now) (hspares : t.Spares root)
    (hlive : t.isCancelled r.job.scope.token = false) (hdeadline : r.job.scope.deadline = none) :
    t.isExpired r.scope = true ↔ stage.IsOver r.record.start t.now := by
  obtain ⟨k, hscope⟩ := h.scope
  rw [hdeadline] at hscope
  rw [hscope, Timeline.isExpired, hspares.isCancelled_cons h.descends, hlive, Bool.false_or,
    Timeline.isPast_iff]
  rfl

/-- A station at which the body has ended reports at once when the last report
on what it handed on has come. -/
theorem Station.report_of_move {t : Timeline} {st : Station α} {r : Run α} {own : Option Failure}
    {m : StationMove α} (hr : st.current = some r) (hp : r.phase = .joining own)
    (hm : st.move t = some m) :
    ∃ reports, outcomes? r.handles = some reports ∧ m = st.report t r own reports := by
  unfold move at hm
  split at hm
  · cases hm
  · simp only [hr, hp] at hm
    obtain ⟨reports, hcame, rfl⟩ := Option.map_eq_some_iff.mp hm
    exact ⟨reports, hcame, rfl⟩

namespace System

variable {s₀ s : System α} {stages : List (Stage α)} {st : Station α} {r : Run α} {f : Failure}
  {m : StationMove α}

/-- **A stage blames the timeout just if it is over when the stage reports**,
which it does when all that its body handed on has been reported on.  It is
right to do so or not to, going by when the body ended, just if the time was
over then or is not over yet. -/
theorem blames_overdue_iff (hroot : s₀.root.token ≠ []) (hspares : s₀.time.Spares s₀.root.token)
    (hidle : s₀.stations = stages.map .idle)
    (htame : ∀ stage ∈ stages, ∀ item k, .cancelStage ∉ stage.body item k)
    (hreach : s₀.Reaches s) (hst : st ∈ s.stations) (hr : st.current = some r)
    (hp : r.phase = .joining (some f)) (hlive : s.time.isCancelled r.job.scope.token = false)
    (hdeadline : r.job.scope.deadline = none) (hm : st.move s.time = some m) :
    ∃ ended reports leaf,
      r.record.finish = some (ended, false) ∧ r.record.start ≤ ended ∧ ended ≤ s.time.now ∧
      outcomes? r.handles = some reports ∧
      m.completions = [⟨r.job.ticket, reportOf (some leaf) reports⟩] ∧
      (leaf = st.stage.overdue f ∨ leaf = st.stage.failed f) ∧
      (leaf = st.stage.overdue f ↔ st.stage.IsOver r.record.start s.time.now) ∧
      ((leaf = st.stage.overdue f ↔ st.stage.IsOver r.record.start ended) ↔
        st.stage.IsOver r.record.start ended ∨ ¬ st.stage.IsOver r.record.start s.time.now) := by
  have hu := hreach.undisturbed (undisturbed_idle hroot hspares hidle htame)
  have hscoped := (hu.scopes st hst).current r hr
  obtain ⟨ended, hfinish, hstart, hended⟩ := hscoped.joining _ hp
  obtain ⟨reports, hcame, rfl⟩ := Station.report_of_move hr hp hm
  have hexpired := hscoped.isExpired_iff hu.spares hlive hdeadline
  have hitem : s.time.isExpired r.job.scope = false := by
    rw [Timeline.isExpired, hlive, Timeline.isPast, hdeadline]
    rfl
  have hlater := fun h : st.stage.IsOver r.record.start ended => h.later hended
  -- the leaf of the report, and when it is which of the two
  obtain ⟨leaf, hleaf⟩ : ∃ leaf, leaf = blame st.stage.name st.stage.timeout
    (s.time.isExpired r.scope) (s.time.isExpired r.job.scope) f := ⟨_, rfl⟩
  have hcompletions : (st.report s.time r (some f) reports).completions =
      [⟨r.job.ticket, reportOf (some leaf) reports⟩] := by
    rw [hleaf]
    rfl
  rw [Stage.blame_eq, hitem, Bool.not_false, Bool.and_true] at hleaf
  have hoverdue : leaf = st.stage.overdue f ↔ st.stage.IsOver r.record.start s.time.now := by
    rw [← hexpired, hleaf]
    split
    next he => exact iff_of_true rfl he
    next he => exact iff_of_false (st.stage.overdue_ne_failed f).symm he
  refine ⟨ended, reports, leaf, hfinish, hstart, hended, hcame, hcompletions, ?_, hoverdue, ?_⟩
  · rw [hleaf]
    split
    · exact .inl rfl
    · exact .inr rfl
  · rw [hoverdue]
    tauto

/-- Two stages: the first one hands on an item and fails at once, with so many
milliseconds to do so; the second one takes 200 ms. -/
def splitThenSlow (timeout : UInt64) : List (Stage Nat) :=
  [⟨"split", .ofMillis timeout, fun _ _ => [.produce [1], .fail (.plain "boom")]⟩,
   ⟨"slow", .ofMillis 10000, fun _ _ => [.sleep 200000000]⟩]

/-- The chain of the two before any step. -/
def splitStart (timeout : UInt64) : System Nat :=
  script ⟨[0], none⟩ .start [⟨0, none, none⟩] (splitThenSlow timeout)

/-- The run of the first one when the report on its item has come, as it was at
the beginning but for this. -/
def splitRun (timeout : Nat) : Run Nat :=
  ⟨⟨0, ⟨[0], none⟩, 0⟩, ⟨[0, 0], some timeout⟩, .joining (some (.plain "boom")), [some none],
    ⟨0, 0, some (0, false), none⟩⟩

/-- The first stage with its run. -/
def splitStation (timeout : UInt64) : Station Nat :=
  { Station.idle ⟨"split", .ofMillis timeout, fun _ _ => [.produce [1], .fail (.plain "boom")]⟩ with
    current := some (splitRun (timeout.toNat * 1000000)) }

/-- The chain begins with nothing cancelled, and no body of it cancels anything. -/
theorem splitStart_undisturbed (timeout : UInt64) :
    (splitStart timeout).time.Spares [0] ∧
      ∀ stage ∈ splitThenSlow timeout, ∀ item k, .cancelStage ∉ stage.body item k := by
  constructor
  · rintro c (hc | hc) <;> exact absurd hc List.not_mem_nil
  · simp [splitThenSlow]

/-- With 300 ms to do so, the timeout is not blamed. -/
theorem blames_overdue_iff_unhurried :
    let s := (splitStart 300).runFor 11
    let st := splitStation 300
    st ∈ s.stations ∧ s.time.now = 200000000 ∧ ∃ m leaf, st.move s.time = some m ∧
      m.completions = [⟨0, reportOf (some leaf) [none]⟩] ∧
      leaf = st.stage.failed (.plain "boom") := by
  intro s st
  have hst : st ∈ s.stations := List.mem_cons.mpr (.inl rfl)
  obtain ⟨hspares, htame⟩ := splitStart_undisturbed 300
  obtain ⟨ended, reports, leaf, -, -, -, hcame, hcompletions, htwo, hoverdue, -⟩ :=
    blames_overdue_iff (List.cons_ne_nil 0 []) hspares rfl htame (runFor_reaches 11 _) hst rfl rfl
      rfl rfl rfl
  have hintime : ¬ (splitStation 300).stage.IsOver 0 200000000 := by decide
  refine ⟨hst, rfl, _, leaf, rfl, ?_, htwo.resolve_left fun h => hintime (hoverdue.mp h)⟩
  obtain rfl : [none] = reports := Option.some.inj hcame
  exact hcompletions

/-- With 100 ms it is, though the body fails at once. -/
theorem prompt_failure_blamed_overdue :
    let s := (splitStart 100).runFor 11
    let st := splitStation 100
    let r := splitRun 100000000
    (splitStart 100).Reaches s ∧ st ∈ s.stations ∧ st.current = some r ∧
      s.time.isCancelled r.job.scope.token = false ∧ r.job.scope.deadline = none ∧
      r.record.finish = some (0, false) ∧ ¬ st.stage.IsOver r.record.start 0 ∧
      ∃ m, st.move s.time = some m ∧
        m.completions = [⟨0, some (.own (st.stage.overdue (.plain "boom")))⟩] := by
  intro s st r
  refine ⟨runFor_reaches 11 _, ?_, ?_, ?_, ?_, ?_, ?_, ?_⟩
  · exact List.mem_cons.mpr (.inl rfl)
  · rfl
  · rfl
  · rfl
  · rfl
  · have hintime : ¬ (splitStation 100).stage.IsOver 0 0 := by decide
    exact hintime
  · exact ⟨_, rfl, rfl⟩

end System

end LintPatrol.Chain
