import LintPatrol.Proofs.Chain.Batch
import LintPatrol.Proofs.Chain.Kept
import LintPatrol.Proofs.Scope.Expiry

/-!
# LintPatrol.Proofs.Chain.Scopes

The scopes in a chain, whatever the order of its steps.  All of them descend
from that of the chain, and the one that a body works in was made within that
of its item when the body began (`Station.Scoped`).

What a step does to the time is said apart (`Turns`): a body may cancel the
scope of its stage or of the chain, and the tokens that are made are counted.

## Main statements

* `Station.kept_scoped`: the scopes stay what they should be.
* `System.moveAt_leads`: no step takes back what has been cancelled.
-/

namespace LintPatrol.Chain

open Time

variable {α : Type}

/-! ## time -/

/-- The token that the next act of a body cancels. -/
inductive Run.Cancels (r : Run α) : Token → Prop
  | stage {pause : Pause} {left : List (Act α)}
    (phase : r.phase = .working pause (.cancelStage :: left)) : r.Cancels r.scope.token
  | run : r.Cancels r.scope.token.getLast?.toList

/-- What a step behind the source does to the time: a token is cancelled by the
body at work at a station, or at most tokens are made. -/
def Turns (t : Timeline) (stations : List (Station α)) (t' : Timeline) : Prop :=
  t' = { t with made := t'.made } ∨
    ∃ s ∈ stations, ∃ r token, s.current = some r ∧ r.Cancels token ∧ t' = t.cancel token

/-- A station that moves cancels what its body does, or makes tokens at most. -/
theorem Station.turns_of_move {t : Timeline} {s : Station α} {m : StationMove α}
    (h : s.move t = some m) : Turns t [s] m.time := by
  unfold move at h
  split at h
  next => cases h
  next =>
    cases hc : s.current with
    | none =>
      simp only [hc] at h
      obtain ⟨⟨job, inbox⟩, -, rfl⟩ := Option.map_eq_some_iff.mp h
      exact .inl rfl
    | some r =>
      simp only [hc] at h
      cases hp : r.phase with
      | joining own =>
        simp only [hp] at h
        obtain ⟨reports, -, rfl⟩ := Option.map_eq_some_iff.mp h
        exact .inl rfl
      | working pause left =>
        simp only [hp] at h
        have cancels : ∀ token, r.Cancels token → Turns t [s] (t.cancel token) := fun token ht =>
          .inr ⟨s, List.mem_singleton_self s, r, token, hc, ht, rfl⟩
        split at h
        next => cases h
        next =>
          cases h
          cases left with
          | nil => exact .inl rfl
          | cons a left =>
            cases a with
            | cancelStage => exact cancels _ (.stage hp)
            | cancelRun => exact cancels _ .run
            | scopeSleep length =>
              rw [act]
              split <;> exact .inl rfl
            | _ => exact .inl rfl
        next =>
          cases h
          exact .inl rfl

theorem Turns.mono {t t' : Timeline} {stations more : List (Station α)} (h : Turns t stations t')
    (hsub : stations ⊆ more) : Turns t more t' :=
  h.imp_right fun ⟨s, hs, rest⟩ => ⟨s, hsub hs, rest⟩

/-- So does every step behind the source. -/
theorem turns_of_moveBelow {t : Timeline} {step : Step} {i : Nat} {stations : List (Station α)}
    {sink : Sink α} {m : Below α} (h : moveBelow t step i stations sink = some m) :
    Turns t stations m.time := by
  induction i generalizing stations m with
  | zero =>
    cases stations with
    | nil =>
      cases step with
      | send k =>
        obtain ⟨inbox, -, rfl⟩ := Option.map_eq_some_iff.mp h
        exact .inl rfl
      | work =>
        obtain ⟨⟨job, inbox⟩, -, rfl⟩ := Option.map_eq_some_iff.mp h
        exact .inl rfl
    | cons s rest =>
      cases step with
      | send k =>
        obtain ⟨inbox, -, rfl⟩ := Option.map_eq_some_iff.mp h
        exact .inl rfl
      | work =>
        obtain ⟨sm, hs, rfl⟩ := Option.map_eq_some_iff.mp h
        exact (Station.turns_of_move hs).mono (List.cons_subset_cons s (List.nil_subset rest))
  | succ i ih =>
    cases stations with
    | nil => cases h
    | cons s rest =>
      obtain ⟨m', hm', rfl⟩ := Option.map_eq_some_iff.mp h
      exact (ih hm').mono (List.subset_cons_self ..)

/-- Neither takes back what has been cancelled. -/
theorem Turns.leads {t t' : Timeline} {stations : List (Station α)} (h : Turns t stations t') :
    t.Leads t' := by
  rcases h with h | ⟨_, _, _, token, _, _, rfl⟩
  · rw [h]
    exact ⟨Nat.le_refl _, List.Subset.refl _⟩
  · exact .cancel t token

namespace System

variable {s s' : System α}

/-- No step changes the scope that all others descend from. -/
theorem root_of_moveAt {choice : Choice} (hm : s.moveAt choice = some s') : s'.root = s.root := by
  cases choice with
  | source => exact (offers_of_moveSource hm).root_eq
  | place i step =>
    obtain ⟨m, -, rfl⟩ := Option.map_eq_some_iff.mp hm
    rfl

/-- **No step takes back what has been cancelled.** -/
theorem moveAt_leads {choice : Choice} (hm : s.moveAt choice = some s') :
    s.time.Leads s'.time := by
  cases choice with
  | source =>
    have ho := offers_of_moveSource hm
    exact ⟨Nat.le_of_eq ho.now_eq.symm, ho.cancelled ▸ List.Subset.refl _⟩
  | place i step =>
    obtain ⟨m, hm', rfl⟩ := Option.map_eq_some_iff.mp hm
    exact (turns_of_moveBelow hm').leads

end System

/-! ## the scopes -/

/-- The moment at which the time of a stage ends that began at a moment, unless
the clock cannot show it. -/
def Stage.limit? (stage : Stage α) (start : Nat) : Option Nat :=
  Timeline.limit? start stage.timeout

/-- The scope of a run was made within that of its item when the body began. -/
structure Run.Scoped (root : Token) (stage : Stage α) (now : Nat) (r : Run α) : Prop where
  descends : root <:+ r.job.scope.token
  scope : ∃ k, r.scope = ⟨k :: r.job.scope.token,
    Timeline.earlier r.job.scope.deadline (stage.limit? r.record.start)⟩
  start_le : r.record.start ≤ now
  joining : ∀ own, r.phase = .joining own → ∃ ended,
    r.record.finish = some (ended, own.isNone) ∧ r.record.start ≤ ended ∧ ended ≤ now

/-- The scopes of the jobs at a station descend from that of the chain, and the
body at work has one of its own. -/
structure Station.Scoped (root : Token) (now : Nat) (s : Station α) : Prop where
  jobs : ∀ job ∈ s.inbox.jobs, root <:+ job.scope.token
  current : ∀ r, s.current = some r → r.Scoped root s.stage now

namespace Run

variable {root : Token} {stage : Stage α} {r r' : Run α} {t : Timeline} {items : List α}

/-- As time passes the scope of a run stays what it should be. -/
theorem Scoped.later {now later : Nat} (h : r.Scoped root stage now) (hl : now ≤ later) :
    r.Scoped root stage later where
  descends := h.descends
  scope := h.scope
  start_le := Nat.le_trans h.start_le hl
  joining own hp := by
    obtain ⟨ended, hf, hs, hle⟩ := h.joining own hp
    exact ⟨ended, hf, hs, Nat.le_trans hle hl⟩

/-- As its body goes on it does so, too. -/
theorem Scoped.advances (h : r.Scoped root stage t.now) (ha : r.Advances t r' items) :
    r'.Scoped root stage t.now := by
  cases ha with
  | ends phase ends =>
    refine ⟨h.descends, h.scope, h.start_le, ?_⟩
    rintro _ ⟨⟩
    exact ⟨t.now, rfl, h.start_le, Nat.le_refl _⟩
  | passes next probe phase quiet leads =>
    refine ⟨h.descends, h.scope, h.start_le, ?_⟩
    rintro _ ⟨⟩
  | produces items phase =>
    refine ⟨h.descends, h.scope, h.start_le, ?_⟩
    rintro _ ⟨⟩

end Run

namespace Station

variable {root : Token} {s : Station α}

/-- At an idle station there are no scopes. -/
theorem scoped_idle (root : Token) (now : Nat) (stage : Stage α) :
    (Station.idle stage).Scoped root now where
  jobs _ h := absurd h List.not_mem_nil
  current _ h := nomatch h

/-- What a station does leaves its scopes what they should be. -/
theorem Scoped.does {t : Timeline} {m : StationMove α} (h : s.Scoped root t.now)
    (hd : s.Does t m) :
    m.station.Scoped root t.now ∧ ∀ job ∈ m.products, root <:+ job.scope.token := by
  cases hd with
  | begins job inbox current receive =>
    have hjobs := Inbox.jobs_receive receive
    refine ⟨⟨fun j hj => h.jobs j (hjobs ▸ List.mem_cons_of_mem _ hj), ?_⟩, ?_⟩
    · rintro _ ⟨⟩
      exact
        { descends := h.jobs job (hjobs ▸ List.mem_cons_self)
          scope := ⟨t.made, rfl⟩
          start_le := Nat.le_refl _
          joining := by rintro _ ⟨⟩ }
    · exact fun _ hj => absurd hj List.not_mem_nil
  | advances r r' items time current now advances =>
    have hr := h.current r current
    refine ⟨⟨h.jobs, ?_⟩, ?_⟩
    · rintro _ ⟨⟩
      exact hr.advances advances
    · intro job hj
      obtain ⟨p, -, rfl⟩ := List.mem_map.mp hj
      exact hr.descends
  | crashes r pause left current phase =>
    exact ⟨⟨fun _ hj => absurd hj List.not_mem_nil, fun _ hc => nomatch hc⟩,
      fun _ hj => absurd hj List.not_mem_nil⟩
  | reports r own reports current phase came =>
    exact ⟨⟨h.jobs, fun _ hc => nomatch hc⟩, fun _ hj => absurd hj List.not_mem_nil⟩

/-- The scopes at the stations stay what they should be. -/
theorem kept_scoped (root : Token) :
    Kept (α := α) (fun now s => s.Scoped root now) (fun job => root <:+ job.scope.token) where
  later h hl := ⟨h.jobs, fun r hc => (h.current r hc).later hl⟩
  add h hj := by
    refine ⟨?_, h.current⟩
    rw [Inbox.jobs_add]
    exact List.forall_mem_append.mpr ⟨h.jobs, hj⟩
  send h hs := ⟨fun job hj => h.jobs job ((Inbox.jobs_send hs).mem_iff.mp hj), h.current⟩
  hear completions h := by
    rename_i now s
    rcases s.hear_cases completions with hs | ⟨r, handles, hc, hs⟩
    · rwa [hs]
    · rw [hs]
      refine ⟨h.jobs, ?_⟩
      rintro _ ⟨⟩
      have hr := h.current r hc
      exact ⟨hr.descends, hr.scope, hr.start_le, hr.joining⟩
  does h _ hd := h.does hd

end Station

end LintPatrol.Chain
