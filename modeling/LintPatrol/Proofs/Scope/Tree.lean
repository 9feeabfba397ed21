import LintPatrol.Proofs.Role.Timely
import LintPatrol.Proofs.Scope.Expiry
import LintPatrol.Scope.Wait
import Mathlib.Order.Bounds.Basic

/-!
# LintPatrol.Proofs.Scope.Tree

Scopes that are made within each other form a tree.  A tree of scopes is
changed step by step: a scope is made within another one, a scope is cancelled,
or time passes (`ScopeTree.step`).

What becomes of a scope is read off the history of the tree alone, in which
there are no tokens and no deadlines: how each scope was made, which were
cancelled, and what time it is (`ScopeHistory`).  The tree and its history
agree after every step (`ScopeTree.Agrees`).

## Main statements

* `ScopeTree.Agrees.suffix_iff`: a token is a tail of another one just if its
  scope encloses that of the other one.
* `ScopeTree.Agrees.deadline`: a scope ends by itself at the earliest of the
  moments set to it and to those that enclose it.
* `ScopeTree.bounds_after`: what a scope does, after any steps.
-/

namespace LintPatrol

open Time

/-- What happens to a tree of scopes, which are numbered as they are made. -/
inductive ScopeStep where
  | child (parent : Nat) (timeout : Duration)
  | cancel (scope : Nat)
  | advance (length : Nat)

/-! ## trees -/

/-- A tree of scopes, in the order in which they were made. -/
structure ScopeTree where
  time : Timeline
  scopes : List Scope

namespace ScopeTree

/-- A root alone, made at a moment. -/
def plant (moment : Nat) : ScopeTree :=
  let (scope, time) := { Timeline.start with now := moment }.root
  { time, scopes := [scope] }

/-- The tree after a step; there is no step for a scope that there is not. -/
def step (t : ScopeTree) : ScopeStep → ScopeTree
  | .child parent timeout =>
    match t.scopes[parent]? with
    | some s =>
      let (scope, time) := t.time.child s timeout
      { time, scopes := t.scopes ++ [scope] }
    | none => t
  | .cancel i =>
    match t.scopes[i]? with
    | some s => { t with time := t.time.cancel s.token }
    | none => t
  | .advance length => { t with time := t.time.advanceTo (t.time.now + length) }

def after (t : ScopeTree) (steps : List ScopeStep) : ScopeTree := steps.foldl step t

end ScopeTree

/-! ## histories -/

/-- How a scope was made. -/
inductive Birth where
  | root
  | within (parent moment : Nat) (timeout : Duration)

/-- The moment that is set to the scope itself, unless the clock cannot show
it. -/
def Birth.limit? : Birth → Option Nat
  | root => none
  | within _ moment timeout => Timeline.limit? moment timeout

/-- What has happened to a tree of scopes. -/
structure ScopeHistory where
  now : Nat
  births : List Birth
  cancelled : List Nat

namespace ScopeHistory

def start (moment : Nat) : ScopeHistory := ⟨moment, [.root], []⟩

/-- One step more. -/
def note (h : ScopeHistory) : ScopeStep → ScopeHistory
  | .child parent timeout =>
    if parent < h.births.length then
      { h with births := h.births ++ [.within parent h.now timeout] }
    else h
  | .cancel i => if i < h.births.length then { h with cancelled := i :: h.cancelled } else h
  | .advance length => { h with now := h.now + length }

def after (h : ScopeHistory) (steps : List ScopeStep) : ScopeHistory := steps.foldl note h

/-- The one scope is the other, or an ancestor of it. -/
inductive Encloses (h : ScopeHistory) (a : Nat) : Nat → Prop
  | self : h.Encloses a a
  | within {i parent moment : Nat} {timeout : Duration}
    (birth : h.births[i]? = some (.within parent moment timeout)) (outer : h.Encloses a parent) :
    h.Encloses a i

theorem Encloses.trans {h : ScopeHistory} {a i j : Nat} (hi : h.Encloses a i)
    (hj : h.Encloses i j) : h.Encloses a j := by
  induction hj with
  | self => exact hi
  | within birth _ ih => exact .within birth ih

/-- Only a root itself encloses it. -/
theorem encloses_root_iff {h : ScopeHistory} {a i : Nat} (hb : h.births[i]? = some .root) :
    h.Encloses a i ↔ a = i := by
  constructor
  · intro he
    cases he with
    | self => rfl
    | within birth _ => cases hb.symm.trans birth
  · rintro rfl
    exact .self

/-- A scope is enclosed by itself, and by what encloses the one it was made in. -/
theorem encloses_within_iff {h : ScopeHistory} {a i parent moment : Nat} {timeout : Duration}
    (hb : h.births[i]? = some (.within parent moment timeout)) :
    h.Encloses a i ↔ a = i ∨ h.Encloses a parent := by
  constructor
  · intro he
    cases he with
    | self => exact .inl rfl
    | within birth outer =>
      cases hb.symm.trans birth
      exact .inr outer
  · rintro (rfl | outer)
    · exact .self
    · exact .within hb outer

/-- The scopes were made within the same one. -/
def Siblings (h : ScopeHistory) (i j : Nat) : Prop :=
  i ≠ j ∧ ∃ parent moment timeout moment' timeout',
    h.births[i]? = some (.within parent moment timeout) ∧
      h.births[j]? = some (.within parent moment' timeout')

/-- The moments that are set to the scope and to its ancestors. -/
def limits (h : ScopeHistory) (i : Nat) : Set Nat :=
  {m | ∃ a b, h.Encloses a i ∧ h.births[a]? = some b ∧ b.limit? = some m}

/-- What bounds a scope bounds all within it. -/
theorem Encloses.limits_subset {h : ScopeHistory} {i j : Nat} (he : h.Encloses i j) :
    h.limits i ⊆ h.limits j := by
  rintro m ⟨a, b, ha, hb, hm⟩
  exact ⟨a, b, ha.trans he, hb, hm⟩

theorem limits_root {h : ScopeHistory} {i : Nat} (hb : h.births[i]? = some .root) :
    h.limits i = ∅ := by
  refine Set.eq_empty_of_forall_notMem ?_
  rintro m ⟨a, b, he, hb', hm⟩
  obtain rfl := (encloses_root_iff hb).mp he
  cases hb.symm.trans hb'
  cases hm

/-- It is limited as that one is, and by its own timeout. -/
theorem limits_within {h : ScopeHistory} {i parent moment : Nat} {timeout : Duration}
    (hb : h.births[i]? = some (.within parent moment timeout)) :
    h.limits i = h.limits parent ∪ {m | (Birth.within parent moment timeout).limit? = some m} := by
  ext m
  constructor
  · rintro ⟨a, b, he, hb', hm⟩
    rcases (encloses_within_iff hb).mp he with rfl | he
    · cases hb.symm.trans hb'
      exact .inr hm
    · exact .inl ⟨a, b, he, hb', hm⟩
  · rintro (⟨a, b, he, hb', hm⟩ | hm)
    · exact ⟨a, b, .within hb he, hb', hm⟩
    · exact ⟨i, _, .self, hb, hm⟩

end ScopeHistory

/-! ## the earliest moment -/

/-- The earliest of some moments, if there are any. -/
def IsEarliest (moments : Set Nat) : Option Nat → Prop
  | none => moments = ∅
  | some d => IsLeast moments d

/-- Of two deadlines the earlier one counts. -/
theorem IsEarliest.earlier {moments moments' : Set Nat} {d d' : Option Nat}
    (h : IsEarliest moments d) (h' : IsEarliest moments' d') :
    IsEarliest (moments ∪ moments') (Timeline.earlier d d') := by
  cases d with
  | none =>
    obtain rfl : moments = ∅ := h
    rw [Set.empty_union]
    exact h'
  | some a =>
    cases d' with
    | none =>
      obtain rfl : moments' = ∅ := h'
      rw [Set.union_empty]
      exact h
    | some b => exact IsLeast.union h h'

/-- Of more moments the earliest is not later. -/
theorem IsEarliest.exists_le {moments moments' : Set Nat} {d : Nat} {d' : Option Nat}
    (h : IsEarliest moments (some d)) (h' : IsEarliest moments' d') (hsub : moments ⊆ moments') :
    ∃ e, d' = some e ∧ e ≤ d := by
  have hmem : d ∈ moments' := hsub h.1
  cases d' with
  | none =>
    obtain rfl : moments' = ∅ := h'
    exact absurd hmem (Set.notMem_empty d)
  | some e => exact ⟨e, rfl, h'.2 hmem⟩

theorem IsEarliest.limit? (b : Birth) : IsEarliest {m | b.limit? = some m} b.limit? := by
  cases hb : b.limit? with
  | none => exact Set.eq_empty_of_forall_notMem fun m h => nomatch h
  | some d => exact ⟨rfl, fun m h => Nat.le_of_eq (Option.some.inj h)⟩

/-! ## the tree and its history -/

namespace ScopeTree

/-- The scope with a number is what its making says. -/
inductive Grown (scopes : List Scope) (i : Nat) : Birth → Scope → Prop
  | root : Grown scopes i .root ⟨[i], none⟩
  | within {parent moment : Nat} {timeout : Duration} {outer : Scope} (lt : parent < i)
    (made : scopes[parent]? = some outer) :
    Grown scopes i (.within parent moment timeout)
      ⟨i :: outer.token,
        Timeline.earlier outer.deadline (Birth.within parent moment timeout).limit?⟩

namespace Grown

variable {scopes : List Scope} {i : Nat} {b : Birth} {s : Scope}

/-- Scopes that are made later do not change the tree above one. -/
theorem append (h : Grown scopes i b s) (more : List Scope) : Grown (scopes ++ more) i b s := by
  cases h with
  | root => exact .root
  | within lt made =>
    exact .within lt (List.getElem?_append_left (List.getElem?_eq_some_iff.mp made).1 ▸ made)

/-- The last part of the way from the root is the scope itself. -/
theorem token_eq (h : Grown scopes i b s) : ∃ way, s.token = i :: way := by
  cases h with
  | root => exact ⟨[], rfl⟩
  | within _ _ => exact ⟨_, rfl⟩

end Grown

/-- The token is that of the scope with this number. -/
def Names (scopes : List Scope) (token : Token) (i : Nat) : Prop :=
  ∃ s, scopes[i]? = some s ∧ s.token = token

/-- The tree is what its history says. -/
structure Agrees (t : ScopeTree) (h : ScopeHistory) : Prop where
  now : t.time.now = h.now
  births : h.births.length = t.scopes.length
  made : t.time.made = t.scopes.length
  scheduled : t.time.scheduled = []
  grown : ∀ i s b, t.scopes[i]? = some s → h.births[i]? = some b → Grown t.scopes i b s
  cancelled : List.Forall₂ (Names t.scopes) t.time.cancelled h.cancelled

namespace Agrees

variable {t : ScopeTree} {h : ScopeHistory} {i j : Nat} {s s' : Scope}

/-! ### steps -/

theorem start (moment : Nat) : (plant moment).Agrees (.start moment) where
  now := rfl
  births := rfl
  made := rfl
  scheduled := rfl
  grown := by
    intro i s b hs hb
    obtain rfl : i = 0 := Nat.lt_one_iff.mp (List.getElem?_eq_some_iff.mp hb).1
    obtain rfl : ⟨[0], none⟩ = s := Option.some.inj hs
    obtain rfl : .root = b := Option.some.inj hb
    exact .root
  cancelled := .nil

/-- A scope is made within another one. -/
theorem child (ha : t.Agrees h) (hs : t.scopes[i]? = some s) (timeout : Duration) :
    Agrees
      { time := (t.time.child s timeout).2, scopes := t.scopes ++ [(t.time.child s timeout).1] }
      { h with births := h.births ++ [.within i h.now timeout] } where
  now := ha.now
  births := by simp [ha.births]
  made := by simp [Timeline.child, ha.made]
  scheduled := ha.scheduled
  grown := by
    intro k s' b hs' hb
    rcases Nat.lt_or_ge k t.scopes.length with hk | hk
    · rw [List.getElem?_append_left hk] at hs'
      rw [List.getElem?_append_left (ha.births ▸ hk)] at hb
      exact (ha.grown k s' b hs' hb).append _
    · -- the one that has been made last
      have hle := (List.getElem?_eq_some_iff.mp hb).1
      rw [List.length_append, ha.births, List.length_singleton] at hle
      obtain rfl : k = t.scopes.length := by omega
      rw [List.getElem?_append_right (Nat.le_refl _), Nat.sub_self] at hs'
      rw [← ha.births, List.getElem?_append_right (Nat.le_refl _), Nat.sub_self] at hb
      obtain rfl : (t.time.child s timeout).1 = s' := Option.some.inj hs'
      obtain rfl : .within i h.now timeout = b := Option.some.inj hb
      have hi := (List.getElem?_eq_some_iff.mp hs).1
      have hmade : (t.scopes ++ [(t.time.child s timeout).1])[i]? = some s := by
        rwa [List.getElem?_append_left hi]
      have hg : Grown _ t.scopes.length (.within i h.now timeout) _ := .within hi hmade
      simpa [Timeline.child, Timeline.deadlineAfter_eq, Birth.limit?, ha.made, ha.now] using hg
  cancelled := ha.cancelled.imp fun _ k ⟨s', hs', htoken⟩ =>
    ⟨s', List.getElem?_append_left (List.getElem?_eq_some_iff.mp hs').1 ▸ hs', htoken⟩

/-- A scope is cancelled. -/
theorem cancel (ha : t.Agrees h) (hs : t.scopes[i]? = some s) :
    Agrees { t with time := t.time.cancel s.token } { h with cancelled := i :: h.cancelled } :=
  { ha with cancelled := .cons ⟨s, hs, rfl⟩ ha.cancelled }

/-- Time passes. -/
theorem advance (ha : t.Agrees h) (length : Nat) :
    Agrees { t with time := t.time.advanceTo (t.time.now + length) }
      { h with now := h.now + length } where
  now := by simp [Timeline.advanceTo, ha.now]
  births := ha.births
  made := ha.made
  scheduled := by simp [Timeline.advanceTo, ha.scheduled]
  grown := ha.grown
  cancelled := by simpa [Timeline.advanceTo, ha.scheduled] using ha.cancelled

/-- **A step keeps the tree and its history in agreement.** -/
theorem step (ha : t.Agrees h) (a : ScopeStep) : (t.step a).Agrees (h.note a) := by
  cases a with
  | child parent timeout =>
    cases hs : t.scopes[parent]? with
    | none =>
      have hlen : ¬ parent < h.births.length := by
        rw [ha.births, Nat.not_lt]
        exact List.getElem?_eq_none_iff.mp hs
      simpa [ScopeTree.step, ScopeHistory.note, hs, hlen] using ha
    | some s =>
      have hlen : parent < h.births.length := ha.births ▸ (List.getElem?_eq_some_iff.mp hs).1
      simpa [ScopeTree.step, ScopeHistory.note, hs, hlen] using ha.child hs timeout
  | cancel i =>
    cases hs : t.scopes[i]? with
    | none =>
      have hlen : ¬ i < h.births.length := by
        rw [ha.births, Nat.not_lt]
        exact List.getElem?_eq_none_iff.mp hs
      simpa [ScopeTree.step, ScopeHistory.note, hs, hlen] using ha
    | some s =>
      have hlen : i < h.births.length := ha.births ▸ (List.getElem?_eq_some_iff.mp hs).1
      simpa [ScopeTree.step, ScopeHistory.note, hs, hlen] using ha.cancel hs
  | advance length => exact ha.advance length

/-- A tree and its history agree after whatever is done to both. -/
theorem after (ha : t.Agrees h) (steps : List ScopeStep) :
    (t.after steps).Agrees (h.after steps) := by
  induction steps generalizing t h with
  | nil => exact ha
  | cons a steps ih => exact ih (ha.step a)

/-! ### ancestors -/

/-- Every scope has a birth that it has grown from. -/
theorem grown_of_scope (ha : t.Agrees h) (hs : t.scopes[i]? = some s) :
    ∃ b, h.births[i]? = some b ∧ Grown t.scopes i b s := by
  have hi : i < h.births.length := ha.births ▸ (List.getElem?_eq_some_iff.mp hs).1
  exact ⟨_, List.getElem?_eq_getElem hi, ha.grown i s _ hs (List.getElem?_eq_getElem hi)⟩

/-- Every birth has a scope that has grown from it. -/
theorem grown_of_birth (ha : t.Agrees h) {b : Birth} (hb : h.births[i]? = some b) :
    ∃ s, t.scopes[i]? = some s ∧ Grown t.scopes i b s := by
  have hi : i < t.scopes.length := ha.births ▸ (List.getElem?_eq_some_iff.mp hb).1
  exact ⟨_, List.getElem?_eq_getElem hi, ha.grown i _ b (List.getElem?_eq_getElem hi) hb⟩

/-- A scope is made later than its ancestors. -/
theorem le_of_encloses (ha : t.Agrees h) (he : h.Encloses i j) : i ≤ j := by
  induction he with
  | self => exact Nat.le_refl _
  | within birth _ ih =>
    obtain ⟨s, -, hg⟩ := ha.grown_of_birth birth
    cases hg with
    | within lt made => exact Nat.le_of_lt (Nat.lt_of_le_of_lt ih lt)

theorem token_eq (ha : t.Agrees h) (hs : t.scopes[i]? = some s) : ∃ way, s.token = i :: way := by
  obtain ⟨b, -, hg⟩ := ha.grown_of_scope hs
  exact hg.token_eq

/-- Every scope has a token of its own. -/
theorem token_eq_iff (ha : t.Agrees h) (hs : t.scopes[i]? = some s)
    (hs' : t.scopes[j]? = some s') : s.token = s'.token ↔ i = j := by
  obtain ⟨way, hway⟩ := ha.token_eq hs
  obtain ⟨way', hway'⟩ := ha.token_eq hs'
  constructor
  · intro htoken
    rw [hway, hway'] at htoken
    exact (List.cons.inj htoken).1
  · rintro rfl
    rw [Option.some.inj (hs.symm.trans hs')]

/-- **A token is a tail of another one just if its scope encloses that of the
other one.** -/
theorem suffix_iff (ha : t.Agrees h) (hs : t.scopes[i]? = some s)
    (hs' : t.scopes[j]? = some s') : s.token <:+ s'.token ↔ h.Encloses i j := by
  induction j using Nat.strong_induction_on generalizing s' with
  | _ j ih =>
  have heq := ha.token_eq_iff hs hs'
  obtain ⟨b, hb, hg⟩ := ha.grown_of_scope hs'
  cases hg with
  | root =>
    obtain ⟨way, hway⟩ := ha.token_eq hs
    have hne : s.token ≠ [] := by simp [hway]
    rw [List.suffix_cons_iff, List.suffix_nil, ScopeHistory.encloses_root_iff hb, heq]
    exact or_iff_left hne
  | within lt made =>
    rw [List.suffix_cons_iff, ScopeHistory.encloses_within_iff hb, heq, ih _ lt made]

/-- **A scope ends by itself at the earliest of the moments set to it and to
those that enclose it.** -/
theorem deadline (ha : t.Agrees h) (hs : t.scopes[i]? = some s) :
    IsEarliest (h.limits i) s.deadline := by
  induction i using Nat.strong_induction_on generalizing s with
  | _ i ih =>
  obtain ⟨b, hb, hg⟩ := ha.grown_of_scope hs
  cases hg with
  | root => exact ScopeHistory.limits_root hb
  | within lt made =>
    rw [ScopeHistory.limits_within hb]
    exact (ih _ lt made).earlier (.limit? _)

/-! ### ends -/

/-- A scope has been cancelled just if one that encloses it was. -/
theorem isCancelled_iff (ha : t.Agrees h) (hs : t.scopes[i]? = some s) :
    t.time.isCancelled s.token = true ↔ ∃ a ∈ h.cancelled, h.Encloses a i := by
  rw [Timeline.isCancelled_iff]
  have hc := ha.cancelled
  generalize t.time.cancelled = tokens at hc
  generalize h.cancelled = numbers at hc
  induction hc with
  | nil => simp
  | cons hn _ ih =>
    obtain ⟨s', hs', rfl⟩ := hn
    simp only [List.exists_mem_cons_iff]
    exact or_congr (ha.suffix_iff hs' hs) ih

/-- **A scope is at its end just if one that encloses it was cancelled or its
deadline has come.** -/
theorem isExpired_iff (ha : t.Agrees h) (hs : t.scopes[i]? = some s) :
    t.time.isExpired s = true ↔
      (∃ a ∈ h.cancelled, h.Encloses a i) ∨ ∃ d, s.deadline = some d ∧ d ≤ h.now := by
  rw [Timeline.isExpired, Bool.or_eq_true, ha.isCancelled_iff hs, Timeline.isPast_iff, ha.now]

/-- At its end a scope has ended all that it encloses. -/
theorem isExpired_of_encloses (ha : t.Agrees h) (hs : t.scopes[i]? = some s)
    (hs' : t.scopes[j]? = some s') (he : h.Encloses i j) (hexp : t.time.isExpired s = true) :
    t.time.isExpired s' = true := by
  rw [ha.isExpired_iff hs] at hexp
  rw [ha.isExpired_iff hs']
  rcases hexp with ⟨a, hmem, ha'⟩ | ⟨d, hd, hle⟩
  · exact .inl ⟨a, hmem, ha'.trans he⟩
  · obtain ⟨e, hd', hle'⟩ := (hd ▸ ha.deadline hs).exists_le (ha.deadline hs') he.limits_subset
    exact .inr ⟨e, hd', Nat.le_trans hle' hle⟩

/-- A scope does not enclose one that encloses it, nor one beside it. -/
theorem not_encloses (ha : t.Agrees h) (hj : h.Encloses j i ∧ j ≠ i ∨ h.Siblings i j) :
    ¬ h.Encloses i j := by
  intro he
  rcases hj with ⟨he', hne⟩ | ⟨hne, parent, moment, timeout, moment', timeout', hi, hj⟩
  · exact hne (Nat.le_antisymm (ha.le_of_encloses he') (ha.le_of_encloses he))
  · rcases (ScopeHistory.encloses_within_iff hj).mp he with heq | outer
    · exact hne heq
    · -- the one they were made within is not younger than the first
      obtain ⟨s, -, hg⟩ := ha.grown_of_birth hi
      cases hg with
      | within lt made => exact absurd (ha.le_of_encloses outer) (Nat.not_le_of_lt lt)

end Agrees

/-! ## what a scope does -/

/-- A scope within its tree. -/
structure Bounds (t : ScopeTree) (h : ScopeHistory) (i : Nat) (s : Scope) : Prop where
  /-- The history knows how each of the scopes was made. -/
  births : h.births.length = t.scopes.length
  /-- It ends by itself at the earliest of the moments set to it and to its
  ancestors. -/
  deadline : IsEarliest (h.limits i) s.deadline
  /-- It is at its end just if it or an ancestor was cancelled, or its deadline
  has come. -/
  isExpired_iff : t.time.isExpired s = true ↔
    (∃ a ∈ h.cancelled, h.Encloses a i) ∨ ∃ d, s.deadline = some d ∧ d ≤ h.now
  /-- No scope that was made within it, or within one of those, outlives it. -/
  descendants : ∀ j s', t.scopes[j]? = some s' → h.Encloses i j →
    t.time.isExpired s = true → t.time.isExpired s' = true
  /-- To cancel it brings to their end it and those within it, and no
  other. -/
  cancel : ∀ j s', t.scopes[j]? = some s' →
    ((t.step (.cancel i)).time.isExpired s' = true ↔
      h.Encloses i j ∨ t.time.isExpired s' = true)
  /-- To cancel it leaves its ancestors and those beside it as they were. -/
  spares : ∀ j s', t.scopes[j]? = some s' → h.Encloses j i ∧ j ≠ i ∨ h.Siblings i j →
    (t.step (.cancel i)).time.isExpired s' = t.time.isExpired s'
  /-- Whatever happens, it stays what it is. -/
  lasting : ∀ more, (t.after more).scopes[i]? = some s
  /-- Once at its end it stays there. -/
  stays : t.time.isExpired s = true → ∀ more, (t.after more).time.isExpired s = true
  /-- At its end, work that is waited for is not begun. -/
  refused : t.time.isExpired s = true → ∀ length, t.time.run s length = (false, t.time)
  /-- At its end, stored data are not reached. -/
  unreached : ∀ {δ ε β : Type} (w : World δ ε) (f : δ → β × δ), w.time = t.time →
    t.time.isExpired s = true → w.call s f = (none, w)

/-- A step makes at most one scope more, and brings none back. -/
theorem step_grows (t : ScopeTree) (a : ScopeStep) :
    t.scopes <+: (t.step a).scopes ∧ t.time.Leads (t.step a).time := by
  cases a with
  | child parent timeout =>
    cases hs : t.scopes[parent]? with
    | none => simpa [step, hs] using Timeline.Leads.refl t.time
    | some s => simpa [step, hs] using Timeline.Leads.child t.time s timeout
  | cancel i =>
    cases hs : t.scopes[i]? with
    | none => simpa [step, hs] using Timeline.Leads.refl t.time
    | some s => simpa [step, hs] using Timeline.Leads.cancel t.time s.token
  | advance length => exact ⟨List.prefix_rfl, .advanceTo ..⟩

/-- Scopes are only added, and time only goes on. -/
theorem after_grows (t : ScopeTree) (steps : List ScopeStep) :
    t.scopes <+: (t.after steps).scopes ∧ t.time.Leads (t.after steps).time := by
  induction steps generalizing t with
  | nil => exact ⟨List.prefix_rfl, .refl _⟩
  | cons a steps ih =>
    obtain ⟨hscopes, htime⟩ := t.step_grows a
    obtain ⟨hscopes', htime'⟩ := ih (t.step a)
    exact ⟨hscopes.trans hscopes', htime.trans htime'⟩

namespace Agrees

variable {t : ScopeTree} {h : ScopeHistory} {i j : Nat} {s s' : Scope}

/-- To cancel a scope brings to their end it and those within it. -/
theorem isExpired_cancel_iff (ha : t.Agrees h) (hs : t.scopes[i]? = some s)
    (hs' : t.scopes[j]? = some s') :
    (t.step (.cancel i)).time.isExpired s' = true ↔
      h.Encloses i j ∨ t.time.isExpired s' = true := by
  have hstep : (t.step (.cancel i)).time = t.time.cancel s.token := by simp [ScopeTree.step, hs]
  have hpast : (t.time.cancel s.token).isPast s' = t.time.isPast s' := rfl
  rw [hstep, Timeline.isExpired, Timeline.isExpired, Bool.or_eq_true, Bool.or_eq_true,
    Timeline.isCancelled_cancel_iff, ha.suffix_iff hs hs', hpast, or_assoc]

/-- All that is promised of a scope, read off its history. -/
theorem toBounds (ha : t.Agrees h) (hs : t.scopes[i]? = some s) : t.Bounds h i s where
  births := ha.births
  deadline := ha.deadline hs
  isExpired_iff := ha.isExpired_iff hs
  descendants _ _ hs' := ha.isExpired_of_encloses hs hs'
  cancel _ _ hs' := ha.isExpired_cancel_iff hs hs'
  spares j s' hs' hj := by
    rw [Bool.eq_iff_iff, ha.isExpired_cancel_iff hs hs']
    exact or_iff_right (ha.not_encloses hj)
  lasting more := by
    obtain ⟨hi, rfl⟩ := List.getElem?_eq_some_iff.mp hs
    exact List.prefix_iff_getElem?.mp (t.after_grows more).1 i hi
  stays he more := (t.after_grows more).2.isExpired he
  refused he length := by rw [Timeline.run, if_pos he]
  unreached w f hw he := World.call_of_expired (hw ▸ he) f

end Agrees

/-- **What a scope does**, whatever has happened to its tree. -/
theorem bounds_after (moment : Nat) (steps : List ScopeStep) {i : Nat} {s : Scope}
    (hs : ((plant moment).after steps).scopes[i]? = some s) :
    ((plant moment).after steps).Bounds ((ScopeHistory.start moment).after steps) i s :=
  ((Agrees.start moment).after steps).toBounds hs

/-- A scope of a minute within one of five seconds that is cancelled. -/
theorem bounds_after_cancel :
    let steps := [.child 0 (.ofSeconds 5), .advance 2000, .child 1 (.ofSeconds 60), .cancel 1]
    let t := (plant 7).after steps
    let s : Scope := ⟨[2, 1, 0], some 5000000007⟩
    t.scopes[2]? = some s ∧ t.Bounds ((ScopeHistory.start 7).after steps) 2 s ∧
      t.time.isExpired s = true ∧ t.time.run s 1000 = (false, t.time) := by
  intro steps t s
  have hs : t.scopes[2]? = some s := by decide
  have he : t.time.isExpired s = true := by decide
  exact ⟨hs, bounds_after 7 steps hs, he, (bounds_after 7 steps hs).refused he 1000⟩

end ScopeTree

end LintPatrol
