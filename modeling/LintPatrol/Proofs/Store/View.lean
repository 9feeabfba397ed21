import LintPatrol.Proofs.Database.Undamaged
import LintPatrol.Proofs.Order.Sort
import LintPatrol.Proofs.Store.Finality
import LintPatrol.Proofs.Store.Places

/-!
# LintPatrol.Proofs.Store.View

What is listed of findings.  A `Sighting` is a stored finding with its task and
its number in the order of storing, so that two findings that say the same are
told apart.  Sightings of one place are compared by verdict, and where that is
the same by the age of their tasks and then by their numbers (`Outranks`); the
list of findings is defined by folding them in one order, and shows of each
place the sighting that outranks all others there (`Represents`).

## Main statements

* `top_represents`: the fold arrives at the sighting that outranks the others.
* `Store.mem_listFindings_iff`: what is listed.
* `Database.listFindings_viewed`: all of it, of every file that calls lead to.
-/

namespace LintPatrol

open Time

/-! ## Places -/

namespace Location

/-- Does the place come before the other one? -/
def Precedes (a b : Location) : Prop :=
  a.repoId < b.repoId ∨ a.repoId = b.repoId ∧
    (a.path < b.path ∨ a.path = b.path ∧
      (a.startLine < b.startLine ∨ a.startLine = b.startLine ∧ a.endLine < b.endLine))

/-- What is computed is the order of locations. -/
theorem isBefore_iff {a b : Location} : a.isBefore b = true ↔ a.Precedes b := by
  simp only [isBefore, Precedes, Bool.or_eq_true, Bool.and_eq_true, decide_eq_true_eq]

theorem Precedes.irrefl (a : Location) : ¬a.Precedes a := by
  have hs := String.lt_irrefl
  have hn : ∀ x : UInt64, ¬x < x := fun x => UInt64.lt_irrefl x
  unfold Precedes
  grind

theorem Precedes.trans {a b c : Location} (hab : a.Precedes b) (hbc : b.Precedes c) :
    a.Precedes c := by
  have hs : ∀ x y z : String, x < y → y < z → x < z := fun _ _ _ => String.lt_trans
  have hn : ∀ x y z : UInt64, x < y → y < z → x < z := fun _ _ _ => UInt64.lt_trans
  unfold Precedes at *
  grind

/-- Of two locations one comes first. -/
theorem precedes_total (a b : Location) : a.Precedes b ∨ a = b ∨ b.Precedes a := by
  have hs : ∀ x y : String, x < y ∨ x = y ∨ y < x := fun x y => by
    by_cases hxy : x < y
    · exact .inl hxy
    · by_cases hyx : y < x
      · exact .inr (.inr hyx)
      · exact .inr (.inl (String.le_antisymm (String.not_lt.mp hyx) (String.not_lt.mp hxy)))
  have hn : ∀ x y : UInt64, x < y ∨ x = y ∨ y < x := fun x y => by
    rw [UInt64.lt_iff_toNat_lt, UInt64.lt_iff_toNat_lt, ← UInt64.toNat_inj]
    exact Nat.lt_trichotomy x.toNat y.toNat
  have hab : a = b ↔ a.repoId = b.repoId ∧ a.path = b.path ∧ a.startLine = b.startLine ∧
      a.endLine = b.endLine := by
    cases a
    cases b
    simp
  unfold Precedes
  grind

theorem not_precedes_trans {a b c : Location} (hab : ¬b.Precedes a) (hbc : ¬c.Precedes b) :
    ¬c.Precedes a := by
  intro hca
  rcases precedes_total a b with h | rfl | h
  · exact hbc (hca.trans h)
  · exact hbc hca
  · exact hab h

end Location

/-! ## Sightings -/

theorem Verdict.lt_or_eq_of_le {v w : Verdict} (h : v ≤ w) : v < w ∨ v = w := by
  revert h
  cases v <;> cases w <;> decide

/-- A finding as it is stored, with the task whose run found it, and its number in the
order in which findings were stored. -/
structure Sighting where
  task : TaskRow
  row : FindingRow
  number : Nat
deriving Repr, DecidableEq

namespace Sighting

def read (x : Sighting) : StoredFinding := x.row.read x.task

def location (x : Sighting) : Location := x.read.location

/-- The task is older, or of the same age and the finding was stored before. -/
def Older (x y : Sighting) : Prop :=
  x.task.createdAt < y.task.createdAt ∨
    x.task.createdAt = y.task.createdAt ∧ x.number < y.number

/-- Is it rather shown than the other one?  A higher verdict counts most, and
then which of them is newer. -/
def Outranks (x y : Sighting) : Prop :=
  y.row.verdict < x.row.verdict ∨ x.row.verdict = y.row.verdict ∧ y.Older x

/-- Of two findings not both are rather shown than the other. -/
theorem Outranks.asymm {x y : Sighting} (h : x.Outranks y) : ¬y.Outranks x := by
  unfold Outranks Older at *
  have hrank : ∀ v w : Verdict, v < w → ¬w < v ∧ v ≠ w := fun v w h => by
    cases v <;> cases w <;> first | exact absurd h (by decide) | exact by decide
  grind

/-- It has no lower a verdict. -/
theorem Outranks.verdict_le {x y : Sighting} (h : x.Outranks y) :
    y.row.verdict ≤ x.row.verdict := by
  rcases h with h | ⟨h, -⟩
  · exact Nat.le_of_lt h
  · exact h ▸ Nat.le_refl _

/-- Which of two sightings of a place is shown, the second being the newer one. -/
def shown (old new : Sighting) : Sighting :=
  if new.row.verdict < old.row.verdict then old else new

/-- To choose one of two findings and to read it may be done in either order. -/
theorem read_shown (old new : Sighting) :
    (shown old new).read = Store.shown old.read new.read := by
  unfold shown Store.shown
  exact apply_ite read _ _ _

/-- The sighting that is shown of a place, given those of it from the oldest on. -/
def top (xs : List Sighting) : Option Sighting :=
  xs.foldl (fun o x => some ((o.map (shown · x)).getD x)) none

/-- The finding that is shown is the last one, unless those before outrank it. -/
theorem top_concat (xs : List Sighting) (x : Sighting) :
    top (xs ++ [x]) = some (((top xs).map (shown · x)).getD x) := by
  rw [top, List.foldl_concat, top]

/-- What is read of it is what the findings come to. -/
theorem map_top (xs : List Sighting) :
    (top xs).map read =
      (xs.map read).foldl (fun o f => some ((o.map (Store.shown · f)).getD f)) none := by
  induction xs using List.reverseRecOn with
  | nil => rfl
  | append_singleton xs x ih =>
    rw [top_concat, List.map_append, List.map_singleton, List.foldl_concat, ← ih]
    cases top xs with
    | none => rfl
    | some old => simp [read_shown]

theorem top_eq_none_iff {xs : List Sighting} : top xs = none ↔ xs = [] := by
  cases xs using List.reverseRecOn with
  | nil => simp [top]
  | append_singleton xs x => simp [top_concat]

/-- Of sightings from the oldest on, the one that is shown outranks all others. -/
theorem top_represents {xs : List Sighting} (hold : xs.Pairwise Older) {x : Sighting}
    (h : top xs = some x) : x ∈ xs ∧ ∀ y ∈ xs, y = x ∨ x.Outranks y := by
  induction xs using List.reverseRecOn generalizing x with
  | nil => cases h
  | append_singleton xs new ih =>
    obtain ⟨hxs, -, hnew⟩ := List.pairwise_append.mp hold
    have hnew : ∀ y ∈ xs, y.Older new := fun y hy => hnew y hy new List.mem_cons_self
    rw [top_concat, Option.some.injEq] at h
    cases ht : top xs with
    | none =>
      rw [ht] at h
      obtain rfl : new = x := h
      rw [top_eq_none_iff.mp ht]
      simp
    | some old =>
      obtain ⟨hold, htop⟩ := ih hxs ht
      rw [ht] at h
      replace h : shown old new = x := h
      unfold shown at h
      split at h
      · -- The newer one has a lower verdict than the one that outranks the others.
        next hlower =>
        subst h
        refine ⟨List.mem_append_left _ hold, fun y hy => ?_⟩
        rcases List.mem_append.mp hy with hy | hy
        · exact htop y hy
        · rw [List.mem_singleton.mp hy]
          exact .inr (.inl hlower)
      · -- It has no lower one, and so no lower one than any of the others.
        next hlower =>
        subst h
        refine ⟨List.mem_append_right _ List.mem_cons_self, fun y hy => ?_⟩
        rcases List.mem_append.mp hy with hy | hy
        · have hle : y.row.verdict ≤ new.row.verdict := by
            have hle : old.row.verdict ≤ new.row.verdict := Nat.le_of_not_lt hlower
            rcases htop y hy with rfl | hout
            · exact hle
            · exact Nat.le_trans hout.verdict_le hle
          right
          rcases Verdict.lt_or_eq_of_le hle with hlt | heq
          · exact .inl hlt
          · exact .inr ⟨heq.symm, hnew y hy⟩
        · exact .inl (List.mem_singleton.mp hy)

end Sighting

/-! ## What is asked for -/

/-- Is the sighting one of those asked for, whatever the verdict? -/
structure FindingFilter.Wants (q : FindingFilter) (x : Sighting) : Prop where
  task : ∀ id ∈ q.taskId, x.row.taskId = id
  linter : ∀ id ∈ q.linterId, x.task.linter.id = id
  repo : ∀ id ∈ q.repoId, x.task.repo.id = id

/-- What is checked is that the finding is asked for. -/
theorem FindingFilter.admits_iff {q : FindingFilter} {x : Sighting} :
    q.admits x.task x.row = true ↔ q.Wants x := by
  have hall : ∀ (o : Option String) (a : String),
      o.all (fun b => decide (a = b)) = true ↔ ∀ b ∈ o, a = b := fun o a => by
    cases o <;> simp
  rw [admits, Bool.and_eq_true, Bool.and_eq_true, hall, hall, hall]
  exact ⟨fun ⟨⟨ht, hl⟩, hr⟩ => ⟨ht, hl, hr⟩, fun ⟨ht, hl, hr⟩ => ⟨⟨ht, hl⟩, hr⟩⟩

namespace Store

variable {s : Store} {q : FindingFilter}

/-- The finding of that number is stored, and so is the task whose run found it. -/
structure Sees (s : Store) (x : Sighting) : Prop where
  finding : s.findings[x.number]? = some x.row
  task : x.task ∈ s.tasks
  run : x.row.taskId = x.task.id

/-- The sighting is asked for, and outranks all others of its place that are. -/
structure Represents (s : Store) (q : FindingFilter) (x : Sighting) : Prop where
  sees : s.Sees x
  wants : q.Wants x
  outranks : ∀ y, s.Sees y → q.Wants y → y.location = x.location → y = x ∨ x.Outranks y

/-- A place has one representative. -/
theorem Represents.unique {x y : Sighting} (hx : s.Represents q x) (hy : s.Represents q y)
    (hloc : y.location = x.location) : y = x := by
  rcases hx.outranks y hy.sees hy.wants hloc with rfl | hxy
  · rfl
  · rcases hy.outranks x hx.sees hx.wants hloc.symm with rfl | hyx
    · rfl
    · exact absurd hyx hxy.asymm

/-- All sightings, in the order in which they were stored. -/
def sightings (s : Store) : List Sighting :=
  s.findings.zipIdx.filterMap fun p => (s.tasks.find? (·.id = p.1.taskId)).map (⟨·, p.1, p.2⟩)

/-- Those asked for, from the oldest on. -/
def sightingsByAge (s : Store) (q : FindingFilter) : List Sighting :=
  (s.sightings.mergeSort fun a b => a.task.createdAt ≤ b.task.createdAt).filter fun x =>
    q.admits x.task x.row

/-- The findings that are listed are those that are stored with their tasks. -/
theorem mem_sightings_iff (hkeyed : (s.tasks.map TaskRow.id).Nodup) {x : Sighting} :
    x ∈ s.sightings ↔ s.Sees x := by
  simp only [sightings, List.mem_filterMap, Option.map_eq_some_iff]
  constructor
  · rintro ⟨⟨r, i⟩, hp, t, ht, rfl⟩
    obtain ⟨htask, hid⟩ := (find?_key_iff hkeyed).mp ht
    exact ⟨List.mem_zipIdx_iff_getElem?.mp hp, htask, hid.symm⟩
  · rintro ⟨hfinding, htask, hrun⟩
    exact ⟨(x.row, x.number), List.mem_zipIdx_iff_getElem?.mpr hfinding, x.task,
      (find?_key_iff hkeyed).mpr ⟨htask, hrun.symm⟩, rfl⟩

theorem mem_sightingsByAge_iff (hkeyed : (s.tasks.map TaskRow.id).Nodup) {x : Sighting} :
    x ∈ s.sightingsByAge q ↔ s.Sees x ∧ q.Wants x := by
  rw [sightingsByAge, List.mem_filter, List.mem_mergeSort, mem_sightings_iff hkeyed,
    FindingFilter.admits_iff]

/-- They are numbered in their order. -/
theorem sightings_ascend (s : Store) : s.sightings.Pairwise fun x y => x.number < y.number := by
  have hzip : s.findings.zipIdx.Pairwise fun p p' => p.2 < p'.2 := by
    rw [← List.pairwise_map, List.zipIdx_map_snd]
    exact List.pairwise_lt_range'
  refine List.Pairwise.filterMap _ (fun p p' hlt x hx y hy => ?_) hzip
  obtain ⟨t, -, rfl⟩ := Option.map_eq_some_iff.mp hx
  obtain ⟨u, -, rfl⟩ := Option.map_eq_some_iff.mp hy
  exact hlt

/-- Those of older tasks come first. -/
theorem sightingsByAge_older (s : Store) (q : FindingFilter) :
    (s.sightingsByAge q).Pairwise Sighting.Older := by
  refine List.Pairwise.filter _ ((pairwise_mergeSort_stable ?_ ?_ s.sightings_ascend).imp ?_)
  · intro a b c hab hbc
    rw [decide_eq_true_eq] at *
    exact Int.le_trans hab hbc
  · intro a b
    rw [Bool.or_eq_true, decide_eq_true_eq, decide_eq_true_eq]
    exact Int.le_total _ _
  · rintro a b ⟨hle, hnumber⟩
    rw [decide_eq_true_eq] at *
    rcases Int.lt_or_eq_of_le hle with hlt | heq
    · exact .inl hlt
    · exact .inr ⟨heq, hnumber (Int.le_of_eq heq.symm)⟩

/-- The findings that are listed are those of these sightings. -/
theorem listFindings_eq (s : Store) (q : FindingFilter) :
    s.listFindings q = (places ((s.sightingsByAge q).map Sighting.read)).filter
      fun f => q.status.all (f.moderation.status = ·) := by
  have hreported : s.sightings.map (fun x => (x.task, x.row)) = s.reported := by
    let found (r : FindingRow) : Option (TaskRow × FindingRow) :=
      (s.tasks.find? (·.id = r.taskId)).map (·, r)
    calc
      _ = s.findings.zipIdx.filterMap (found ∘ Prod.fst) := by
        simp [sightings, List.map_filterMap, found, Function.comp_def]
      _ = (s.findings.zipIdx.map Prod.fst).filterMap found := List.filterMap_map.symm
      _ = s.reported := by rw [List.zipIdx_map_fst, Store.reported]
  have hsorted : (s.sightings.mergeSort fun a b => a.task.createdAt ≤ b.task.createdAt).map
      (fun x => (x.task, x.row)) = s.reportedByAge := by
    rw [reportedByAge, ← hreported]
    exact List.map_mergeSort fun _ _ _ _ => rfl
  rw [listFindings, ← hsorted, List.filter_map, List.map_map, sightingsByAge]
  rfl

/-! ## What is listed -/

/-- Of each place that occurs one sighting is the representative. -/
theorem exists_represents (hkeyed : (s.tasks.map TaskRow.id).Nodup) {x : Sighting}
    (hx : s.Sees x) (hq : q.Wants x) : ∃ y, s.Represents q y ∧ y.location = x.location ∧
      Sighting.top ((s.sightingsByAge q).filter (·.location = x.location)) = some y := by
  have hmem : x ∈ (s.sightingsByAge q).filter (·.location = x.location) :=
    List.mem_filter.mpr ⟨(mem_sightingsByAge_iff hkeyed).mpr ⟨hx, hq⟩, decide_eq_true rfl⟩
  cases ht : Sighting.top ((s.sightingsByAge q).filter (·.location = x.location)) with
  | none =>
    rw [Sighting.top_eq_none_iff] at ht
    rw [ht] at hmem
    contradiction
  | some y =>
    obtain ⟨hy, htop⟩ := Sighting.top_represents ((s.sightingsByAge_older q).filter _) ht
    obtain ⟨hy, hloc⟩ := List.mem_filter.mp hy
    obtain ⟨hsees, hwants⟩ := (mem_sightingsByAge_iff hkeyed).mp hy
    have hloc : y.location = x.location := of_decide_eq_true hloc
    refine ⟨y, ⟨hsees, hwants, fun z hz hzq hzloc => ?_⟩, hloc, rfl⟩
    exact htop z (List.mem_filter.mpr
      ⟨(mem_sightingsByAge_iff hkeyed).mpr ⟨hz, hzq⟩, decide_eq_true (hzloc.trans hloc)⟩)

theorem key_shown (f : StoredFinding) (o : Option StoredFinding)
    (ho : ∀ r ∈ o, r.location = f.location) :
    ((o.map (shown · f)).getD f).location = f.location := by
  cases o with
  | none => rfl
  | some old => exact location_shown (ho old rfl)

/-- Each place is shown once. -/
theorem collapse_nodup (fs : List StoredFinding) :
    ((collapse fs).map StoredFinding.location).Nodup := by
  rw [collapse_eq_putAll]
  exact nodup_putAll key_shown fs

/-- What is kept of a place is what is read of the sighting that is shown there. -/
theorem find?_collapse (xs : List Sighting) (l : Location) :
    (collapse (xs.map Sighting.read)).find? (·.location = l) =
      (Sighting.top (xs.filter (·.location = l))).map Sighting.read := by
  rw [collapse_eq_putAll, find?_putAll key_shown, Sighting.map_top, List.filter_map]
  rfl

/-- To sort places neither adds nor drops any. -/
theorem mem_places_iff {fs : List StoredFinding} {f : StoredFinding} :
    f ∈ places fs ↔ f ∈ collapse fs := by
  rw [places, List.mem_mergeSort]

/-- What is listed are the representatives with the verdict that is asked for. -/
theorem mem_listFindings_iff (hkeyed : (s.tasks.map TaskRow.id).Nodup) {f : StoredFinding} :
    f ∈ s.listFindings q ↔
      ∃ x, s.Represents q x ∧ x.read = f ∧ ∀ v ∈ q.status, f.moderation.status = v := by
  have hstatus : q.status.all (fun v => decide (f.moderation.status = v)) = true ↔
      ∀ v ∈ q.status, f.moderation.status = v := by
    cases q.status <;> simp
  have hmem : ∀ l, f ∈ collapse ((s.sightingsByAge q).map Sighting.read) ∧ f.location = l ↔
      (Sighting.top ((s.sightingsByAge q).filter (·.location = l))).map Sighting.read = some f :=
    fun l => by rw [← find?_collapse, find?_key_iff (collapse_nodup _)]
  rw [listFindings_eq, List.mem_filter, mem_places_iff, hstatus]
  constructor
  · rintro ⟨hf, hv⟩
    obtain ⟨x, ht, rfl⟩ := Option.map_eq_some_iff.mp ((hmem f.location).mp ⟨hf, rfl⟩)
    obtain ⟨hx, -⟩ := Sighting.top_represents ((s.sightingsByAge_older q).filter _) ht
    obtain ⟨hsees, hwants⟩ := (mem_sightingsByAge_iff hkeyed).mp (List.mem_filter.mp hx).1
    obtain ⟨y, hy, -, hty⟩ := exists_represents hkeyed hsees hwants
    obtain rfl : x = y := Option.some.inj (ht.symm.trans hty)
    exact ⟨x, hy, rfl, hv⟩
  · rintro ⟨x, hx, rfl, hv⟩
    obtain ⟨y, hy, hloc, hty⟩ := exists_represents hkeyed hx.sees hx.wants
    obtain rfl : y = x := hx.unique hy hloc
    exact ⟨((hmem y.location).mpr (by rw [hty]; rfl)).1, hv⟩

/-- Findings are listed in the order of their places, each place once. -/
theorem listFindings_ascend (s : Store) (q : FindingFilter) :
    (s.listFindings q).Pairwise fun f g => f.location.Precedes g.location := by
  rw [listFindings_eq]
  refine List.Pairwise.filter _ ?_
  generalize (s.sightingsByAge q).map Sighting.read = fs
  have hsorted : (places fs).Pairwise fun f g => (!g.location.isBefore f.location) = true := by
    refine List.pairwise_mergeSort (fun f g h hfg hgh => ?_) (fun f g => ?_) _
    · simp only [Bool.not_eq_true', ← Bool.not_eq_true, Location.isBefore_iff] at *
      exact Location.not_precedes_trans hfg hgh
    · simp only [Bool.or_eq_true, Bool.not_eq_true', ← Bool.not_eq_true, Location.isBefore_iff]
      exact (em (g.location.Precedes f.location)).symm.imp_right fun hgf hfg =>
        Location.Precedes.irrefl _ (hgf.trans hfg)
  have hne : (places fs).Pairwise fun f g => f.location ≠ g.location :=
    List.pairwise_map.mp (((List.mergeSort_perm (collapse fs) _).map _).nodup_iff.mpr
      (collapse_nodup fs))
  refine (hsorted.and hne).imp fun {f g} ⟨hnot, hne⟩ => ?_
  rw [Bool.not_eq_true', ← Bool.not_eq_true, Location.isBefore_iff] at hnot
  exact (Location.precedes_total f.location g.location).resolve_right fun h =>
    h.elim hne hnot

/-- Every finding is listed with its verdict. -/
theorem perm_verdicts (fs : List StoredFinding) :
    fs.Perm (fs.filter (·.moderation.status = .rejected) ++
      (fs.filter (·.moderation.status = .pending) ++
        fs.filter (·.moderation.status = .accepted))) := by
  induction fs with
  | nil => exact .nil
  | cons f fs ih =>
    cases hv : f.moderation.status with
    | rejected => simpa [hv] using ih.cons f
    | pending => simpa [hv] using (ih.cons f).trans List.perm_middle.symm
    | accepted =>
      rw [← List.append_assoc] at ih ⊢
      simpa [hv] using (ih.cons f).trans List.perm_middle.symm

/-- To ask for one verdict is to leave out the others. -/
theorem listFindings_filter (s : Store) (q : FindingFilter) (v : Verdict) :
    s.listFindings { q with status := some v } =
      (s.listFindings { q with status := none }).filter (·.moderation.status = v) := by
  simp [listFindings, FindingFilter.admits]

end Store

/-! ## What calls do to it -/

/-- Does the call give a verdict? -/
def StoreCall.judges : StoreCall → Bool
  | moderate .. => true
  | _ => false

namespace Store

variable {s s' : Store} {e : StoreEvent} {q : FindingFilter}

/-- Calls that give no verdict change no finding that is stored. -/
theorem Change.findings_prefix (h : Change s e s') (he : e.call.judges = false) :
    s.findings <+: s'.findings := by
  cases h with
  | added => exact List.prefix_rfl
  | taken => exact List.prefix_rfl
  | recorded => exact List.prefix_append ..
  | judged => cases he
  | registered c hc a s' htasks hfindings => exact hfindings ▸ List.prefix_rfl
  | refused => exact List.prefix_rfl

/-- What was seen and asked for is so still, with the same verdict. -/
theorem Change.sees (h : Change s e s') (he : e.call.judges = false)
    (hkeyed : (s.tasks.map TaskRow.id).Nodup) {x : Sighting} (hx : s.Sees x) (hq : q.Wants x) :
    ∃ y, s'.Sees y ∧ q.Wants y ∧ y.location = x.location ∧ y.row = x.row := by
  obtain ⟨u, hu, hbecomes⟩ := h.becomes hkeyed hx.task
  have hfinding : s'.findings[x.number]? = some x.row := by
    obtain ⟨more, hmore⟩ := h.findings_prefix he
    rw [← hmore, List.getElem?_append_left (List.getElem?_eq_some_iff.mp hx.finding).1]
    exact hx.finding
  refine ⟨⟨u, x.row, x.number⟩, ⟨hfinding, hu, hx.run.trans hbecomes.id_eq.symm⟩, ?_, ?_, rfl⟩
  · exact ⟨hq.task, hbecomes.linter_eq ▸ hq.linter, hbecomes.repo_eq ▸ hq.repo⟩
  · simp only [Sighting.location, Sighting.read, FindingRow.read, StoredFinding.location,
      hbecomes.repo_eq]

/-- Whatever is called but a verdict, no place is shown with a lower verdict than
before. -/
theorem Change.shown_le (h : Change s e s') (he : e.call.judges = false)
    (hkeyed : (s.tasks.map TaskRow.id).Nodup) (hstatus : q.status = none) {f : StoredFinding}
    (hf : f ∈ s.listFindings q) : ∃ f' ∈ s'.listFindings q,
      f'.location = f.location ∧ f.moderation.status ≤ f'.moderation.status := by
  obtain ⟨x, hx, rfl, -⟩ := (mem_listFindings_iff hkeyed).mp hf
  obtain ⟨y, hy, hyq, hloc, hrow⟩ := h.sees he hkeyed hx.sees hx.wants
  obtain ⟨z, hz, hzloc, -⟩ := exists_represents (h.keyed hkeyed) hy hyq
  have hle : x.row.verdict ≤ z.row.verdict := by
    rw [← hrow]
    rcases hz.outranks y hy hyq hzloc.symm with rfl | hout
    · exact Nat.le_refl _
    · exact hout.verdict_le
  refine ⟨z.read, (mem_listFindings_iff (h.keyed hkeyed)).mpr ⟨z, hz, rfl, ?_⟩, hzloc.trans hloc,
    hle⟩
  rw [hstatus]
  nofun

end Store

namespace Database

/-- Is that what people are to see of the findings that they ask for? -/
structure Viewed (d : Database) (q : FindingFilter) (fs : List StoredFinding) : Prop where
  /-- Places ascend by repository, path, first and last line; none is repeated. -/
  ascending : fs.Pairwise fun f g => f.location.Precedes g.location
  /-- Each place that occurs among the findings asked for has a representative. -/
  covered : ∀ x, d.store.Sees x → q.Wants x →
    ∃ y, d.store.Represents q y ∧ y.location = x.location
  /-- The list has the representatives with the verdict that is asked for, as they
  are stored, and nothing else. -/
  listed : ∀ f, f ∈ fs ↔
    ∃ x, d.store.Represents q x ∧ x.read = f ∧ ∀ v ∈ q.status, f.moderation.status = v
  /-- The lists of the three verdicts have together what is listed of all. -/
  parts : ∃ all rejected pending accepted,
    d.listFindings { q with status := none } = .ok all ∧
    d.listFindings { q with status := some .rejected } = .ok rejected ∧
    d.listFindings { q with status := some .pending } = .ok pending ∧
    d.listFindings { q with status := some .accepted } = .ok accepted ∧
    all.Perm (rejected ++ (pending ++ accepted))
  /-- Whatever is called but a verdict, a result that reports a place again in
  particular, no place is shown with a lower verdict than before. -/
  raised : q.status = none → ∀ c : StoreCall, c.judges = false →
    ∃ fs', (d.perform c).2.listFindings q = .ok fs' ∧
      ∀ f ∈ fs, ∃ f' ∈ fs', f'.location = f.location ∧ f.moderation.status ≤ f'.moderation.status

/-- **Each place is shown once, with its highest verdict**, as its newest finding
with that verdict has it, in every file that calls lead to and whatever is asked
for. -/
theorem listFindings_viewed (cs : List StoreCall) (q : FindingFilter) :
    ∃ fs, ((ofStore .empty).after cs).listFindings q = .ok fs ∧
      ((ofStore .empty).after cs).Viewed q fs := by
  have hkeyed := (Store.history_after cs).keyed
  rw [after_ofStore]
  generalize Store.empty.after cs = s at hkeyed
  refine ⟨s.listFindings q, listFindings_ofStore s q, ?_⟩
  constructor
  case ascending => exact s.listFindings_ascend q
  case covered =>
    intro x hx hq
    obtain ⟨y, hy, hloc, -⟩ := Store.exists_represents hkeyed hx hq
    exact ⟨y, hy, hloc⟩
  case listed => exact fun f => Store.mem_listFindings_iff hkeyed
  case parts =>
    refine ⟨_, _, _, _, listFindings_ofStore s _, listFindings_ofStore s _,
      listFindings_ofStore s _, listFindings_ofStore s _, ?_⟩
    rw [Store.listFindings_filter, Store.listFindings_filter, Store.listFindings_filter]
    exact Store.perm_verdicts _
  case raised =>
    intro hstatus c hc
    rw [perform_ofStore]
    exact ⟨_, listFindings_ofStore _ q, fun f hf =>
      (s.change_perform c).shown_le hc hkeyed hstatus hf⟩

end Database

end LintPatrol
