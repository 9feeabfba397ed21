import LintPatrol.Proofs.Store.View

/-!
# LintPatrol.Proofs.Store.Readback

What a result says is read back as it was recorded.  The numbers of lines are
kept with a sign and listed without one; rows are looked for by the former and
ordered by the latter, and each number is kept as one number only, so that both
speak of the same places (`FindingRow.isAt_iff`).  A task whose result is
recorded had no findings before, and what is seen of it afterwards are the
findings of the result, in their order (`Store.sees_recorded_iff`).  They are of
one age and nobody has judged them; so of those at one place the last one is
shown (`Store.represents_recorded_iff`).

## Main statements

* `Store.mem_listFindings_recorded_iff`: what is listed of a task once its result
  is recorded.
* `Database.moderate_judges`: what a verdict changes.
* `Database.findings_readBack`: both, in every file that calls lead to.
-/

namespace LintPatrol

open Time

/-! ## Places in a task -/

namespace Finding

/-- Where the finding is, the numbers of lines being those without sign. -/
def place (f : Finding) : String × Nat × Nat :=
  (f.highlight.path, f.highlight.startLine.toNat, f.highlight.endLine.toNat)

/-- Does the place of the finding come before that of the other one? -/
def Precedes (f g : Finding) : Prop :=
  f.place.1 < g.place.1 ∨ f.place.1 = g.place.1 ∧
    (f.place.2.1 < g.place.2.1 ∨ f.place.2.1 = g.place.2.1 ∧ f.place.2.2 < g.place.2.2)

/-- It is one of the findings, and none after it is at its place. -/
def LastAtPlace (fs : List Finding) (f : Finding) : Prop :=
  ∃ before later, fs = before ++ f :: later ∧ ∀ g ∈ later, g.place ≠ f.place

/-- The last finding at its place has the highest number of those there. -/
theorem lastAtPlace_iff {fs : List Finding} {f : Finding} :
    LastAtPlace fs f ↔ ∃ i : Nat, fs[i]? = some f ∧
      ∀ (j : Nat) (g : Finding), fs[j]? = some g → g.place = f.place → j ≤ i := by
  constructor
  · rintro ⟨before, later, rfl, hlater⟩
    refine ⟨before.length, by simp, fun j g hg hplace => Nat.le_of_not_lt fun hj => ?_⟩
    obtain ⟨k, rfl⟩ := Nat.exists_eq_add_of_lt hj
    rw [Nat.add_assoc, List.getElem?_append_right (Nat.le_add_right ..), Nat.add_sub_cancel_left,
      List.getElem?_cons_succ] at hg
    exact hlater g (List.mem_of_getElem? hg) hplace
  · rintro ⟨i, hf, hlast⟩
    obtain ⟨hi, rfl⟩ := List.getElem?_eq_some_iff.mp hf
    refine ⟨fs.take i, fs.drop (i + 1), ?_, fun g hg hplace => ?_⟩
    · rw [← List.drop_eq_getElem_cons hi, List.take_append_drop]
    · obtain ⟨k, hk⟩ := List.mem_iff_getElem?.mp hg
      rw [List.getElem?_drop] at hk
      have hle := hlast (i + 1 + k) g hk hplace
      omega

end Finding

namespace FindingRow

/-- Was the finding reported by that task, at those lines of the file? -/
def LiesAt (r : FindingRow) (taskId path : String) (startLine endLine : UInt64) : Prop :=
  r.taskId = taskId ∧ r.finding.place = (path, startLine.toNat, endLine.toNat)

instance (r : FindingRow) (taskId path : String) (startLine endLine : UInt64) :
    Decidable (r.LiesAt taskId path startLine endLine) := inferInstanceAs (Decidable (_ ∧ _))

/-- A number is looked for as it is kept, and found just if it is what is read of
the column. -/
theorem eq_storedLine_iff {n : Int64} {line : UInt64} :
    n = storedLine line ↔ (lineOfStored n).toNat = line.toNat := by
  rw [UInt64.toNat_inj]
  exact ⟨congrArg lineOfStored, congrArg storedLine⟩

/-- What is checked is that the finding lies at the place. -/
theorem isAt_iff {r : FindingRow} {taskId path : String} {startLine endLine : UInt64} :
    r.isAt taskId path startLine endLine = true ↔ r.LiesAt taskId path startLine endLine := by
  simp only [isAt, LiesAt, Finding.place, finding, Bool.and_eq_true, decide_eq_true_eq,
    Prod.mk.injEq, eq_storedLine_iff, and_assoc]

end FindingRow

/-! ## What is seen of a task whose result is recorded -/

/-- What is read of a finding that nobody has judged, found by a run of the task. -/
def StoredFinding.fresh (t : TaskRow) (f : Finding) : StoredFinding :=
  ⟨t.id, t.repo.id, t.linter.id, t.repo.commit, f, .none⟩

/-- Findings of one task lie at one location just if they lie at one place. -/
theorem StoredFinding.location_eq_iff {t : TaskRow} {f g : Finding} :
    (fresh t f).location = (fresh t g).location ↔ f.place = g.place := by
  simp only [location, fresh, Finding.place, Location.mk.injEq, Prod.mk.injEq, true_and,
    UInt64.toNat_inj]

/-- Their locations are in the order of their places. -/
theorem StoredFinding.precedes_iff {t : TaskRow} {f g : Finding} :
    (fresh t f).location.Precedes (fresh t g).location ↔ f.Precedes g := by
  simp only [location, fresh, Location.Precedes, Finding.Precedes, Finding.place,
    String.lt_irrefl, false_or, true_and, UInt64.lt_iff_toNat_lt, UInt64.toNat_inj]

def FindingFilter.ofTask (id : String) : FindingFilter := ⟨some id, none, none, none⟩

theorem FindingFilter.wants_ofTask_iff {id : String} {x : Sighting} :
    (ofTask id).Wants x ↔ x.row.taskId = id :=
  ⟨fun h => h.task id rfl, fun h => ⟨by simpa [ofTask] using h, nofun, nofun⟩⟩

namespace Store

/-- The store in which a result has been recorded. -/
def recorded (s : Store) (id : String) (r : TaskResult) (completedAt : Instant) : Store :=
  { s.updateTask id (·.finish r completedAt) with
    findings := s.findings ++ r.findings.map (FindingRow.fresh id) }

/-- The finding of that number, as it is seen once the result is recorded. -/
def recordedSighting (s : Store) (u : TaskRow) (f : Finding) (i : Nat) : Sighting :=
  ⟨u, .fresh u.id f, s.findings.length + i⟩

variable {s : Store} {t : TaskRow} {r : TaskResult} {completedAt : Instant}

/-- Of the findings of one result the later ones are rather shown. -/
theorem recordedSighting_outranks {f g : Finding} {i j : Nat} :
    (s.recordedSighting t f i).Outranks (s.recordedSighting t g j) ↔ j < i := by
  have hirrefl : ¬Verdict.pending < Verdict.pending := by decide
  simp [Sighting.Outranks, Sighting.Older, recordedSighting, FindingRow.fresh, hirrefl]

/-- A result is recorded under the lease of the task. -/
theorem set_eq_recorded {held : Task} (ht : t ∈ s.tasks) (hlease : t.isLeasedAs held = true)
    (hr : r.status ≠ .pending) :
    s.set held r completedAt = (.ok (), s.recorded t.id r completedAt) := by
  have hany : s.tasks.any (·.isLeasedAs held) = true := List.any_eq_true.mpr ⟨t, ht, hlease⟩
  rw [set, if_neg fun h => hr h.1, if_pos hany, TaskRow.id_of_isLeasedAs hlease]
  rfl

/-- To record a result leaves one row of each name. -/
theorem recorded_keyed (hkeyed : (s.tasks.map TaskRow.id).Nodup) (id : String) (r : TaskResult)
    (completedAt : Instant) : ((s.recorded id r completedAt).tasks.map TaskRow.id).Nodup := by
  rw [recorded, map_id_updateTask (f := (·.finish r completedAt)) s id fun _ => rfl]
  exact hkeyed

section Recorded

variable (hkeyed : (s.tasks.map TaskRow.id).Nodup) (ht : t ∈ s.tasks)
  (hnone : s.findingsOf t.id = [])
include hkeyed ht hnone

/-- What is seen of the task are the findings of the result, in their order. -/
theorem sees_recorded_iff {x : Sighting} :
    (s.recorded t.id r completedAt).Sees x ∧ x.row.taskId = t.id ↔
      ∃ (i : Nat) (f : Finding), r.findings[i]? = some f ∧
        x = s.recordedSighting (t.finish r completedAt) f i := by
  constructor
  · rintro ⟨⟨hfinding, htask, hrun⟩, hid⟩
    -- The row is none of those that were there before.
    have hnew : s.findings.length ≤ x.number := by
      refine Nat.le_of_not_lt fun hlt => ?_
      rw [recorded, List.getElem?_append_left hlt] at hfinding
      have hmem : x.row ∈ s.findingsOf t.id :=
        List.mem_filter.mpr ⟨List.mem_of_getElem? hfinding, decide_eq_true hid⟩
      rw [hnone] at hmem
      contradiction
    obtain ⟨i, hi⟩ := Nat.exists_eq_add_of_le hnew
    rw [recorded, hi, List.getElem?_append_right (Nat.le_add_right ..), Nat.add_sub_cancel_left,
      List.getElem?_map, Option.map_eq_some_iff] at hfinding
    obtain ⟨f, hf, hrow⟩ := hfinding
    have htask : x.task = t.finish r completedAt := by
      rcases mem_updateTask.mp htask with ⟨u, hu, huid, heq⟩ | ⟨-, hne⟩
      · rw [heq, eq_of_id_eq hkeyed hu ht huid]
      · exact absurd (hrun.symm.trans hid) hne
    refine ⟨i, f, hf, ?_⟩
    obtain ⟨u, row, number⟩ := x
    cases htask
    cases hrow
    cases hi
    rfl
  · rintro ⟨i, f, hf, rfl⟩
    refine ⟨⟨?_, mem_updateTask.mpr (.inl ⟨t, ht, rfl, rfl⟩), rfl⟩, rfl⟩
    rw [recorded, recordedSighting, List.getElem?_append_right (Nat.le_add_right ..),
      Nat.add_sub_cancel_left, List.getElem?_map, hf]
    rfl

/-- Of the findings at one place the last one is shown. -/
theorem represents_recorded_iff {x : Sighting} :
    (s.recorded t.id r completedAt).Represents (.ofTask t.id) x ↔
      ∃ (i : Nat) (f : Finding), r.findings[i]? = some f ∧
        x = s.recordedSighting (t.finish r completedAt) f i ∧
        ∀ (j : Nat) (g : Finding), r.findings[j]? = some g → g.place = f.place → j ≤ i := by
  have hsees : ∀ {x : Sighting}, (s.recorded t.id r completedAt).Sees x ∧ x.row.taskId = t.id ↔ _ :=
    sees_recorded_iff hkeyed ht hnone
  constructor
  · rintro ⟨hx, hq, hout⟩
    obtain ⟨i, f, hf, rfl⟩ := hsees.mp ⟨hx, FindingFilter.wants_ofTask_iff.mp hq⟩
    refine ⟨i, f, hf, rfl, fun j g hg hplace => ?_⟩
    obtain ⟨hy, hid⟩ := hsees.mpr ⟨j, g, hg, rfl⟩
    have hloc := StoredFinding.location_eq_iff (t := t.finish r completedAt).mpr hplace
    rcases hout _ hy (FindingFilter.wants_ofTask_iff.mpr hid) hloc with heq | hlt
    · exact Nat.le_of_eq (Nat.add_left_cancel (congrArg Sighting.number heq))
    · exact Nat.le_of_lt (recordedSighting_outranks.mp hlt)
  · rintro ⟨i, f, hf, rfl, hlast⟩
    obtain ⟨hx, hid⟩ := hsees.mpr ⟨i, f, hf, rfl⟩
    refine ⟨hx, FindingFilter.wants_ofTask_iff.mpr hid, fun y hy hq hloc => ?_⟩
    obtain ⟨j, g, hg, rfl⟩ := hsees.mp ⟨hy, FindingFilter.wants_ofTask_iff.mp hq⟩
    have hle := hlast j g hg (StoredFinding.location_eq_iff.mp hloc)
    rcases Nat.lt_or_eq_of_le hle with hlt | rfl
    · exact .inr (recordedSighting_outranks.mpr hlt)
    · cases hf.symm.trans hg
      exact .inl rfl

/-- **What is listed of the task** are the findings that are the last ones at their
places. -/
theorem mem_listFindings_recorded_iff {x : StoredFinding} :
    x ∈ (s.recorded t.id r completedAt).listFindings (.ofTask t.id) ↔
      ∃ f, Finding.LastAtPlace r.findings f ∧ x = .fresh t f := by
  have hkeyed' := recorded_keyed hkeyed t.id r completedAt
  rw [mem_listFindings_iff hkeyed']
  constructor
  · rintro ⟨y, hy, rfl, -⟩
    obtain ⟨i, f, hf, rfl, hlast⟩ := (represents_recorded_iff hkeyed ht hnone).mp hy
    exact ⟨f, Finding.lastAtPlace_iff.mpr ⟨i, hf, hlast⟩, rfl⟩
  · rintro ⟨f, hlast, rfl⟩
    obtain ⟨i, hf, hlast⟩ := Finding.lastAtPlace_iff.mp hlast
    exact ⟨_, (represents_recorded_iff hkeyed ht hnone).mpr ⟨i, f, hf, rfl, hlast⟩, rfl, nofun⟩

/-- Each place that is reported is listed. -/
theorem exists_listed_recorded {f : Finding} (hf : f ∈ r.findings) :
    ∃ x ∈ (s.recorded t.id r completedAt).listFindings (.ofTask t.id),
      x.finding.place = f.place := by
  have hkeyed' := recorded_keyed hkeyed t.id r completedAt
  obtain ⟨i, hi⟩ := List.mem_iff_getElem?.mp hf
  obtain ⟨hx, hid⟩ : (s.recorded t.id r completedAt).Sees _ ∧ _ :=
    (sees_recorded_iff hkeyed ht hnone).mpr ⟨i, f, hi, rfl⟩
  obtain ⟨y, hy, hloc, -⟩ := exists_represents hkeyed' hx (FindingFilter.wants_ofTask_iff.mpr hid)
  obtain ⟨j, g, -, rfl, -⟩ := (represents_recorded_iff hkeyed ht hnone).mp hy
  exact ⟨_, (mem_listFindings_iff hkeyed').mpr ⟨_, hy, rfl, nofun⟩,
    StoredFinding.location_eq_iff.mp hloc⟩

/-- The findings of a task are listed in the order of their places. -/
theorem listFindings_recorded_ascend :
    ((s.recorded t.id r completedAt).listFindings (.ofTask t.id)).Pairwise
      fun x y => x.finding.Precedes y.finding := by
  refine (listFindings_ascend _ _).imp_of_mem fun {x y} hx hy h => ?_
  obtain ⟨f, -, rfl⟩ := (mem_listFindings_recorded_iff hkeyed ht hnone).mp hx
  obtain ⟨g, -, rfl⟩ := (mem_listFindings_recorded_iff hkeyed ht hnone).mp hy
  exact StoredFinding.precedes_iff.mp h

omit hkeyed ht in
/-- All findings at a place of the result lie at that place of the task. -/
theorem countP_isAt_recorded (f : Finding) :
    (s.recorded t.id r completedAt).findings.countP
        (·.isAt t.id f.highlight.path f.highlight.startLine f.highlight.endLine) =
      r.findings.countP (·.place = f.place) := by
  have hold : s.findings.countP
      (·.isAt t.id f.highlight.path f.highlight.startLine f.highlight.endLine) = 0 := by
    refine List.countP_eq_zero.mpr fun q hq hat => ?_
    have hmem : q ∈ s.findingsOf t.id :=
      List.mem_filter.mpr ⟨hq, decide_eq_true (FindingRow.isAt_iff.mp hat).1⟩
    rw [hnone] at hmem
    contradiction
  rw [recorded, List.countP_append, hold, Nat.zero_add, List.countP_map]
  refine List.countP_congr fun g _ => ?_
  rw [Function.comp_apply, FindingRow.isAt_iff, decide_eq_true_eq]
  exact ⟨fun h => h.2, fun h => ⟨rfl, h⟩⟩

end Recorded

end Store

namespace Database

/-! ## What a verdict changes -/

/-- Has the verdict on a place of a task changed `d` into `d'`, with that number of
findings? -/
structure Judges (d : Database) (taskId path : String) (startLine endLine : UInt64)
    (m : Moderation) (n : Nat) (d' : Database) : Prop where
  /-- Findings at the place keep what was reported, and have the verdict with who
  gave it, when and why; all others are as they were. -/
  findings : List.Forall₂
    (fun r r' => if r.LiesAt taskId path startLine endLine then
        (r'.taskId = r.taskId ∧ r'.finding = r.finding) ∧
          r'.verdict = m.status ∧ r'.moderator = m.moderator ∧
          r'.moderatedAt = m.moderatedAt.map Instant.millis ∧ r'.comment = m.comment
      else r' = r)
    d.store.findings d'.store.findings
  /-- All repositories, linters and tasks are as they were. -/
  others : d'.store.repos = d.store.repos ∧ d'.store.linters = d.store.linters ∧
    d'.store.tasks = d.store.tasks
  /-- So are the cells that hold something else. -/
  damage : d'.damage = d.damage
  /-- The number is that of the findings at the place. -/
  counted : n = d.store.findings.countP (·.LiesAt taskId path startLine endLine)
  /-- Where there are none, nothing is changed. -/
  unknown : (∀ r ∈ d.store.findings, ¬r.LiesAt taskId path startLine endLine) → n = 0 ∧ d' = d

/-- A verdict on a place judges the findings there and nothing else. -/
theorem moderate_judges (s : Store) (taskId path : String) (startLine endLine : UInt64)
    (m : Moderation) :
    ∃ n d', (ofStore s).moderate taskId path startLine endLine m = (n, d') ∧
      (ofStore s).Judges taskId path startLine endLine m n d' := by
  have hcount : (s.moderate taskId path startLine endLine m).1 =
      s.findings.countP (·.LiesAt taskId path startLine endLine) :=
    List.countP_congr fun r _ => by rw [FindingRow.isAt_iff, decide_eq_true_eq]
  refine ⟨_, _, moderate_ofStore s taskId path startLine endLine m, ?_⟩
  constructor
  case findings =>
    simp only [Store.moderate, store_ofStore, List.forall₂_map_right_iff, List.forall₂_same]
    intro r _
    simp only [FindingRow.isAt_iff]
    split
    · exact ⟨⟨rfl, rfl⟩, rfl, rfl, rfl, rfl⟩
    · rfl
  case others => exact ⟨rfl, rfl, rfl⟩
  case damage => rfl
  case counted => exact hcount
  case unknown =>
    intro hnone
    refine ⟨hcount.trans (List.countP_eq_zero.mpr fun r hr => by simpa using hnone r hr), ?_⟩
    have hsame : ∀ r ∈ s.findings,
        (if r.isAt taskId path startLine endLine then r.judge m else r) = r := fun r hr =>
      if_neg fun hat => hnone r hr (FindingRow.isAt_iff.mp hat)
    rw [Store.moderate, List.map_congr_left hsame, List.map_id']

/-! ## What is read back -/

/-- Is that list what is to be read of the task, once findings were recorded that a
run of it has found? -/
structure ReadsBack (d : Database) (t : TaskRow) (reported : List Finding)
    (listed : List StoredFinding) : Prop where
  /-- Places ascend by path, first and last line; none is repeated. -/
  ascending : listed.Pairwise fun x y => x.finding.Precedes y.finding
  /-- Each place that is reported is listed. -/
  covered : ∀ f ∈ reported, ∃ x ∈ listed, x.finding.place = f.place
  /-- The list has the last findings at their places, as they were reported and with
  no verdict, and nothing else. -/
  listed_iff : ∀ x, x ∈ listed ↔ ∃ f, Finding.LastAtPlace reported f ∧
    x = ⟨t.id, t.repo.id, t.linter.id, t.repo.commit, f, ⟨.pending, none, none, none⟩⟩
  /-- A verdict on a place is one on all findings that are reported there. -/
  judged : ∀ (f : Finding) (m : Moderation),
    (d.moderate t.id f.highlight.path f.highlight.startLine f.highlight.endLine m).1 =
      reported.countP (·.place = f.place)

/-- **Findings are read back as they were recorded**, whatever their lines are, in
every file that calls lead to; and a verdict changes the findings that it is on, and
nothing else. -/
theorem findings_readBack (cs : List StoreCall) :
    (∀ t ∈ ((ofStore .empty).after cs).store.tasks,
      ∀ (held : Task) (r : TaskResult) (completedAt : Instant),
        t.isLeasedAs held = true → r.status = .succeeded →
          ∃ d listed, ((ofStore .empty).after cs).set held r completedAt = (.ok (), d) ∧
            d.listFindings ⟨some t.id, none, none, none⟩ = .ok listed ∧
            d.ReadsBack t r.findings listed) ∧
      ∀ (taskId path : String) (startLine endLine : UInt64) (m : Moderation),
        ∃ n d, ((ofStore .empty).after cs).moderate taskId path startLine endLine m = (n, d) ∧
          ((ofStore .empty).after cs).Judges taskId path startLine endLine m n d := by
  have h := Store.history_after cs
  rw [after_ofStore]
  generalize Store.empty.after cs = s at h
  refine ⟨fun t (ht : t ∈ s.tasks) held r completedAt hlease hr => ?_, moderate_judges s⟩
  have hnone : s.findingsOf t.id = [] :=
    (Store.isPending_or_of_settled (h.settled t ht) (TaskRow.isPending_of_isLeasedAs hlease)).2
  refine ⟨ofStore (s.recorded t.id r completedAt), _, ?_, listFindings_ofStore _ _, ?_⟩
  · rw [set_ofStore, Store.set_eq_recorded ht hlease (by simp [hr])]
  constructor
  case ascending => exact Store.listFindings_recorded_ascend h.keyed ht hnone
  case covered => exact fun f => Store.exists_listed_recorded h.keyed ht hnone
  case listed_iff => exact fun x => Store.mem_listFindings_recorded_iff h.keyed ht hnone
  case judged =>
    intro f m
    rw [moderate_ofStore]
    exact Store.countP_isAt_recorded hnone f

/-- A place is reported twice whose lines are beyond the numbers with a sign. -/
theorem findings_readBack_twice :
    let task := Task.fresh "t" ⟨"l", "image", "digest"⟩ ⟨"r", "url", "commit"⟩ (.ofMillis 0)
    let cs := [.tryAdd task (.ofMillis 1000), .tryTake (.ofMillis 0) (.ofMillis 2000)]
    let found (path : String) (line : UInt64) (explanation : String) : Finding :=
      ⟨⟨path, line, line, explanation⟩, ⟨line, line, "code"⟩⟩
    let r : TaskResult :=
      ⟨.succeeded, none, .zero,
        [found "b" 0x8000000000000000 "first", found "b" 7 "other", found "a" 9 "",
          found "b" 0x8000000000000000 "second"]⟩
    ∃ t held, t ∈ ((ofStore .empty).after cs).store.tasks ∧ t.isLeasedAs held = true ∧
      r.status = .succeeded ∧
      ∃ d listed, ((ofStore .empty).after cs).set held r (.ofMillis 3000) = (.ok (), d) ∧
        d.listFindings ⟨some t.id, none, none, none⟩ = .ok listed ∧
        d.ReadsBack t r.findings listed := by
  intro task cs found r
  let t := (TaskRow.fresh task (.ofMillis 1000)).lease (.ofMillis 2000)
  have ht : t ∈ ((ofStore .empty).after cs).store.tasks := by decide
  have hlease : t.isLeasedAs t.read = true := by decide
  exact ⟨t, t.read, ht, hlease, rfl,
    (findings_readBack cs).1 t ht t.read r (.ofMillis 3000) hlease rfl⟩

end Database

end LintPatrol
