import LintPatrol.Proofs.Database.Undamaged
import LintPatrol.Proofs.Store.Finality
import LintPatrol.Proofs.Store.Places

/-!
# LintPatrol.Proofs.Store.Statistics

The statistics count what is listed.  They are made of the highest verdict at each
place, in the order in which findings were stored; a list shows one finding for
each place, chosen among the findings in the order of their tasks.  The verdicts
are the same but for their order (`verdicts_listFindings`), and so their numbers
are the same (`total_statsOf`, `tally_statsOf`).

The main result, `Database.linterStats_tallied`, says it of every file that calls
lead to, together with which linters there are statistics of and in which order.
-/

namespace LintPatrol

open Time

/-! ## Lists without repetition -/

/-- What is kept when later copies are dropped repeats nothing. -/
theorem nodup_eraseDups {α : Type} [DecidableEq α] (as : List α) : as.eraseDups.Nodup := by
  induction hlength : as.length using Nat.strongRecOn generalizing as with
  | ind n ih =>
    cases as with
    | nil => simp
    | cons a as =>
      have hle := List.length_filter_le (fun b => !b == a) as
      have hlt : (as.filter fun b => !b == a).length < n := by
        rw [List.length_cons] at hlength
        omega
      rw [List.eraseDups_cons, List.nodup_cons]
      exact ⟨by simp, ih _ hlt _ rfl⟩

/-! ## Entries -/

namespace LinterStats

/-- How many places have the verdict. -/
def tally (e : LinterStats) : Verdict → Nat
  | .pending => e.pending
  | .accepted => e.accepted
  | .rejected => e.rejected

/-- Does the entry come before the other one?  More problems come first, then
more that nobody has judged, then fewer that are none, then the smaller name. -/
def Precedes (a b : LinterStats) : Prop :=
  b.accepted < a.accepted ∨ a.accepted = b.accepted ∧
    (b.pending < a.pending ∨ a.pending = b.pending ∧
      (a.rejected < b.rejected ∨ a.rejected = b.rejected ∧ a.linterId < b.linterId))

end LinterStats

namespace Store

variable {s : Store}

/-- The order of entries, spelt out. -/
theorem statsOrder_iff {a b : LinterStats} :
    statsOrder a b = true ↔
      b.accepted < a.accepted ∨ a.accepted = b.accepted ∧
        (b.pending < a.pending ∨ a.pending = b.pending ∧
          (a.rejected < b.rejected ∨ a.rejected = b.rejected ∧ a.linterId ≤ b.linterId)) := by
  simp only [statsOrder, Bool.or_eq_true, Bool.and_eq_true, Bool.not_eq_true', decide_eq_true_eq,
    decide_eq_false_iff_not, String.not_lt]

theorem statsOrder_trans {a b c : LinterStats} (hab : statsOrder a b = true)
    (hbc : statsOrder b c = true) : statsOrder a c = true := by
  rw [statsOrder_iff] at *
  have htrans : a.linterId ≤ b.linterId → b.linterId ≤ c.linterId → a.linterId ≤ c.linterId :=
    String.le_trans
  grind

theorem statsOrder_total (a b : LinterStats) : (statsOrder a b || statsOrder b a) = true := by
  rw [Bool.or_eq_true, statsOrder_iff, statsOrder_iff]
  have htotal := String.le_total a.linterId b.linterId
  grind

/-- Of two linters one comes before the other. -/
theorem precedes_of_statsOrder {a b : LinterStats} (h : statsOrder a b = true)
    (hne : a.linterId ≠ b.linterId) : a.Precedes b := by
  rw [statsOrder_iff] at h
  have hlt : a.linterId ≤ b.linterId → a.linterId < b.linterId := fun hle =>
    String.not_le.mp fun hge => hne (String.le_antisymm hle hge)
  unfold LinterStats.Precedes
  grind

/-! ## Linters -/

/-- Is the linter registered, or has a run for it found something? -/
def HasLinter (s : Store) (linterId : String) : Prop :=
  (∃ row ∈ s.linters, row.id = linterId) ∨
    ∃ t ∈ s.tasks, t.linter.id = linterId ∧ ∃ r ∈ s.findings, r.taskId = t.id

/-- A finding is reported with the task whose run found it. -/
theorem mem_reported_iff (hkeyed : (s.tasks.map TaskRow.id).Nodup) {t : TaskRow}
    {r : FindingRow} : (t, r) ∈ s.reported ↔ t ∈ s.tasks ∧ r ∈ s.findings ∧ r.taskId = t.id := by
  simp only [reported, List.mem_filterMap, Option.map_eq_some_iff, Prod.mk.injEq]
  constructor
  · rintro ⟨q, hq, u, hu, rfl, rfl⟩
    have hfound := (find?_key_iff hkeyed).mp hu
    exact ⟨hfound.1, hq, hfound.2.symm⟩
  · rintro ⟨ht, hr, hid⟩
    exact ⟨r, hr, t, (find?_key_iff hkeyed).mpr ⟨ht, hid.symm⟩, rfl, rfl⟩

/-- There is an entry for a linter just if it is registered or has findings. -/
theorem mem_linterIds_iff (hkeyed : (s.tasks.map TaskRow.id).Nodup) (id : String) :
    id ∈ s.linterIds ↔ s.HasLinter id := by
  simp only [linterIds, List.mem_eraseDups, List.mem_append, List.mem_map, Prod.exists,
    mem_reported_iff hkeyed, HasLinter]
  refine or_congr_right ⟨?_, ?_⟩
  · rintro ⟨t, r, ⟨ht, hr, htask⟩, hid⟩
    exact ⟨t, ht, hid, r, hr, htask⟩
  · rintro ⟨t, ht, hid, r, hr, htask⟩
    exact ⟨t, r, ⟨ht, hr, htask⟩, hid⟩

/-! ## Counting -/

/-- The findings of a linter's runs, in the order in which they were stored. -/
def findingsBy (s : Store) (linterId : String) : List StoredFinding :=
  (s.reported.filter (·.1.linter.id = linterId)).map fun (t, r) => r.read t

/-- What is listed of a linter shows the highest verdicts on its findings. -/
theorem verdicts_listFindings (s : Store) (id : String) :
    ((s.listFindings ⟨none, some id, none, none⟩).map (·.moderation.status)).Perm
      ((highest (s.findingsBy id)).map (·.2)) := by
  have hage : (s.reportedByAge.filter (·.1.linter.id = id)).map (fun x => x.2.read x.1) |>.Perm
      (s.findingsBy id) :=
    ((List.mergeSort_perm s.reported _).filter _).map _
  have hlist : s.listFindings ⟨none, some id, none, none⟩ =
      places ((s.reportedByAge.filter (·.1.linter.id = id)).map fun x => x.2.read x.1) := by
    simp [listFindings, FindingFilter.admits]
  rw [hlist]
  exact (verdicts_places _).trans ((highest_perm hage).map _)

/-- What is listed of a linter with one verdict. -/
theorem listFindings_status (s : Store) (id : String) (v : Verdict) :
    s.listFindings ⟨none, some id, none, some v⟩ =
      (s.listFindings ⟨none, some id, none, none⟩).filter (·.moderation.status = v) := by
  simp [listFindings, FindingFilter.admits]

/-- The total of an entry is the length of the list of the linter's findings. -/
theorem total_statsOf (s : Store) (id : String) :
    (statsOf id (s.findingsBy id)).total = (s.listFindings ⟨none, some id, none, none⟩).length := by
  have h := (s.verdicts_listFindings id).length_eq
  rw [List.length_map] at h
  exact h.symm

/-- A tally counts the places with that verdict as their highest. -/
theorem tally_eq_count (id : String) (fs : List StoredFinding) (v : Verdict) :
    (statsOf id fs).tally v = ((highest fs).map (·.2)).count v := by
  cases v <;> rfl

/-- It is the length of the list of the findings with that verdict. -/
theorem tally_statsOf (s : Store) (id : String) (v : Verdict) :
    (statsOf id (s.findingsBy id)).tally v =
      (s.listFindings ⟨none, some id, none, some v⟩).length := by
  have h := (s.verdicts_listFindings id).count_eq v
  rw [tally_eq_count, ← h, listFindings_status, List.count_eq_countP, List.countP_map,
    List.countP_eq_length_filter]
  rfl

/-- Every place has one verdict. -/
theorem count_verdicts (vs : List Verdict) :
    vs.count .pending + vs.count .accepted + vs.count .rejected = vs.length := by
  induction vs with
  | nil => rfl
  | cons v vs ih =>
    rw [List.length_cons, ← ih]
    cases v <;> simp <;> omega

/-! ## The list of statistics -/

/-- There is one entry for each linter. -/
theorem linterStats_perm (s : Store) :
    s.linterStats.Perm (s.linterIds.map fun id => statsOf id (s.findingsBy id)) :=
  List.mergeSort_perm _ _

/-- Every entry is that of the linter it names. -/
theorem eq_statsOf_of_mem {e : LinterStats} (h : e ∈ s.linterStats) :
    e = statsOf e.linterId (s.findingsBy e.linterId) := by
  obtain ⟨id, -, rfl⟩ := List.mem_map.mp (s.linterStats_perm.mem_iff.mp h)
  rfl

theorem linterStats_ids (s : Store) :
    (s.linterStats.map LinterStats.linterId).Perm s.linterIds := by
  have h := s.linterStats_perm.map LinterStats.linterId
  rwa [List.map_map, show LinterStats.linterId ∘ (fun id => statsOf id (s.findingsBy id)) = id
    from rfl, List.map_id] at h

theorem linterStats_nodup (s : Store) : (s.linterStats.map LinterStats.linterId).Nodup :=
  s.linterStats_ids.nodup_iff.mpr (nodup_eraseDups _)

/-- Entries stand in their order. -/
theorem linterStats_sorted (s : Store) : s.linterStats.Pairwise LinterStats.Precedes := by
  have hsorted : s.linterStats.Pairwise fun a b => statsOrder a b = true := by
    refine List.pairwise_mergeSort ?_ statsOrder_total _
    exact fun a b c => statsOrder_trans
  have hne : s.linterStats.Pairwise fun a b => a.linterId ≠ b.linterId :=
    List.pairwise_map.mp s.linterStats_nodup
  exact (hsorted.and hne).imp fun ⟨hle, hid⟩ => precedes_of_statsOrder hle hid

end Store

namespace Database

/-- Do the statistics count what is listed? -/
structure Tallied (d : Database) (stats : List LinterStats) : Prop where
  /-- There is exactly one entry for each linter that is registered or has found
  something, and none for any other. -/
  once : ∀ id, (stats.map LinterStats.linterId).count id = 1 ↔ d.store.HasLinter id
  /-- No linter has several entries. -/
  unique : (stats.map LinterStats.linterId).Nodup
  /-- The total is the number of findings listed of the linter. -/
  total : ∀ e ∈ stats,
    (d.listFindings ⟨none, some e.linterId, none, none⟩).map List.length = .ok e.total
  /-- The number of each verdict is the number of findings listed with it. -/
  tally : ∀ e ∈ stats, ∀ v,
    (d.listFindings ⟨none, some e.linterId, none, some v⟩).map List.length = .ok (e.tally v)
  /-- Together they are the total. -/
  sum : ∀ e ∈ stats, e.pending + e.accepted + e.rejected = e.total
  /-- The linters that find most come first. -/
  ordered : stats.Pairwise LinterStats.Precedes

/-- **The statistics count what is listed**, in every file that calls lead to:
they can be had, each linter that is registered or has found something is in them
once, and its numbers are those of the findings that are listed of it. -/
theorem linterStats_tallied (cs : List StoreCall) :
    ∃ stats, ((ofStore .empty).after cs).linterStats = .ok stats ∧
      ((ofStore .empty).after cs).Tallied stats := by
  have hkeyed := (Store.history_after cs).keyed
  rw [after_ofStore]
  generalize Store.empty.after cs = s at hkeyed
  refine ⟨s.linterStats, linterStats_ofStore s, ?_⟩
  constructor
  case once =>
    intro id
    have hmem : id ∈ s.linterStats.map LinterStats.linterId ↔ s.HasLinter id := by
      rw [s.linterStats_ids.mem_iff, Store.mem_linterIds_iff hkeyed]
    rw [store_ofStore, ← hmem]
    constructor
    · intro hcount
      exact List.count_pos_iff.mp (by omega)
    · exact List.count_eq_one_of_mem s.linterStats_nodup
  case unique => exact s.linterStats_nodup
  case total =>
    intro e he
    rw [listFindings_ofStore, Except.map, ← Store.total_statsOf, ← Store.eq_statsOf_of_mem he]
  case tally =>
    intro e he v
    rw [listFindings_ofStore, Except.map, ← Store.tally_statsOf, ← Store.eq_statsOf_of_mem he]
  case sum =>
    intro e he
    rw [Store.eq_statsOf_of_mem he]
    exact Store.count_verdicts ((Store.highest (s.findingsBy e.linterId)).map (·.2))
  case ordered => exact s.linterStats_sorted

end Database

end LintPatrol
