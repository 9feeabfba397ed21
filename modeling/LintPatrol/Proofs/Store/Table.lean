import Mathlib.Data.List.Induction
import Mathlib.Data.List.Nodup
import Mathlib.Data.List.Perm.Basic
import LintPatrol.Store.Basic

/-!
# LintPatrol.Proofs.Store.Table

Tables that are changed by `putRow`, which puts a row in place of the one that is
hit or behind all others.  Where rows are hit by their key, and the row that is
put has that key, a look-up finds what was put last, and any other one what it
found before (`find?_putRow_key`); and no key is repeated (`nodup_putRow`).

A table that is built of a list in this way (`putAll`) has under each key what
the list has put there, one after the other (`find?_putAll`).  So where it does
not matter which of two elements with one key is put first, the order of the list
does not matter but for the order of rows (`putAll_perm`).
-/

namespace LintPatrol

/-! ## Rows -/

section Rows

variable {α β : Type} {hit : α → Bool} {update : Option α → α}

/-- What was put is found. -/
theorem find?_putRow (hput : ∀ o, (∀ r ∈ o, hit r = true) → hit (update o) = true)
    (rows : List α) : (putRow hit update rows).find? hit = some (update (rows.find? hit)) := by
  induction rows with
  | nil => simp [putRow, hput none]
  | cons r rs ih =>
    by_cases hr : hit r = true
    · simp [putRow, hr, hput (some r)]
    · simp [putRow, hr, ih]

/-- Other rows are found as before. -/
theorem find?_putRow_of_not {p : α → Bool}
    (hput : ∀ o, (∀ r ∈ o, hit r = true) → p (update o) = false)
    (hnot : ∀ r, hit r = true → p r = false) (rows : List α) :
    (putRow hit update rows).find? p = rows.find? p := by
  induction rows with
  | nil => simp [putRow, hput none]
  | cons r rs ih =>
    by_cases hr : hit r = true
    · simp [putRow, hr, hput (some r), hnot r hr]
    · simp [putRow, hr, List.find?_cons, ih]

/-- A row that takes the place of one like it changes no table of likenesses. -/
theorem map_putRow (g : α → β) (hg : ∀ r, hit r = true → g (update (some r)) = g r)
    {rows : List α} (h : ∃ r ∈ rows, hit r = true) :
    (putRow hit update rows).map g = rows.map g := by
  induction rows with
  | nil => simp at h
  | cons r rs ih =>
    by_cases hr : hit r = true
    · simp [putRow, hr, hg r hr]
    · simpa [putRow, hr] using ih (by simpa [hr] using h)

/-- To put a row and then look at all rows in some way is to put what is seen of
the row. -/
theorem map_putRow_comm {hit' : β → Bool} {update' : Option β → β} (g : α → β)
    (hhit : ∀ r, hit' (g r) = hit r)
    (hupdate : ∀ o, (∀ r ∈ o, hit r = true) → g (update o) = update' (o.map g)) (rows : List α) :
    (putRow hit update rows).map g = putRow hit' update' (rows.map g) := by
  induction rows with
  | nil => simpa [putRow] using hupdate none (by simp)
  | cons r rs ih =>
    by_cases hr : hit r = true
    · simpa [putRow, hhit, hr] using hupdate (some r) (by simpa using hr)
    · simp [putRow, hhit, hr, ih]

/-- A row that takes no place is put behind all others. -/
theorem putRow_of_none {rows : List α} (h : ∀ r ∈ rows, hit r = false) :
    putRow hit update rows = rows ++ [update none] := by
  induction rows with
  | nil => rfl
  | cons r rs ih =>
    rw [putRow, if_neg (by simp [h r]), ih fun q hq => h q (List.mem_cons_of_mem _ hq)]
    rfl

/-- What is true of all rows stays so if it is true of the row that is put. -/
theorem forall_putRow {p : α → Prop} {rows : List α} (hrows : ∀ r ∈ rows, p r)
    (hput : ∀ o, (∀ r ∈ o, p r) → p (update o)) : ∀ r ∈ putRow hit update rows, p r := by
  induction rows with
  | nil => simpa [putRow] using hput none (by simp)
  | cons q rows ih =>
    obtain ⟨hq, hrows⟩ := List.forall_mem_cons.mp hrows
    rw [putRow]
    split
    · exact List.forall_mem_cons.mpr ⟨hput (some q) (by simpa using hq), hrows⟩
    · exact List.forall_mem_cons.mpr ⟨hq, ih hrows⟩

end Rows

/-! ## Keys -/

section Keys

variable {α κ : Type} [DecidableEq κ] {update : Option α → α} {rows : List α}

/-- The row of a key is the one that is found. -/
theorem find?_key_iff {key : α → κ} (hkeys : (rows.map key).Nodup) {k : κ} {r : α} :
    rows.find? (key · = k) = some r ↔ r ∈ rows ∧ key r = k := by
  induction rows with
  | nil => simp
  | cons q rows ih =>
    obtain ⟨hnew, hkeys⟩ := List.nodup_cons.mp hkeys
    by_cases hq : key q = k
    · rw [List.find?_cons_of_pos (by simpa using hq), Option.some.injEq]
      constructor
      · rintro rfl
        exact ⟨List.mem_cons_self, hq⟩
      · rintro ⟨hr, hk⟩
        -- Another row of this key would repeat it.
        rcases List.mem_cons.mp hr with rfl | hr
        · rfl
        · exact absurd (List.mem_map.mpr ⟨r, hr, hk.trans hq.symm⟩) hnew
    · rw [List.find?_cons_of_neg (by simpa using hq), ih hkeys, List.mem_cons]
      refine and_congr_left fun hk => ⟨.inr, fun hr => hr.resolve_left ?_⟩
      rintro rfl
      exact hq hk

variable (key : α → κ)

/-- Tables without repeated keys in which the same is found have the same rows. -/
theorem perm_of_find?_eq {rows' : List α} (hkeys : (rows.map key).Nodup)
    (hkeys' : (rows'.map key).Nodup)
    (h : ∀ k, rows.find? (key · = k) = rows'.find? (key · = k)) : rows.Perm rows' := by
  refine (List.perm_ext_iff_of_nodup hkeys.of_map hkeys'.of_map).mpr fun r => ?_
  have hfind : rows.find? (key · = key r) = some r ↔ rows'.find? (key · = key r) = some r := by
    rw [h (key r)]
  simpa [find?_key_iff hkeys, find?_key_iff hkeys'] using hfind

/-- A row that is put is found under its key, and all others as before. -/
theorem find?_putRow_key {k : κ} (hput : ∀ o, (∀ r ∈ o, key r = k) → key (update o) = k)
    (rows : List α) (j : κ) :
    (putRow (key · = k) update rows).find? (key · = j) =
      if j = k then some (update (rows.find? (key · = j))) else rows.find? (key · = j) := by
  split
  · next hj =>
    subst hj
    exact find?_putRow (fun o ho => by simpa using hput o (by simpa using ho)) rows
  · next hj =>
    have hother : ∀ r, key r = k → decide (key r = j) = false := fun r hr => by
      simp [hr, Ne.symm hj]
    refine find?_putRow_of_not (fun o ho => ?_) (fun r hr => ?_) rows
    · exact hother _ (hput o (by simpa using ho))
    · exact hother r (by simpa using hr)

/-- A row that is taken away is not found under its key, and all others as
before. -/
theorem find?_filter_key (rows : List α) (k j : κ) :
    (rows.filter (key · ≠ k)).find? (key · = j) =
      if j = k then none else rows.find? (key · = j) := by
  rw [List.find?_filter]
  split
  · next hj => simp [hj]
  · next hj =>
    congr 1
    funext r
    by_cases hr : key r = j <;> simp [hr, hj]

/-- A row that is put repeats no key. -/
theorem nodup_putRow {k : κ} (hput : ∀ o, (∀ r ∈ o, key r = k) → key (update o) = k)
    (h : (rows.map key).Nodup) : ((putRow (key · = k) update rows).map key).Nodup := by
  by_cases hk : k ∈ rows.map key
  · obtain ⟨r, hr, hrk⟩ := List.mem_map.mp hk
    have hsame : ∀ r, (key r = k : Bool) = true → key (update (some r)) = key r := fun r hr => by
      have hr : key r = k := of_decide_eq_true hr
      rw [hput (some r) (by simpa using hr), hr]
    rw [map_putRow key hsame ⟨r, hr, decide_eq_true hrk⟩]
    exact h
  · have hnone : ∀ r ∈ rows, decide (key r = k) = false := fun r hr =>
      decide_eq_false fun hrk => hk (List.mem_map.mpr ⟨r, hr, hrk⟩)
    rw [putRow_of_none hnone, List.map_append, List.map_singleton, hput none (by simp),
      ← List.concat_eq_append]
    exact h.concat hk

end Keys

/-! ## Tables that are built -/

section Build

variable {α κ ρ : Type} [DecidableEq κ]

/-- The table that elements are put into one after the other, each under its own
key; `update` says what is put in place of the row that is there. -/
def putAll (key : ρ → κ) (keyOf : α → κ) (update : α → Option ρ → ρ) (as : List α) : List ρ :=
  as.foldl (fun rows a => putRow (key · = keyOf a) (update a) rows) []

variable {key : ρ → κ} {keyOf : α → κ} {update : α → Option ρ → ρ} {as bs : List α}

/-- What is put last is put into the table of all before. -/
theorem putAll_concat (as : List α) (a : α) :
    putAll key keyOf update (as ++ [a]) =
      putRow (key · = keyOf a) (update a) (putAll key keyOf update as) := by
  rw [putAll, List.foldl_concat, putAll]

/-- To build a table and then look at all rows in some way is to build the table of
what is seen of them. -/
theorem map_putAll {σ : Type} {key' : σ → κ} {update' : α → Option σ → σ} (g : ρ → σ)
    (hkey : ∀ r, key' (g r) = key r)
    (hupdate : ∀ a o, (∀ r ∈ o, key r = keyOf a) → g (update a o) = update' a (o.map g))
    (as : List α) :
    (putAll key keyOf update as).map g = putAll key' keyOf update' as := by
  induction as using List.reverseRecOn with
  | nil => rfl
  | append_singleton as a ih =>
    rw [putAll_concat, putAll_concat, ← ih]
    exact map_putRow_comm g (fun r => by rw [hkey])
      (fun o ho => hupdate a o fun r hr => of_decide_eq_true (ho r hr)) _

section Keyed

variable (hput : ∀ a o, (∀ r ∈ o, key r = keyOf a) → key (update a o) = keyOf a)
include hput

/-- There is one row of each key. -/
theorem nodup_putAll (as : List α) : ((putAll key keyOf update as).map key).Nodup := by
  induction as using List.reverseRecOn with
  | nil => exact List.nodup_nil
  | append_singleton as a ih =>
    rw [putAll_concat]
    exact nodup_putRow key (hput a) ih

/-- Under a key is what the elements with that key have put there. -/
theorem find?_putAll (as : List α) (k : κ) :
    (putAll key keyOf update as).find? (key · = k) =
      (as.filter (keyOf · = k)).foldl (fun o a => some (update a o)) none := by
  induction as using List.reverseRecOn with
  | nil => rfl
  | append_singleton as a ih =>
    rw [putAll_concat, find?_putRow_key key (hput a), ih, List.filter_append, List.foldl_append]
    by_cases ha : keyOf a = k
    · simp [ha]
    · simp [ha, Ne.symm ha]

/-- Elements in another order build the same rows, if it does not matter which of
two elements with one key is put first. -/
theorem putAll_perm
    (hcomm : ∀ a b o, keyOf a = keyOf b →
      update a (some (update b o)) = update b (some (update a o)))
    (h : as.Perm bs) : (putAll key keyOf update as).Perm (putAll key keyOf update bs) := by
  refine perm_of_find?_eq key (nodup_putAll hput as) (nodup_putAll hput bs) fun k => ?_
  rw [find?_putAll hput, find?_putAll hput]
  refine (h.filter (keyOf · = k)).foldl_eq' (fun a ha b hb o => ?_) none
  have hkeys : keyOf b = keyOf a := by
    rw [of_decide_eq_true (List.mem_filter.mp ha).2, of_decide_eq_true (List.mem_filter.mp hb).2]
  rw [hcomm b a o hkeys]

end Keyed

end Build

end LintPatrol
