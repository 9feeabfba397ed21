import LintPatrol.Proofs.Checkout.Path

/-!
# LintPatrol.Proofs.Checkout.Making

Directories that are made, and removed.  A tree holds what it did and the way down
to a directory once this has been made (`node?_makeDirectory`), and all it did but
what stands in a directory once this has been removed (`node?_remove`).  Making a
directory that is there changes nothing (`Admits.createAll_eq`), and making one with a
new name in it adds one place (`Admits.createAll_joinPath`).  A path leads where it led
while nothing is taken away (`foldlM_enter_of_keeps`); so the path of a new directory
leads there whatever is done in it (`Admits.resolve_joinPath`).
-/

namespace LintPatrol.Tree

open Text

variable {t u : Tree} {c here p q : Place} {ps rest : List String} {dir name : String}

/-! ## What stands at a place -/

def places (t : Tree) : List Place := t.directories ++ t.files.map (·.1)

/-- Is the place the root, or at or above one that is listed? -/
def Covers (t : Tree) (q : Place) : Prop := q = [] ∨ ∃ d ∈ t.places, q <+: d

instance (t : Tree) (q : Place) : Decidable (t.Covers q) :=
  inferInstanceAs (Decidable (_ ∨ _))

def fileAt (t : Tree) (q : Place) : Option Node :=
  (t.files.find? (·.1 = q)).map fun f => .file f.2

/-- A place has a file, or else it is a directory if it is covered. -/
theorem node?_eq (t : Tree) (q : Place) :
    t.node? q = (t.fileAt q).or (if t.Covers q then some .directory else none) := by
  have hcovers : (q.isEmpty = true ∨ t.directories.any q.isPrefixOf = true ∨
      t.files.any (q.isPrefixOf ·.1) = true) ↔ t.Covers q := by
    simp [Covers, places, List.any_eq_true, List.isPrefixOf_iff_prefix, or_and_right, exists_or]
  rw [node?, fileAt]
  simp only [hcovers]
  cases t.files.find? (·.1 = q) <;> rfl

theorem covers_of_fileAt (h : (t.fileAt q).isSome) : t.Covers q := by
  rw [fileAt, Option.isSome_map, List.find?_isSome] at h
  obtain ⟨f, hf, hplace⟩ := h
  rw [decide_eq_true_eq] at hplace
  exact .inr ⟨q, List.mem_append_right _ (List.mem_map.mpr ⟨f, hf, hplace⟩), List.prefix_rfl⟩

/-- Nothing stands where nothing is covered. -/
theorem node?_eq_none_iff : t.node? q = none ↔ ¬t.Covers q := by
  rw [node?_eq]
  by_cases h : t.Covers q
  · simp [h]
  · have hfile : t.fileAt q = none := Option.not_isSome_iff_eq_none.mp (mt covers_of_fileAt h)
    simp [h, hfile]

/-- What covers a place covers all above it. -/
theorem Covers.above (h : t.Covers q) (hpq : p <+: q) : t.Covers p := by
  rcases h with rfl | ⟨d, hd, hq⟩
  · exact .inl (List.prefix_nil.mp hpq)
  · exact .inr ⟨d, hd, hpq.trans hq⟩

/-- There is something at a place just if it is covered. -/
theorem isSome_node?_iff : (t.node? q).isSome ↔ t.Covers q := by
  rw [Option.isSome_iff_ne_none, Ne, node?_eq_none_iff, Decidable.not_not]

/-- Nothing stands below a place where nothing stands. -/
theorem node?_eq_none_below (h : t.node? p = none) (hpq : p <+: q) : t.node? q = none := by
  rw [node?_eq_none_iff] at h ⊢
  exact fun hq => h (hq.above hpq)

theorem isSome_of_isDirectory (h : t.isDirectory q = true) : (t.node? q).isSome := by
  rw [of_decide_eq_true h]
  rfl

/-! ## Making and removing -/

/-- A place that is listed in addition is there, and all above it are. -/
theorem node?_of_listed (hplaces : ∀ d, d ∈ u.places ↔ d = c ∨ d ∈ t.places)
    (hfile : u.fileAt q = t.fileAt q) :
    u.node? q = (t.node? q).or (if q <+: c then some .directory else none) := by
  have hcovers : u.Covers q ↔ t.Covers q ∨ q <+: c := by
    simp only [Covers, hplaces, or_and_right, exists_or, exists_eq_left, or_assoc,
      or_comm (a := q <+: c)]
  rw [node?_eq, node?_eq, hfile, Option.or_assoc]
  simp only [hcovers]
  by_cases hthere : t.Covers q <;> simp [hthere]

/-- **A directory that is made** stands there, and so do all above it; nothing else is new. -/
theorem node?_makeDirectory (t : Tree) (c q : Place) :
    (t.makeDirectory c).node? q = (t.node? q).or (if q <+: c then some .directory else none) := by
  refine node?_of_listed (fun d => ?_) ?_
  · unfold makeDirectory
    split
    · next hthere =>
      rw [List.contains_iff_mem] at hthere
      exact ⟨.inr, fun h => h.elim (fun heq => heq ▸ List.mem_append_left _ hthere) id⟩
    · simp [places, or_left_comm]
  · unfold makeDirectory
    split <;> rfl

/-- **A file that is put** stands there, and directories above it; nothing else is new. -/
theorem node?_put (t : Tree) (p : Place) (content : List UInt8) (hne : q ≠ p) :
    (t.put p content).node? q = (t.node? q).or (if q <+: p then some .directory else none) := by
  refine node?_of_listed (fun d => ?_) ?_
  · simp only [places, put, List.map_append, List.mem_append, List.mem_map, List.mem_filter,
      List.mem_singleton]
    grind
  · have hlast : [(p, content)].find? (·.1 = q) = none := by simp [hne.symm]
    rw [fileAt, fileAt, put, List.find?_append, List.find?_filter, hlast, Option.or_none]
    congr 2
    funext f
    by_cases hf : f.1 = q
    · simp [hf, hne]
    · simp [hf]

/-- What is above a place is at or above the place it is in. -/
theorem prefix_dropLast (h : q <+: c) (hnot : ¬c <+: q) : q <+: c.dropLast := by
  obtain ⟨rest, rfl⟩ := h
  have hrest : rest ≠ [] := by
    rintro rfl
    exact hnot (by simp)
  rw [List.dropLast_append_of_ne_nil hrest]
  exact List.prefix_append ..

theorem not_prefix_dropLast (hc : c ≠ []) : ¬c <+: c.dropLast := fun h => by
  have hlong := h.length_le
  have hpos := List.length_pos_iff.mpr hc
  rw [List.length_dropLast] at hlong
  omega

/-- What is left covers what was covered, but for what was removed. -/
theorem covers_remove (hc : c ≠ []) (hthere : t.Covers c) :
    (t.remove c).Covers q ↔ t.Covers q ∧ ¬c <+: q := by
  have hplaces : ∀ d, d ∈ (t.remove c).places ↔ d = c.dropLast ∨ d ∈ t.places ∧ ¬c <+: d :=
    fun d => by
      simp only [places, remove, List.cons_append, List.mem_cons, List.mem_append, List.mem_filter,
        List.mem_map, ← List.isPrefixOf_iff_prefix, Bool.not_eq_true']
      grind
  constructor
  · rintro (rfl | ⟨d, hd, hq⟩)
    · exact ⟨.inl rfl, fun hroot => hc (List.prefix_nil.mp hroot)⟩
    rcases (hplaces d).mp hd with rfl | ⟨hd, hnot⟩
    · exact ⟨hthere.above (hq.trans (List.dropLast_prefix c)),
        fun hbelow => not_prefix_dropLast hc (hbelow.trans hq)⟩
    · exact ⟨.inr ⟨d, hd, hq⟩, fun hbelow => hnot (hbelow.trans hq)⟩
  · rintro ⟨rfl | ⟨d, hd, hq⟩, hnot⟩
    · exact .inl rfl
    by_cases hcd : c <+: d
    · have hqc := (List.prefix_or_prefix_of_prefix hq hcd).resolve_right hnot
      exact .inr ⟨_, (hplaces _).mpr (.inl rfl), prefix_dropLast hqc hnot⟩
    · exact .inr ⟨d, (hplaces d).mpr (.inr ⟨hd, hcd⟩), hq⟩

/-- **What is removed** is gone, with all that stands below; nothing else is. -/
theorem node?_remove (hc : c ≠ []) (hthere : (t.node? c).isSome) (q : Place) :
    (t.remove c).node? q = if c <+: q then none else t.node? q := by
  have hcovers : t.Covers c := isSome_node?_iff.mp hthere
  split
  · next hbelow =>
    rw [node?_eq_none_iff, covers_remove hc hcovers]
    exact fun h => h.2 hbelow
  · next hbelow =>
    have hfile : (t.remove c).fileAt q = t.fileAt q := by
      rw [fileAt, fileAt, remove, List.find?_filter]
      congr 2
      funext f
      by_cases hf : f.1 = q
      · simpa [hf, ← Bool.not_eq_true] using hbelow
      · simp [hf]
    simp only [node?_eq, hfile, covers_remove hc hcovers, hbelow, not_false_eq_true, and_true]

/-! ## Names -/

/-- Is that the name of an entry of a directory, one piece that leads down? -/
structure IsName (name : String) : Prop where
  noSlash : '/' ∉ name.toList
  noNul : '\x00' ∉ name.toList
  leaves : ¬(name = "" ∨ name = ".")
  noUp : name ≠ ".."
  short : name.utf8ByteSize ≤ nameLimit

namespace IsName

variable (hname : IsName name)
include hname

theorem pieces_eq : pieces name = [name] := by
  rw [pieces, splitAt_of_not_mem hname.noSlash, List.map_singleton, String.ofList_toList]

theorem not_isAbsolute : ¬isAbsolute name = true := by
  rw [isAbsolute, decide_eq_true_eq]
  exact fun h => hname.noSlash (List.mem_of_head? h)

/-- A name leads to the entry of that name, if there is one. -/
theorem enter_eq (hdir : t.isDirectory here = true) : t.enter here name =
    if (t.node? (here ++ [name])).isSome then .ok (here ++ [name]) else .error .notFound := by
  rw [enter, hdir, if_neg hname.leaves, if_neg hname.noUp, if_neg (Nat.not_lt.mpr hname.short)]
  rfl

/-- A name that is joined to a path leads one step down from where that leads. -/
theorem target_joinPath : target [] (joinPath dir name) = target [] dir ++ [name] := by
  rw [Tree.target_joinPath [] dir hname.not_isAbsolute, hname.pieces_eq, List.foldl_cons,
    List.foldl_nil, step, if_neg hname.leaves, if_neg hname.noUp]

/-- The pieces of a path that are not empty, and the name behind them. -/
theorem pieces_joinPath_filter :
    (pieces (joinPath dir name)).filter (· ≠ "") = (pieces dir).filter (· ≠ "") ++ [name] := by
  have hne : name ≠ "" := fun h => hname.leaves (.inl h)
  rcases pieces_joinPath dir hname.not_isAbsolute with heq | ⟨above, hdir, heq⟩
  · simp [heq, hname.pieces_eq, hne]
  · simp [heq, hdir, hname.pieces_eq, hne]

end IsName

/-! ## Making the directories of a path -/

/-- Empty pieces can be left out on a way that leads on. -/
theorem foldlM_enter_filter (h : ps.foldlM t.enter here = .ok p) :
    (ps.filter (· ≠ "")).foldlM t.enter here = .ok p := by
  induction ps generalizing here with
  | nil => exact h
  | cons piece ps ih =>
    obtain ⟨next, hnext, hrest⟩ := foldlM_enter_cons.mp h
    by_cases hempty : piece = ""
    · subst hempty
      have hstay : next = here := eq_step_of_enter hnext
      exact ih (hstay ▸ hrest)
    · rw [List.filter_cons_of_pos (by simpa using hempty)]
      exact foldlM_enter_cons.mpr ⟨next, hnext, ih hrest⟩

/-- The directories on a way that leads on are there. -/
theorem descend_append (h : ps.foldlM t.enter here = .ok p) (hrest : rest ≠ []) :
    t.descend here (ps ++ rest) = t.descend p rest := by
  induction ps generalizing here with
  | nil =>
    cases h
    rfl
  | cons piece ps ih =>
    obtain ⟨next, hnext, h⟩ := foldlM_enter_cons.mp h
    have hmore : (ps ++ rest).isEmpty = false := by simp [hrest]
    rw [List.cons_append, descend, hnext, hmore, ← ih h]
    rfl

/-- A directory that is there is not made again. -/
theorem descend_eq_self (h : ps.foldlM t.enter here = .ok p) (hdir : t.isDirectory p = true) :
    t.descend here ps = .ok t := by
  rcases List.eq_nil_or_concat ps with rfl | ⟨front, last, rfl⟩
  · rfl
  rw [List.concat_eq_append, List.foldlM_append] at h
  rw [List.concat_eq_append]
  cases hfront : front.foldlM t.enter here with
  | error e =>
    rw [hfront] at h
    cases h
  | ok q =>
    rw [hfront] at h
    obtain ⟨next, hnext, h⟩ := foldlM_enter_cons.mp h
    cases h
    rw [descend_append hfront (List.cons_ne_nil last []), descend, hnext]
    simp [hdir, descend]

/-- A way that leads on does so in every tree that has all that stands there. -/
theorem foldlM_enter_of_keeps (hkeeps : ∀ q, (t.node? q).isSome → u.node? q = t.node? q)
    (h : ps.foldlM t.enter here = .ok p) : ps.foldlM u.enter here = .ok p := by
  induction ps generalizing here with
  | nil => exact h
  | cons piece ps ih =>
    obtain ⟨next, hnext, hrest⟩ := foldlM_enter_cons.mp h
    obtain ⟨hdir, hstep, hthere⟩ := enter_eq_ok_iff.mp hnext
    rw [isDirectory, ← hkeeps here (isSome_of_isDirectory hdir)] at hdir
    refine foldlM_enter_cons.mpr ⟨next, enter_eq_ok_iff.mpr ⟨hdir, hstep, fun hdown hup => ?_⟩,
      ih hrest⟩
    obtain ⟨hshort, hsome⟩ := hthere hdown hup
    exact ⟨hshort, (hkeeps _ hsome).symm ▸ hsome⟩

/-! ## What changes in a directory -/

/-- Do the trees differ in one directory only, without a file put in its place? -/
structure ChangedWithin (c : Place) (t u : Tree) : Prop where
  outside : ∀ q, ¬c <+: q → u.node? q = t.node? q
  noFile : ∀ content, u.node? c = some (.file content) → t.node? c = some (.file content)

namespace ChangedWithin

/-- Nothing has changed anywhere. -/
theorem refl (c : Place) (t : Tree) : ChangedWithin c t t := ⟨fun _ _ => rfl, fun _ h => h⟩

/-- Changes within a directory, one after the other, are changes within it. -/
theorem trans {v : Tree} (htu : ChangedWithin c t u) (huv : ChangedWithin c u v) :
    ChangedWithin c t v :=
  ⟨fun q hq => (huv.outside q hq).trans (htu.outside q hq),
    fun content h => htu.noFile content (huv.noFile content h)⟩

end ChangedWithin

/-- What stands outside of a directory is not changed by standing above something that
is put into it. -/
theorem node?_or_of_outside (habove : t.Covers c.dropLast) (hcp : c <+: p) (hq : ¬c <+: q) :
    (t.node? q).or (if q <+: p then some .directory else none) = t.node? q := by
  split
  · next hqp =>
    have hqc := (List.prefix_or_prefix_of_prefix hqp hcp).resolve_right hq
    cases hnode : t.node? q with
    | none => exact absurd (habove.above (prefix_dropLast hqc hq)) (node?_eq_none_iff.mp hnode)
    | some node => rfl
  · rw [Option.or_none]

/-- A file that is put into a directory changes that only. -/
theorem changedWithin_put (hdir : t.isDirectory c = true) (hrest : rest ≠ [])
    (content : List UInt8) : ChangedWithin c t (t.put (c ++ rest) content) := by
  have hnode : t.node? c = some .directory := of_decide_eq_true hdir
  have habove : t.Covers c.dropLast :=
    (isSome_node?_iff.mp (isSome_of_isDirectory hdir)).above (List.dropLast_prefix c)
  constructor
  · intro q hq
    have hne : q ≠ c ++ rest := fun heq => hq (heq ▸ List.prefix_append ..)
    rw [node?_put t _ _ hne, node?_or_of_outside habove (List.prefix_append ..) hq]
  · intro old hfile
    have hne : c ≠ c ++ rest := fun heq => hrest (List.self_eq_append_right.mp heq)
    rw [node?_put t _ _ hne, hnode] at hfile
    cases hfile

/-! ## A new directory -/

/-- Can a directory of that name be made in the directory that a path leads to? -/
structure Admits (t : Tree) (dir name : String) : Prop where
  isName : IsName name
  noNul : '\x00' ∉ dir.toList
  short : (joinPath dir name).utf8ByteSize ≤ pathLimit
  leads : ∃ p, t.walk [] dir = .ok p ∧ t.isDirectory p = true
  fresh : t.node? (target [] (joinPath dir name)) = none

/-- A path that is continued by a relative one, with or without a slash between them. -/
theorem exists_joinPath_eq (dir : String) {path : String} (h : ¬isAbsolute path = true) :
    ∃ between, (between = "" ∨ between = "/") ∧ joinPath dir path = dir ++ between ++ path := by
  rw [joinPath, if_neg h]
  split
  · exact ⟨"", .inl rfl, by rw [String.append_empty]⟩
  · exact ⟨"/", .inr rfl, rfl⟩

namespace Admits

variable (h : t.Admits dir name)
include h

theorem noNul_joinPath : '\x00' ∉ (joinPath dir name).toList := by
  obtain ⟨between, hbetween, heq⟩ := exists_joinPath_eq dir h.isName.not_isAbsolute
  have hslash : '\x00' ∉ between.toList := by
    rcases hbetween with rfl | rfl <;> decide
  simp [heq, h.noNul, h.isName.noNul, hslash]

theorem short_dir : dir.utf8ByteSize ≤ pathLimit := by
  obtain ⟨between, -, heq⟩ := exists_joinPath_eq dir h.isName.not_isAbsolute
  have hshort := h.short
  rw [heq, String.utf8ByteSize_append, String.utf8ByteSize_append] at hshort
  omega

/-- The path leads where it says. -/
theorem walk_eq : t.walk [] dir = .ok (target [] dir) := by
  obtain ⟨p, hp, -⟩ := h.leads
  rw [hp, eq_target_of_walk hp]

/-- There is a directory there. -/
theorem isDirectory_target : t.isDirectory (target [] dir) = true := by
  obtain ⟨p, hp, hdir⟩ := h.leads
  exact eq_target_of_walk hp ▸ hdir

/-- Nothing is made of a directory that is there. -/
theorem createAll_eq : t.createAll dir = .ok t := by
  rw [createAll, if_neg (by simpa using h.noNul), if_neg (Nat.not_lt.mpr h.short_dir)]
  exact descend_eq_self (foldlM_enter_filter h.walk_eq) h.isDirectory_target

/-- **The new directory** is made, and nothing but that. -/
theorem createAll_joinPath :
    t.createAll (joinPath dir name) = .ok (t.makeDirectory (target [] (joinPath dir name))) := by
  have hentry := h.isName.enter_eq h.isDirectory_target
  have hfresh := h.fresh
  rw [h.isName.target_joinPath] at hfresh ⊢
  rw [hfresh] at hentry
  rw [createAll, if_neg (by simpa using h.noNul_joinPath), if_neg (Nat.not_lt.mpr h.short),
    h.isName.pieces_joinPath_filter,
    descend_append (foldlM_enter_filter h.walk_eq) (List.cons_ne_nil name []), descend, hentry]
  rfl

/-- What is changed by that is one directory. -/
theorem changedWithin_makeDirectory :
    ChangedWithin (target [] (joinPath dir name)) t
      (t.makeDirectory (target [] (joinPath dir name))) where
  outside q hq := by
    have habove : t.Covers (target [] (joinPath dir name)).dropLast := by
      rw [h.isName.target_joinPath, List.dropLast_concat]
      exact isSome_node?_iff.mp (isSome_of_isDirectory h.isDirectory_target)
    rw [node?_makeDirectory, node?_or_of_outside habove List.prefix_rfl hq]
  noFile content hfile := by
    rw [node?_makeDirectory, h.fresh, Option.none_or, if_pos List.prefix_rfl] at hfile
    cases hfile

variable (hu : ChangedWithin (target [] (joinPath dir name)) t u)
include hu

/-- The path of the new directory leads there as long as something stands there. -/
theorem resolve_joinPath :
    u.resolve (joinPath dir name) =
      if (u.node? (target [] (joinPath dir name))).isSome then
        .ok (target [] (joinPath dir name))
      else .error .notFound := by
  have hkeeps : ∀ q, (t.node? q).isSome → u.node? q = t.node? q := fun q hq => by
    refine hu.outside q fun hbelow => ?_
    rw [node?_eq_none_below h.fresh hbelow] at hq
    cases hq
  have hdir : u.isDirectory (target [] dir) = true := by
    rw [isDirectory, hkeeps _ (isSome_of_isDirectory h.isDirectory_target)]
    exact h.isDirectory_target
  have hne : ¬(joinPath dir name).isEmpty = true := fun hempty => by
    obtain ⟨between, -, heq⟩ := exists_joinPath_eq dir h.isName.not_isAbsolute
    rw [String.isEmpty_iff, heq, String.append_eq_empty_iff] at hempty
    exact h.isName.leaves (.inl hempty.2)
  have hwalk : u.walk [] dir = .ok (target [] dir) := foldlM_enter_of_keeps hkeeps h.walk_eq
  rw [resolve, if_neg (by simpa using h.noNul_joinPath), if_neg hne,
    if_neg (Nat.not_lt.mpr h.short), ← walk, walk_joinPath u [] dir h.isName.not_isAbsolute, hwalk,
    h.isName.target_joinPath, ← h.isName.enter_eq hdir]
  change (pieces name).foldlM u.enter (target [] dir) = _
  rw [h.isName.pieces_eq, List.foldlM_cons]
  exact bind_pure _

end Admits

end LintPatrol.Tree
