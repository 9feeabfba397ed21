import LintPatrol.Checkout.Write
import LintPatrol.Proofs.Checkout.Making

/-!
# LintPatrol.Proofs.Checkout.Writing

A new file holds what has been written, and is read by the path by which it was written
(`read_of_write`).  A tree that holds all that another one does keeps what can be
read in it (`Holds.read`).
-/

namespace LintPatrol.Tree

open Text

variable {t u : Tree} {p q here : Place} {path : String} {content : List UInt8}

/-! ## Trees that hold others -/

/-- The tree holds all that stands anywhere in the other one. -/
def Holds (u t : Tree) : Prop := ∀ q, (t.node? q).isSome → u.node? q = t.node? q

/-- A path that is looked up at all. -/
structure IsPath (path : String) : Prop where
  noNul : '\x00' ∉ path.toList
  ne_empty : path ≠ ""
  short : path.utf8ByteSize ≤ pathLimit

/-- A path that none of the checks refuses is one. -/
theorem isPath_of_not (hnul : ¬path.toList.contains '\x00' = true) (hempty : ¬path.isEmpty = true)
    (hlong : ¬pathLimit < path.utf8ByteSize) : IsPath path where
  noNul := fun h => hnul (List.contains_iff_mem.mpr h)
  ne_empty := fun h => hempty (String.isEmpty_iff.mpr h)
  short := Nat.le_of_not_lt hlong

/-- A path leads somewhere just if it is one and can be walked. -/
theorem resolve_eq_ok_iff :
    t.resolve path = .ok p ↔ IsPath path ∧ (pieces path).foldlM t.enter [] = .ok p := by
  unfold resolve
  split
  · next hnul => exact ⟨nofun, fun h => absurd (List.contains_iff_mem.mp hnul) h.1.noNul⟩
  split
  · next hempty => exact ⟨nofun, fun h => absurd (String.isEmpty_iff.mp hempty) h.1.ne_empty⟩
  split
  · next hlong => exact ⟨nofun, fun h => absurd h.1.short (Nat.not_le.mpr hlong)⟩
  · next hnul hempty hlong =>
    exact ⟨fun h => ⟨isPath_of_not hnul hempty hlong, h⟩, fun h => h.2⟩

/-- A tree that holds another one reads as that does wherever that can be read. -/
theorem Holds.read (hholds : u.Holds t) (h : t.read path = .ok content) :
    u.read path = .ok content := by
  obtain ⟨p, hp, hnode⟩ := exists_file_of_read h
  obtain ⟨hpath, hwalk⟩ := resolve_eq_ok_iff.mp hp
  have hresolve : u.resolve path = .ok p :=
    resolve_eq_ok_iff.mpr ⟨hpath, foldlM_enter_of_keeps hholds hwalk⟩
  have hsame : u.node? p = some (.file content) := by
    rw [hholds p (by simp [hnode]), hnode]
  simp [Tree.read, hresolve, hsame, bind, Except.bind]

/-- What can be read is there. -/
theorem hasPath_of_read (h : t.read path = .ok content) : t.hasPath path = true := by
  obtain ⟨p, hp, -⟩ := exists_file_of_read h
  rw [hasPath, hp]

/-- The file that has been put stands there. -/
theorem node?_put_self (t : Tree) (p : Place) (content : List UInt8) :
    (t.put p content).node? p = some (.file content) := by
  have hfile : (t.put p content).fileAt p = some (.file content) := by
    have hnone : t.files.find? (fun _ => false) = none := by simp [List.find?_eq_none]
    simp [fileAt, put, List.find?_append, List.find?_filter, hnone]
  rw [node?_eq, hfile, Option.some_or]

/-- Nothing gets lost when a file is put where nothing stands, or where it stands already. -/
theorem holds_put (h : ∀ node, t.node? p = some node → node = .file content) :
    (t.put p content).Holds t := by
  intro q hq
  by_cases heq : q = p
  · subst heq
    obtain ⟨node, hnode⟩ := Option.isSome_iff_exists.mp hq
    rw [node?_put_self, hnode, h node hnode]
  · obtain ⟨node, hnode⟩ := Option.isSome_iff_exists.mp hq
    rw [node?_put t p content heq, hnode, Option.some_or]

/-! ## The last piece of a path -/

/-- A text that does not end with the separator does not end with an empty piece. -/
theorem getLast?_splitAt {sep : Char} {cs : List Char} (hne : cs ≠ [])
    (hend : cs.getLast? ≠ some sep) : (splitAt sep cs).getLast? ≠ some [] := by
  induction cs with
  | nil => contradiction
  | cons c cs ih =>
    rcases cs with _ | ⟨d, cs⟩
    · have hc : c ≠ sep := by simpa using hend
      simp [splitAt, splitWhere, hc]
    have hrest := ih (List.cons_ne_nil d cs) (by simpa using hend)
    obtain ⟨first, others, heq⟩ := List.exists_cons_of_ne_nil (splitAt_ne_nil sep (d :: cs))
    rw [heq] at hrest
    by_cases hc : c = sep
    · have hcut : splitAt sep (c :: d :: cs) = [] :: splitAt sep (d :: cs) := by
        rw [hc]
        exact splitAt_append List.not_mem_nil (d :: cs)
      rwa [hcut, heq, List.getLast?_cons_cons]
    · rw [splitAt_cons_of_ne hc heq]
      cases others with
      | nil => simp
      | cons other others => simpa using hrest

/-- A path that does not end with a slash ends with a name. -/
theorem getLast?_pieces (hne : path ≠ "") (hend : ¬path.endsWith "/" = true) :
    (pieces path).getLast? ≠ some "" := by
  have hlist : path.toList ≠ [] := mt String.toList_eq_nil_iff.mp hne
  have hslash : path.toList.getLast? ≠ some '/' := fun hlast => by
    obtain ⟨front, hfront⟩ := List.getLast?_eq_some_iff.mp hlast
    have hsuffix : "/".toList <:+ path.toSlice.copy.toList := by
      rw [String.copy_toSlice]
      exact ⟨front, hfront.symm⟩
    exact hend (String.Slice.endsWith_string_iff.mpr hsuffix)
  intro hlast
  rw [pieces, List.getLast?_map, Option.map_eq_some_iff] at hlast
  obtain ⟨piece, hpiece, hempty⟩ := hlast
  rw [String.ofList_eq_empty_iff] at hempty
  exact getLast?_splitAt hlist hslash (hempty ▸ hpiece)

/-! ## Writing -/

/-- **What is written** is put into a directory under the last name of the path. -/
theorem exists_of_write (h : t.write path content = .ok u) :
    ∃ above here name, IsPath path ∧ pieces path = above ++ [name] ∧
      above.foldlM t.enter [] = .ok here ∧ t.isDirectory here = true ∧
      ¬(name = "" ∨ name = ".") ∧ name ≠ ".." ∧ name.utf8ByteSize ≤ nameLimit ∧
      u = t.put (here ++ [name]) content := by
  unfold write at h
  split at h
  · cases h
  split at h
  · cases h
  split at h
  · cases h
  next hnul hempty hlong =>
  have hpath : IsPath path := isPath_of_not hnul hempty hlong
  simp only [bind, Except.bind, throw, throwThe, MonadExceptOf.throw, pure, Except.pure] at h
  generalize hnames :
    ((pieces path).reverse.dropWhile fun p => decide (p = "")).reverse = names at h
  cases hwalk : names.dropLast.foldlM t.enter [] with
  | error e =>
    rw [hwalk] at h
    cases h
  | ok here =>
    rw [hwalk] at h
    simp only at h
    split at h
    · cases h
    split at h
    · cases h
    split at h
    · cases h
    split at h
    · cases h
    next hdir hname hshort _ =>
    rw [not_or] at hname
    obtain ⟨last, hlast⟩ := Option.isSome_iff_exists.mp
      (List.getLast?_isSome.mpr (pieces_ne_nil path))
    have hne : last ≠ "" := fun hempty =>
      getLast?_pieces hpath.ne_empty hname.1 (hempty ▸ hlast)
    obtain ⟨above, habove⟩ := List.getLast?_eq_some_iff.mp hlast
    have hsame : names = above ++ [last] := by
      rw [← hnames, habove]
      simp [List.dropWhile_cons_of_neg, hne]
    have hdir : t.isDirectory here = true := by simpa using hdir
    simp only [hsame, List.dropLast_concat, List.getLast?_concat, Option.getD_some, not_or]
      at hwalk hname hshort h
    exact ⟨above, here, last, hpath, habove, hwalk, hdir, not_or.mpr ⟨hne, hname.2.1⟩, hname.2.2,
      Nat.le_of_not_lt hshort, (Except.ok.inj h).symm⟩

/-- **A new file** is read as it has been written, and nothing else gets lost. -/
theorem read_of_write (h : t.write path content = .ok u) (hnew : t.hasPath path = false) :
    u.Holds t ∧ u.read path = .ok content := by
  obtain ⟨above, here, name, hpath, hpieces, hwalk, hdir, hleaves, hup, hshort, rfl⟩ :=
    exists_of_write h
  have hwalk' : ∀ v : Tree, v.Holds t → (v.node? (here ++ [name])).isSome →
      v.resolve path = .ok (here ++ [name]) := fun v hholds hsome => by
    have hdir' : v.isDirectory here = true := by
      rw [isDirectory, hholds here (isSome_of_isDirectory hdir)]
      exact hdir
    have hdown : here ++ [name] = step here name := by rw [step, if_neg hleaves, if_neg hup]
    have hstep : v.enter here name = .ok (here ++ [name]) :=
      enter_eq_ok_iff.mpr ⟨hdir', hdown, fun _ _ => ⟨hshort, hsome⟩⟩
    rw [resolve_eq_ok_iff, hpieces, List.foldlM_append, foldlM_enter_of_keeps hholds hwalk]
    exact ⟨hpath, foldlM_enter_cons.mpr ⟨_, hstep, rfl⟩⟩
  have hnone : t.node? (here ++ [name]) = none := by
    rw [← Option.not_isSome_iff_eq_none]
    intro hsome
    rw [hasPath, hwalk' t (fun _ _ => rfl) hsome] at hnew
    cases hnew
  have hholds : (t.put (here ++ [name]) content).Holds t :=
    holds_put fun node hnode => by rw [hnone] at hnode; cases hnode
  have hfile := node?_put_self t (here ++ [name]) content
  refine ⟨hholds, ?_⟩
  simp [Tree.read, hwalk' _ hholds (by simp [hfile]), hfile, bind, Except.bind]

end LintPatrol.Tree
