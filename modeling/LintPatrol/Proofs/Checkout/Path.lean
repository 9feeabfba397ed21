import LintPatrol.Checkout.Component
import LintPatrol.Proofs.Text.Split

/-!
# LintPatrol.Proofs.Checkout.Path

Where paths lead.  `target` is the place that a path names, each piece taken as
it is written; a tree in which the path leads anywhere leads it there
(`resolve_eq_target`).  A path that is continued by a relative one is walked piece
by piece, first the one and then the other (`walk_joinPath`), and one whose parts
all lead inward (`isContained_iff`) stays at or below the place where it starts
(`target_prefix_joinPath`).
-/

namespace LintPatrol.Tree

open Text

/-! ## Pieces -/

theorem pieces_ne_nil (path : String) : pieces path ≠ [] := by
  rw [pieces, Ne, List.map_eq_nil_iff]
  exact splitAt_ne_nil _ _

/-- A slash cuts a path in two. -/
theorem pieces_append (dir path : String) :
    pieces (dir ++ "/" ++ path) = pieces dir ++ pieces path := by
  have h : (dir ++ "/" ++ path).toList = dir.toList ++ '/' :: path.toList := by simp
  rw [pieces, h, splitAt_append_cons, List.map_append, ← pieces, ← pieces]

/-- A relative path is put behind the pieces of the directory, but for an empty
one that these may end with. -/
theorem pieces_joinPath (dir : String) {path : String} (h : ¬isAbsolute path = true) :
    pieces (joinPath dir path) = pieces dir ++ pieces path ∨
      ∃ above, pieces dir = above ++ [""] ∧ pieces (joinPath dir path) = above ++ pieces path := by
  rw [joinPath, if_neg h]
  split
  · next hend =>
    right
    rcases hend with hend | hempty
    · obtain ⟨front, hfront⟩ := List.getLast?_eq_some_iff.mp hend
      have hdir : dir = String.ofList front ++ "/" ++ "" := by
        rw [← String.toList_inj]
        simpa using hfront
      refine ⟨pieces (String.ofList front), ?_, ?_⟩
      · rw [hdir, pieces_append]
        rfl
      · rw [hdir, String.append_empty, pieces_append]
    · rw [hempty, String.empty_append]
      exact ⟨[], rfl, rfl⟩
  · exact .inl (pieces_append dir path)

/-! ## Walking -/

/-- Where a piece of a path leads, taken as it is written. -/
def step (here : Place) (piece : String) : Place :=
  if piece = "" ∨ piece = "." then here
  else if piece = ".." then here.dropLast
  else here ++ [piece]

/-- The place that a path names, taken as it is written; a relative path starts in
the directory `cwd`. -/
def target (cwd : Place) (path : String) : Place :=
  (pieces path).foldl step (if isAbsolute path then [] else cwd)

/-- Where the pieces of a path lead in a tree. -/
def walk (t : Tree) (here : Place) (path : String) : Except PathError Place :=
  (pieces path).foldlM t.enter here

variable {t : Tree} {here there : Place} {ps : List String} {dir path : String}

/-- A piece leads on from a directory: to where it says, which has to be there if it is
a name. -/
theorem enter_eq_ok_iff {piece : String} :
    t.enter here piece = .ok there ↔ t.isDirectory here = true ∧ there = step here piece ∧
      (¬(piece = "" ∨ piece = ".") → piece ≠ ".." →
        piece.utf8ByteSize ≤ nameLimit ∧ (t.node? (here ++ [piece])).isSome) := by
  unfold enter step
  by_cases hdir : t.isDirectory here = true
  · by_cases hstay : piece = "" ∨ piece = "."
    · simp [hdir, hstay, eq_comm (a := here)]
    by_cases hup : piece = ".."
    · simp [hdir, hup, eq_comm (a := here.dropLast)]
    by_cases hlong : nameLimit < piece.utf8ByteSize
    · simp [hdir, hstay, hup, hlong, Nat.not_le.mpr hlong]
    have hshort := Nat.not_lt.mp hlong
    by_cases hthere : (t.node? (here ++ [piece])).isSome
    · simp [hdir, hstay, hup, hlong, hshort, hthere, eq_comm (a := here ++ [piece])]
    · simp [hdir, hstay, hup, hlong, hshort, hthere]
  · simp [hdir]

/-- What is entered is what the piece says. -/
theorem eq_step_of_enter {piece : String} (h : t.enter here piece = .ok there) :
    there = step here piece :=
  (enter_eq_ok_iff.mp h).2.1

/-- Pieces lead on one by one. -/
theorem foldlM_enter_cons {piece : String} {p : Place} :
    (piece :: ps).foldlM t.enter here = .ok p ↔
      ∃ next, t.enter here piece = .ok next ∧ ps.foldlM t.enter next = .ok p := by
  rw [List.foldlM_cons]
  cases t.enter here piece with
  | error e => exact ⟨nofun, nofun⟩
  | ok next => exact ⟨fun h => ⟨next, rfl, h⟩, fun ⟨_, heq, h⟩ => by cases heq; exact h⟩

/-- A walk that arrives somewhere arrives where its steps say. -/
theorem eq_foldl_of_foldlM (h : ps.foldlM t.enter here = .ok there) :
    there = ps.foldl step here := by
  induction ps generalizing here with
  | nil =>
    cases h
    rfl
  | cons piece ps ih =>
    obtain ⟨next, hnext, h⟩ := foldlM_enter_cons.mp h
    rw [List.foldl_cons, ← eq_step_of_enter hnext]
    exact ih h

/-- Where a walk from the root ends. -/
theorem eq_target_of_walk (h : t.walk [] path = .ok there) : there = target [] path := by
  rw [target, ite_self]
  exact eq_foldl_of_foldlM h

/-- **A tree leads a path where it says**, if it leads it anywhere. -/
theorem resolve_eq_target (h : t.resolve path = .ok there) : there = target [] path := by
  unfold resolve at h
  split at h
  · cases h
  split at h
  · cases h
  split at h
  · cases h
  exact eq_target_of_walk h

/-- An empty piece leads on only where every piece does that leads on. -/
theorem enter_empty (t : Tree) (here : Place) :
    t.enter here "" = .ok here ∨ ∃ e, ∀ piece, t.enter here piece = .error e := by
  by_cases hdir : t.isDirectory here = true
  · exact .inl (by simp [enter, hdir])
  · exact .inr ⟨.notDirectory, fun piece => by simp [enter, hdir]⟩

/-- **A path that is continued is walked to its end first.** -/
theorem walk_joinPath (t : Tree) (here : Place) (dir : String)
    (h : ¬isAbsolute path = true) :
    t.walk here (joinPath dir path) = t.walk here dir >>= fun there => t.walk there path := by
  unfold walk
  rcases pieces_joinPath dir h with heq | ⟨above, hdir, heq⟩
  · rw [heq, List.foldlM_append]
  · rw [heq, hdir, List.foldlM_append, List.foldlM_append, bind_assoc]
    refine bind_congr fun there => ?_
    obtain ⟨piece, rest, hpieces⟩ := List.exists_cons_of_ne_nil (pieces_ne_nil path)
    rw [hpieces, List.foldlM_cons, List.foldlM_cons]
    rcases t.enter_empty there with hstay | ⟨e, hfail⟩
    · rw [hstay]
      exact List.foldlM_cons.symm
    · rw [hfail, hfail]
      rfl

/-- A path that is continued starts where it did. -/
theorem isAbsolute_joinPath (dir : String) (h : ¬isAbsolute path = true) :
    isAbsolute (joinPath dir path) = isAbsolute dir := by
  have hfront : dir ≠ "" → ∀ rest, isAbsolute (dir ++ rest) = isAbsolute dir := fun hne rest => by
    obtain ⟨c, cs, hdir⟩ := List.exists_cons_of_ne_nil (mt String.toList_eq_nil_iff.mp hne)
    simp [isAbsolute, hdir]
  rw [joinPath, if_neg h]
  split
  · by_cases hne : dir = ""
    · rw [hne, String.empty_append, (Bool.not_eq_true _).mp h]
      rfl
    · exact hfront hne path
  · next hnot =>
    rw [String.append_assoc]
    exact hfront (fun hempty => hnot (.inr hempty)) _

/-- A path that is joined to a directory leads on from where that leads. -/
theorem target_joinPath (cwd : Place) (dir : String) (h : ¬isAbsolute path = true) :
    target cwd (joinPath dir path) = (pieces path).foldl step (target cwd dir) := by
  unfold target
  rw [isAbsolute_joinPath dir h]
  rcases pieces_joinPath dir h with heq | ⟨above, hdir, heq⟩
  · rw [heq, List.foldl_append]
  · rw [heq, hdir, List.foldl_append, List.foldl_append]
    rfl

/-! ## Files -/

section Files

variable {content : List UInt8}

/-- What is read is the file that the path leads to. -/
theorem exists_file_of_read (h : t.read path = .ok content) :
    ∃ p, t.resolve path = .ok p ∧ t.node? p = some (.file content) := by
  unfold read at h
  cases hp : t.resolve path with
  | error e =>
    rw [hp] at h
    cases h
  | ok p =>
    rw [hp] at h
    refine ⟨p, rfl, ?_⟩
    simp only [bind, Except.bind] at h
    split at h <;> cases h
    assumption

theorem mem_files_of_node? {p : Place} (h : t.node? p = some (.file content)) :
    (p, content) ∈ t.files := by
  unfold node? at h
  split at h
  · next hfind =>
    cases h
    have hplace := List.find?_some hfind
    rw [decide_eq_true_eq] at hplace
    exact hplace ▸ List.mem_of_find?_eq_some hfind
  · split at h <;> cases h

/-- No file is longer than a file can be: sizes are numbers of 64 bits with a sign. -/
def IsSized (t : Tree) : Prop := ∀ f ∈ t.files, f.2.length ≤ Utf8.maxSize

/-- What can be read is no longer than a file may be. -/
theorem IsSized.length_le (hsize : t.IsSized) (h : t.read path = .ok content) :
    content.length ≤ Utf8.maxSize := by
  obtain ⟨p, -, hnode⟩ := exists_file_of_read h
  exact hsize _ (mem_files_of_node? hnode)

end Files

/-! ## Paths that lead inward -/

/-- Is the path relative, and does no piece of it go up? -/
def IsInward (path : String) : Prop := ¬isAbsolute path = true ∧ ".." ∉ pieces path

/-- What is checked is that the path leads inward. -/
theorem isContained_iff : isContained path = true ↔ IsInward path := by
  have horigin : (∀ c ∈ origin path, c.isInward = true) ↔ ¬isAbsolute path = true := by
    unfold origin
    split
    · next h => simp [Component.isInward, h]
    · next h => split <;> simp [Component.isInward, h]
  have hname : ∀ p : String, (Component.ofName p).isInward = true ↔ p ≠ ".." := fun p => by
    unfold Component.ofName
    split <;> simp [Component.isInward, *]
  rw [isContained, List.all_eq_true, components, List.forall_mem_append, horigin,
    List.forall_mem_map]
  refine and_congr_right fun _ => ?_
  simp only [hname, placeOf, List.mem_filter, decide_eq_true_eq]
  constructor
  · exact fun h hup => h ".." ⟨hup, by decide⟩ rfl
  · rintro h p ⟨hp, -⟩ rfl
    exact h hp

/-- Without a step up, pieces lead down. -/
theorem prefix_foldl_step (h : ".." ∉ ps) : here <+: ps.foldl step here := by
  induction ps generalizing here with
  | nil => exact List.prefix_rfl
  | cons piece ps ih =>
    rw [List.mem_cons, not_or] at h
    have hdown : here <+: step here piece := by
      unfold step
      split
      · exact List.prefix_rfl
      · rw [if_neg (Ne.symm h.1)]
        exact List.prefix_append ..
    exact hdown.trans (ih h.2)

/-- **A path whose parts lead inward stays at or below where it starts.** -/
theorem target_prefix_joinPath (cwd : Place) (dir : String) (h : IsInward path) :
    target cwd dir <+: target cwd (joinPath dir path) := by
  rw [target_joinPath cwd dir h.1]
  exact prefix_foldl_step h.2

/-- Its parts are neither the root nor a step up. -/
theorem not_mem_components (h : IsInward path) :
    .root ∉ components path ∧ .up ∉ components path := by
  have hinward := List.all_eq_true.mp (isContained_iff.mpr h)
  exact ⟨fun hroot => absurd (hinward _ hroot) nofun, fun hup => absurd (hinward _ hup) nofun⟩

end LintPatrol.Tree
