import LintPatrol.Proofs.Checkout.Findings

/-!
# LintPatrol.Proofs.Checkout.Containment

Files are opened at or below the directory only.  What is opened is seen by opening
through a log (`Tree.readLogged`), which leaves the result as it is (`Opens`).  A
path is opened only if its parts lead inward, so it leads to a place at or below the
directory; and what stands there is all that the result depends on
(`Tree.read_congr`).

## Main statements

* `opens_ofDirectoryBy`: which paths are opened.
* `ofDirectory_contained`: that they stay in the directory, and that what stands
  elsewhere does not matter.
-/

namespace LintPatrol

/-! ## What a directory is read by -/

namespace Tree

/-- Does every piece of the path lead on? -/
def Reaches (t : Tree) (path : String) : Prop := ∃ p, t.walk [] path = .ok p

variable {t u : Tree} {here : Place} {ps : List String} {dir path : String}

/-- What a piece leads to is decided by what stands here and below. -/
theorem enter_congr (h : ∀ p, here <+: p → t.node? p = u.node? p) (piece : String) :
    t.enter here piece = u.enter here piece := by
  simp only [enter, isDirectory, h here List.prefix_rfl, h _ (List.prefix_append here [piece])]

/-- A walk that does not go up depends only on what lies below its start. -/
theorem foldlM_enter_congr (h : ∀ p, here <+: p → t.node? p = u.node? p) (hup : ".." ∉ ps) :
    ps.foldlM t.enter here = ps.foldlM u.enter here := by
  induction ps generalizing here with
  | nil => rfl
  | cons piece ps ih =>
    rw [List.mem_cons, not_or] at hup
    rw [List.foldlM_cons, List.foldlM_cons, enter_congr h]
    cases hnext : u.enter here piece with
    | error e => rfl
    | ok next =>
      have hdown : here <+: next := by
        have hone : ".." ∉ [piece] := by simpa using hup.1
        have hstep : next = [piece].foldl step here := eq_step_of_enter hnext
        exact hstep ▸ prefix_foldl_step hone
      exact ih (fun p hp => h p (hdown.trans hp)) hup.2

variable (ht : t.Reaches dir) (hu : u.Reaches dir)
  (h : ∀ p, target [] dir <+: p → t.node? p = u.node? p)
include ht hu h

/-- So does the place an inward path leads to. -/
theorem resolve_congr (hin : IsInward path) :
    t.resolve (joinPath dir path) = u.resolve (joinPath dir path) := by
  obtain ⟨p, hp⟩ := ht
  obtain ⟨q, hq⟩ := hu
  have hwalk : t.walk [] (joinPath dir path) = u.walk [] (joinPath dir path) := by
    rw [walk_joinPath t [] dir hin.1, walk_joinPath u [] dir hin.1, hp, hq, eq_target_of_walk hp,
      eq_target_of_walk hq]
    exact foldlM_enter_congr h hin.2
  rw [walk, walk] at hwalk
  rw [resolve, resolve, hwalk]

/-- **What is read in a directory** is decided by what stands there and below. -/
theorem read_congr (hin : IsInward path) :
    t.read (joinPath dir path) = u.read (joinPath dir path) := by
  rw [read, read, resolve_congr ht hu h hin]
  cases hp : u.resolve (joinPath dir path) with
  | error e => rfl
  | ok p =>
    have hbelow : target [] dir <+: p :=
      resolve_eq_target hp ▸ target_prefix_joinPath [] dir hin
    simp only [bind, Except.bind, h p hbelow]

end Tree

namespace Excerpt

/-! ## What is opened -/

/-- Reads the file a path leads to, and puts the path on the list of those opened. -/
def readLogged (t : Tree) (path : String) : StateM (List String) (Except PathError (List UInt8)) :=
  fun log => (t.read path, log ++ [path])

section Opens

variable {α β : Type} {P : String → Prop}

/-- Is that the result, whatever was opened before, and has all that is opened the
property? -/
def Opens (P : String → Prop) (x : ExceptT ExcerptError (StateM (List String)) α)
    (r : Except ExcerptError α) : Prop :=
  ∀ log, ∃ opened, x.run.run log = (r, log ++ opened) ∧ ∀ q ∈ opened, P q

/-- An answer opens nothing. -/
theorem Opens.pure (r : Except ExcerptError α) : Opens P (ExceptT.mk (Pure.pure r)) r :=
  fun log => ⟨[], by rw [List.append_nil]; rfl, nofun⟩

/-- What one part opens, and then what the other does. -/
theorem Opens.bind {x : ExceptT ExcerptError (StateM (List String)) α}
    {f : α → ExceptT ExcerptError (StateM (List String)) β} {r : Except ExcerptError α}
    {g : α → Except ExcerptError β} (hx : Opens P x r) (hf : ∀ a, r = .ok a → Opens P (f a) (g a)) :
    Opens P (x >>= f) (r >>= g) := by
  intro log
  obtain ⟨opened, hrun, hopened⟩ := hx log
  cases r with
  | error e =>
    refine ⟨opened, ?_, hopened⟩
    rw [ExceptT.run_bind, StateT.run_bind, hrun]
    rfl
  | ok a =>
    obtain ⟨more, hrun', hmore⟩ := hf a rfl (log ++ opened)
    refine ⟨opened ++ more, ?_, List.forall_mem_append.mpr ⟨hopened, hmore⟩⟩
    rw [ExceptT.run_bind, StateT.run_bind, hrun, ← List.append_assoc]
    exact hrun'

/-- What is opened for each element in turn. -/
theorem Opens.mapM {f : α → ExceptT ExcerptError (StateM (List String)) β}
    {g : α → Except ExcerptError β} {l : List α} (h : ∀ x ∈ l, Opens P (f x) (g x)) :
    Opens P (l.mapM f) (l.mapM g) := by
  induction l with
  | nil => exact Opens.pure (.ok [])
  | cons x l ih =>
    obtain ⟨hx, hl⟩ := List.forall_mem_cons.mp h
    rw [List.mapM_cons, List.mapM_cons]
    exact hx.bind fun y _ => (ih hl).bind fun ys _ => Opens.pure (.ok (y :: ys))

variable (t : Tree) (dir : String) (hs : List Highlight)

/-- A path is opened if its parts lead inward. -/
theorem opens_ofPathBy (path : String)
    (hP : Tree.IsInward path → P (Tree.joinPath dir path)) :
    Opens P (ofPathBy (readLogged t) dir path hs) (ofPath t dir path hs) := by
  by_cases hin : Tree.IsInward path
  · intro log
    refine ⟨[Tree.joinPath dir path], ?_, by simpa using hP hin⟩
    rw [ofPath_of_inward hs hin, ofPathBy, Tree.isContained_iff.mpr hin]
    simp only [Bool.not_true, Bool.false_eq_true, if_false]
    unfold readLogged
    cases t.read (Tree.joinPath dir path) <;> rfl
  · rw [ofPath_of_not_inward hs hin]
    rw [← Tree.isContained_iff, Bool.not_eq_true] at hin
    rw [ofPathBy, hin]
    exact Opens.pure (.error (.pathOutside path))

/-- All that is opened is opened at the path of a highlight that leads inward. -/
theorem opens_ofDirectoryBy (hP : ∀ h ∈ hs, Tree.IsInward h.path → P (Tree.joinPath dir h.path)) :
    Opens P (ofDirectoryBy (readLogged t) dir hs) (ofDirectory t dir hs) := by
  have hgs := groups_groupByPath hs
  rw [ofDirectory_eq]
  refine Opens.bind (Opens.mapM fun g hg => ?_) fun parts _ => Opens.pure (.ok parts.flatten)
  refine opens_ofPathBy t dir g.2 g.1 fun hin => ?_
  obtain ⟨h, hh, heq⟩ := (hgs.covered g.1).mp ⟨g, hg, rfl⟩
  rw [← heq] at hin ⊢
  exact hP h hh hin

end Opens

/-! ## What stays in a directory -/

/-- The paths that are opened to cut the code around highlights out of the files of a
directory. -/
def opened (t : Tree) (dir : String) (hs : List Highlight) : List String :=
  ((ofDirectoryBy (readLogged t) dir hs).run.run []).2

/-- Is the path one of the directory, and opened for one of the highlights? -/
structure OpenedWithin (t : Tree) (dir : String) (hs : List Highlight) (path : String) : Prop where
  source : ∃ h ∈ hs, path = Tree.joinPath dir h.path ∧
    .root ∉ Tree.components h.path ∧ .up ∉ Tree.components h.path
  below : ∀ cwd, Tree.target cwd dir <+: Tree.target cwd path
  leads : ∀ p, t.resolve path = .ok p → p = Tree.target [] path

/-- The path of a highlight that leads inward names something in the directory. -/
theorem openedWithin {t : Tree} {dir : String} {hs : List Highlight} {h : Highlight} (hh : h ∈ hs)
    (hin : Tree.IsInward h.path) : OpenedWithin t dir hs (Tree.joinPath dir h.path) :=
  ⟨⟨h, hh, rfl, Tree.not_mem_components hin⟩,
    fun cwd => Tree.target_prefix_joinPath cwd dir hin, fun _ => Tree.resolve_eq_target⟩

/-- **Only files of the directory are opened**, whatever the paths of the highlights
are; and what is found, or reported, is decided by what stands there and below. -/
theorem ofDirectory_contained (dir : String) :
    (∀ (t : Tree) (hs : List Highlight),
      (ofDirectoryBy (readLogged t) dir hs).run.run [] = (ofDirectory t dir hs, opened t dir hs) ∧
      ∀ path ∈ opened t dir hs, OpenedWithin t dir hs path) ∧
    ∀ t u : Tree, t.Reaches dir → u.Reaches dir →
      (∀ p, Tree.target [] dir <+: p → t.node? p = u.node? p) →
        ∀ hs, ofDirectory t dir hs = ofDirectory u dir hs := by
  refine ⟨fun t hs => ?_, fun t u ht hu h hs => ?_⟩
  · obtain ⟨paths, hrun, hpaths⟩ :=
      opens_ofDirectoryBy t dir hs (fun h hh hin => openedWithin hh hin) []
    rw [List.nil_append] at hrun
    rw [opened, hrun]
    exact ⟨rfl, hpaths⟩
  · have hpath : ofPath t dir = ofPath u dir := by
      funext path hs
      by_cases hin : Tree.IsInward path
      · rw [ofPath_of_inward hs hin, ofPath_of_inward hs hin, Tree.read_congr ht hu h hin]
      · rw [ofPath_of_not_inward hs hin, ofPath_of_not_inward hs hin]
    rw [ofDirectory_eq, ofDirectory_eq, hpath]

/-- What the trees have outside of the directory differs, and two of the paths are
those of a file there. -/
theorem ofDirectory_contained_outside :
    let t : Tree := ⟨[(["w", "a"], [120]), (["s"], [1])], []⟩
    let u : Tree := ⟨[(["s"], [2]), (["w", "a"], [120])], [["v"]]⟩
    let hs : List Highlight := [⟨"/s", 1, 1, ""⟩, ⟨"./a", 1, 1, ""⟩, ⟨"../s", 1, 1, ""⟩]
    ("w/./a" ∈ opened t "w" [⟨"./a", 1, 1, ""⟩] ∧
      OpenedWithin t "w" [⟨"./a", 1, 1, ""⟩] "w/./a") ∧
    t.Reaches "w" ∧ u.Reaches "w" ∧ (∀ p, Tree.target [] "w" <+: p → t.node? p = u.node? p) ∧
      ofDirectory t "w" hs = ofDirectory u "w" hs := by
  intro t u hs
  have hopened : "w/./a" ∈ opened t "w" [⟨"./a", 1, 1, ""⟩] := by decide
  have ht : t.Reaches "w" := ⟨["w"], rfl⟩
  have hu : u.Reaches "w" := ⟨["w"], rfl⟩
  have h : ∀ p, Tree.target [] "w" <+: p → t.node? p = u.node? p := by
    have hw : Tree.target [] "w" = ["w"] := by decide
    rintro p ⟨rest, rfl⟩
    rw [hw]
    simp [Tree.node?, t, u, List.find?_cons]
  obtain ⟨hpaths, hresult⟩ := ofDirectory_contained "w"
  exact ⟨⟨hopened, (hpaths t _).2 _ hopened⟩, ht, hu, h, hresult t u ht hu h hs⟩

end Excerpt

end LintPatrol
