import Mathlib.Data.List.Induction
import LintPatrol.Checkout.Findings
import LintPatrol.Proofs.Checkout.Path
import LintPatrol.Proofs.Highlight.Excerpt
import LintPatrol.Proofs.Order.Sort
import LintPatrol.Proofs.Text.Utf8

/-!
# LintPatrol.Proofs.Checkout.Findings

The code around the highlights of many files.  Highlights are put into groups by
path, one after the other, each behind those of its path that came before
(`Groups.insert`).  So the groups, taken together, are the highlights sorted by
path, and those of one path are in their order (`Groups.flatMap_eq`).  A group
either has all the code cut out, or there is one thing wrong with its path
(`ofPath_sound_or_fault`); as groups are taken in the order of paths, what is
reported is wrong with the smallest path with which anything is.

## Main statements

* `groups_groupByPath`: what the groups are.
* `ofDirectory_sorts`: what is found in the files of a directory, or reported.
-/

namespace LintPatrol

open Text

/-! ## Something done with each of a list -/

section Each

variable {ε α β : Type} {f : α → Except ε β} {l : List α}

/-- What succeeds has succeeded with each. -/
theorem map_eq_of_mapM {ys : List β} (h : l.mapM f = .ok ys) : l.map f = ys.map .ok := by
  induction l generalizing ys with
  | nil =>
    cases h
    rfl
  | cons x l ih =>
    rw [List.mapM_cons] at h
    cases hx : f x with
    | error e =>
      rw [hx] at h
      cases h
    | ok y =>
      rw [hx] at h
      cases hl : l.mapM f with
      | error e =>
        rw [hl] at h
        cases h
      | ok zs =>
        rw [hl] at h
        cases h
        rw [List.map_cons, List.map_cons, hx, ih hl]

/-- What fails has failed with the first that can fail. -/
theorem exists_first_of_mapM {e : ε} (h : l.mapM f = .error e) :
    ∃ before x after, l = before ++ x :: after ∧ (∀ b ∈ before, ∃ y, f b = .ok y) ∧
      f x = .error e := by
  induction l with
  | nil => cases h
  | cons x l ih =>
    rw [List.mapM_cons] at h
    cases hx : f x with
    | error e' =>
      rw [hx] at h
      cases h
      exact ⟨[], x, l, rfl, nofun, hx⟩
    | ok y =>
      rw [hx] at h
      cases hl : l.mapM f with
      | ok zs =>
        rw [hl] at h
        cases h
      | error e' =>
        rw [hl] at h
        cases h
        obtain ⟨before, z, after, rfl, hbefore, hz⟩ := ih hl
        exact ⟨x :: before, z, after, rfl, List.forall_mem_cons.mpr ⟨⟨y, hx⟩, hbefore⟩, hz⟩

/-- What succeeds with each succeeds. -/
theorem mapM_eq_ok {g : α → β} (h : ∀ x ∈ l, f x = .ok (g x)) : l.mapM f = .ok (l.map g) := by
  induction l with
  | nil => rfl
  | cons x l ih =>
    obtain ⟨hx, hl⟩ := List.forall_mem_cons.mp h
    rw [List.mapM_cons, hx, ih hl]
    rfl

end Each

namespace Excerpt

/-! ## Groups -/

/-- Are these the highlights by path? -/
structure Groups (hs : List Highlight) (gs : List (String × List Highlight)) : Prop where
  ascending : gs.Pairwise fun g g' => g.1 < g'.1
  group : ∀ g ∈ gs, g.2 = hs.filter (·.path = g.1)
  covered : ∀ p, (∃ g ∈ gs, g.1 = p) ↔ ∃ h ∈ hs, h.path = p

variable {hs : List Highlight} {gs : List (String × List Highlight)}

/-- Where a highlight is put: behind the groups of smaller paths, and into the
group of its path if there is one. -/
theorem insertByPath_eq (h : Highlight) (hasc : gs.Pairwise fun g g' => g.1 < g'.1) :
    ∃ lower same upper, gs = lower ++ same ++ upper ∧
      insertByPath h gs = lower ++ (h.path, same.flatMap Prod.snd ++ [h]) :: upper ∧
      (∀ g ∈ lower, g.1 < h.path) ∧ (∀ g ∈ upper, h.path < g.1) ∧
      (same = [] ∨ ∃ old, same = [(h.path, old)]) := by
  induction gs with
  | nil => exact ⟨[], [], [], rfl, rfl, nofun, nofun, .inl rfl⟩
  | cons g gs ih =>
    obtain ⟨p, old⟩ := g
    obtain ⟨hfirst, hasc⟩ := List.pairwise_cons.mp hasc
    rw [insertByPath]
    split
    · next heq =>
      subst heq
      exact ⟨[], [(_, old)], gs, rfl, by simp, nofun, hfirst, .inr ⟨old, rfl⟩⟩
    · next hne =>
      split
      · next hlt =>
        refine ⟨[], [], (p, old) :: gs, rfl, rfl, nofun, ?_, .inl rfl⟩
        exact List.forall_mem_cons.mpr ⟨hlt, fun g hg => String.lt_trans hlt (hfirst g hg)⟩
      · next hge =>
        have hlt : p < h.path := Decidable.not_not.mp fun hnot =>
          hne (String.le_antisymm (String.not_lt.mp hge) (String.not_lt.mp hnot))
        obtain ⟨lower, same, upper, rfl, hinsert, hlower, hupper, hsame⟩ := ih hasc
        exact ⟨(p, old) :: lower, same, upper, rfl, by rw [hinsert]; rfl,
          List.forall_mem_cons.mpr ⟨hlt, hlower⟩, hupper, hsame⟩

theorem exists_mem_insertByPath {h : Highlight} {p : String} :
    (∃ g ∈ insertByPath h gs, g.1 = p) ↔ (∃ g ∈ gs, g.1 = p) ∨ h.path = p := by
  induction gs with
  | nil => simp [insertByPath]
  | cons g gs ih =>
    rw [insertByPath]
    split
    · next heq =>
      simp only [List.exists_mem_cons_iff, heq]
      exact ⟨.inl, fun h => h.elim id .inl⟩
    · split
      · simp [or_comm]
      · simp only [List.exists_mem_cons_iff, ih, or_assoc]

/-- One more highlight is put behind those of its path, or begins a group. -/
theorem Groups.insert (hgs : Groups hs gs) (h : Highlight) :
    Groups (hs ++ [h]) (insertByPath h gs) := by
  obtain ⟨lower, same, upper, rfl, hinsert, hlower, hupper, hsame⟩ :=
    insertByPath_eq h hgs.ascending
  have hpath : hs.filter (·.path = h.path) = same.flatMap Prod.snd := by
    rcases hsame with rfl | ⟨old, rfl⟩
    · refine List.filter_eq_nil_iff.mpr fun b hb hpath => ?_
      obtain ⟨g, hg, heq⟩ := (hgs.covered h.path).mpr ⟨b, hb, of_decide_eq_true hpath⟩
      rw [List.append_nil] at hg
      rcases List.mem_append.mp hg with hg | hg
      · exact String.ne_of_lt (hlower g hg) heq
      · exact String.ne_of_lt (hupper g hg) heq.symm
    · have hgroup := hgs.group (h.path, old) (by simp)
      simpa using hgroup.symm
  have hother : ∀ g : String × List Highlight, g.1 ≠ h.path → g.2 = hs.filter (·.path = g.1) →
      g.2 = (hs ++ [h]).filter (·.path = g.1) := fun g hne hg => by
    rw [List.filter_append, List.filter_cons_of_neg (by simpa using Ne.symm hne), List.filter_nil,
      List.append_nil, hg]
  obtain ⟨hfront, hup, hcross⟩ := List.pairwise_append.mp hgs.ascending
  obtain ⟨hlow, -, -⟩ := List.pairwise_append.mp hfront
  rw [hinsert]
  constructor
  case ascending =>
    refine List.pairwise_append.mpr ⟨hlow, List.pairwise_cons.mpr ⟨hupper, hup⟩, fun g hg => ?_⟩
    exact List.forall_mem_cons.mpr ⟨hlower g hg, hcross g (List.mem_append_left _ hg)⟩
  case group =>
    intro g hg
    rcases List.mem_append.mp hg with hg | hg
    · exact hother g (String.ne_of_lt (hlower g hg)) (hgs.group g (by simp [hg]))
    rcases List.mem_cons.mp hg with rfl | hg
    · simp [List.filter_append, hpath]
    · exact hother g (String.ne_of_lt (hupper g hg)).symm (hgs.group g (by simp [hg]))
  case covered =>
    intro p
    rw [← hinsert, exists_mem_insertByPath, hgs.covered p]
    simp [or_and_right, exists_or]

/-- Grouping makes the groups. -/
theorem groups_groupByPath (hs : List Highlight) : Groups hs (groupByPath hs) := by
  induction hs using List.reverseRecOn with
  | nil => exact ⟨.nil, nofun, fun p => by simp [groupByPath]⟩
  | append_singleton hs h ih =>
    rw [groupByPath, List.foldl_concat, ← groupByPath]
    exact ih.insert h

namespace Groups

variable (hgs : Groups hs gs)
include hgs

theorem path_eq {g : String × List Highlight} (hg : g ∈ gs) : ∀ h ∈ g.2, h.path = g.1 := by
  intro h hh
  rw [hgs.group g hg] at hh
  exact of_decide_eq_true (List.mem_filter.mp hh).2

theorem ne_nil {g : String × List Highlight} (hg : g ∈ gs) : g.2 ≠ [] := by
  obtain ⟨h, hh, heq⟩ := (hgs.covered g.1).mp ⟨g, hg, rfl⟩
  rw [hgs.group g hg]
  exact List.ne_nil_of_mem (List.mem_filter.mpr ⟨hh, decide_eq_true heq⟩)

theorem mem_of_mem {g : String × List Highlight} (hg : g ∈ gs) {h : Highlight} (hh : h ∈ g.2) :
    h ∈ hs := by
  rw [hgs.group g hg] at hh
  exact (List.mem_filter.mp hh).1

/-- Every highlight is in a group. -/
theorem exists_mem {h : Highlight} (hh : h ∈ hs) : ∃ g ∈ gs, g.1 = h.path ∧ h ∈ g.2 := by
  obtain ⟨g, hg, heq⟩ := (hgs.covered h.path).mpr ⟨h, hh, rfl⟩
  refine ⟨g, hg, heq, ?_⟩
  rw [hgs.group g hg]
  exact List.mem_filter.mpr ⟨hh, decide_eq_true heq.symm⟩

end Groups

/-! ## One list of all groups -/

/-- What comes of a group is all that comes of its path. -/
theorem filter_flatMap_of_mem {β : Type} {f : String × List Highlight → List β} {key : β → String}
    (hasc : gs.Pairwise fun g g' => g.1 < g'.1) (hkey : ∀ g ∈ gs, ∀ x ∈ f g, key x = g.1)
    {g : String × List Highlight} (hg : g ∈ gs) :
    (gs.flatMap f).filter (key · = g.1) = f g := by
  obtain ⟨lower, upper, rfl⟩ := List.append_of_mem hg
  obtain ⟨-, hup, hlow⟩ := List.pairwise_append.mp hasc
  have hself : (f g).filter (key · = g.1) = f g :=
    List.filter_eq_self.mpr fun x hx => decide_eq_true (hkey g hg x hx)
  have hother : ∀ gs' : List (String × List Highlight), gs' ⊆ lower ++ g :: upper →
      (∀ g' ∈ gs', g'.1 ≠ g.1) → (gs'.flatMap f).filter (key · = g.1) = [] := by
    intro gs' hsub hne
    refine List.filter_eq_nil_iff.mpr fun x hx => ?_
    obtain ⟨g', hg', hx⟩ := List.mem_flatMap.mp hx
    rw [decide_eq_true_eq, hkey g' (hsub hg') x hx]
    exact hne g' hg'
  have hlower := hother lower (by simp) fun g' hg' =>
    String.ne_of_lt (hlow g' hg' g List.mem_cons_self)
  have hupper := hother upper (by simp) fun g' hg' =>
    (String.ne_of_lt ((List.pairwise_cons.mp hup).1 g' hg')).symm
  rw [List.flatMap_append, List.flatMap_cons, List.filter_append, List.filter_append, hlower,
    hself, hupper, List.nil_append, List.append_nil]

/-- The order of highlights by the bytes of their paths. -/
def byPath (h h' : Highlight) : Bool := Utf8.bytes h.path ≤ Utf8.bytes h'.path

theorem byPath_iff {h h' : Highlight} : byPath h h' = true ↔ h.path ≤ h'.path := by
  rw [byPath, decide_eq_true_eq, Utf8.bytes_le_iff]

theorem tied_byPath {h h' : Highlight} : tied byPath h h' = true ↔ h'.path = h.path := by
  rw [tied_iff, byPath_iff, byPath_iff]
  exact ⟨fun ⟨h, h'⟩ => String.le_antisymm h h',
    fun h => ⟨h ▸ String.le_refl _, h ▸ String.le_refl _⟩⟩

/-- **Group after group, highlights are sorted by path**, those of one path standing
in their order. -/
theorem Groups.flatMap_eq (hgs : Groups hs gs) : gs.flatMap Prod.snd = hs.mergeSort byPath := by
  have hkey := fun g (hg : g ∈ gs) => hgs.path_eq hg
  apply eq_mergeSort
  case trans =>
    intro a b c
    rw [byPath_iff, byPath_iff, byPath_iff]
    exact String.le_trans
  case total =>
    intro a b
    rw [Bool.or_eq_true, byPath_iff, byPath_iff]
    exact String.le_total ..
  case hsorted =>
    refine List.pairwise_flatMap.mpr ⟨fun g hg => ?_, hgs.ascending.imp_of_mem ?_⟩
    · refine List.pairwise_of_forall_mem_list fun h hh h' hh' => byPath_iff.mpr ?_
      have hsame : h.path = h'.path := (hkey g hg h hh).trans (hkey g hg h' hh').symm
      exact hsame ▸ String.le_refl _
    · intro g g' hg hg' hlt h hh h' hh'
      rw [byPath_iff, hkey g hg h hh, hkey g' hg' h' hh']
      exact String.not_lt.mp (String.lt_asymm hlt)
  case h =>
    intro h
    have htied : tied byPath h = fun h' => decide (h'.path = h.path) :=
      funext fun h' => by rw [Bool.eq_iff_iff, tied_byPath, decide_eq_true_eq]
    rw [htied]
    by_cases hp : ∃ g ∈ gs, g.1 = h.path
    · obtain ⟨g, hg, heq⟩ := hp
      rw [← heq, filter_flatMap_of_mem hgs.ascending hkey hg, hgs.group g hg]
    · -- Neither list has a highlight of this path.
      have hnone : ∀ h' ∈ hs, h'.path ≠ h.path := fun h' hh' heq =>
        hp ((hgs.covered h.path).mpr ⟨h', hh', heq⟩)
      rw [List.filter_eq_nil_iff.mpr fun h' hh' => ?_,
        List.filter_eq_nil_iff.mpr fun h' hh' => by simpa using hnone h' hh']
      obtain ⟨g, hg, hh'⟩ := List.mem_flatMap.mp hh'
      rw [decide_eq_true_eq, hkey g hg h' hh']
      exact fun heq => hp ⟨g, hg, heq⟩

/-! ## One file -/

section File

variable {ls : List (List Char)} {h : Highlight}

/-- Highlights that lie within the file can be cut out. -/
theorem exists_cut (hin : LiesIn ls.length h) (hsize : ls.length ≤ Utf8.maxSize)
    (hfeed : ∀ l ∈ ls, '\n' ∉ l) : ∃ f, cut ls h = .ok f := by
  obtain ⟨s, hs, -⟩ := exists_snippet hin hsize hfeed
  exact ⟨⟨h, s⟩, by rw [cut, if_pos (inRange_iff.mpr hin), hs]⟩

/-- One that does not is refused. -/
theorem cut_of_not_liesIn (h : Highlight) (hin : ¬LiesIn ls.length h) :
    cut ls h = .error (.invalidRange h.path h.startLine h.endLine ls.length) := by
  rw [cut, if_neg (mt inRange_iff.mp hin)]

theorem highlight_of_cut {f : Finding} (hf : cut ls h = .ok f) : f.highlight = h := by
  unfold cut at hf
  split at hf
  · split at hf <;> cases hf
    rfl
  · cases hf

/-- Only from within the file something is cut out. -/
theorem liesIn_of_cut {f : Finding} (hf : cut ls h = .ok f) : LiesIn ls.length h := by
  refine Classical.not_not.mp fun hin => ?_
  rw [cut_of_not_liesIn h hin] at hf
  cases hf

/-- What is found in a file are its highlights, in order. -/
theorem map_highlight_of_ofFile {content : List Char} {fs : List Finding}
    (hfs : ofFile content hs = .ok fs) : fs.map Finding.highlight = hs := by
  have hmap := map_eq_of_mapM hfs
  clear hfs
  induction fs generalizing hs with
  | nil => simpa using hmap.symm
  | cons f fs ih =>
    cases hs with
    | nil => cases hmap
    | cons h hs =>
      obtain ⟨hf, hfs⟩ := List.cons.inj hmap
      rw [List.map_cons, highlight_of_cut hf, ih hfs]

end File

/-! ## One path -/

variable {t : Tree} {dir path : String}

/-- Can the code around the highlight be cut out of its file? -/
structure Sound (t : Tree) (dir : String) (h : Highlight) : Prop where
  inward : Tree.IsInward h.path
  file : ∃ content, t.read (Tree.joinPath dir h.path) = .ok content ∧
    LiesIn (lines (Utf8.decodeLossy content)).length h

/-- What is wrong with a path that has these highlights. -/
inductive Fault (t : Tree) (dir path : String) (hs : List Highlight) : ExcerptError → Prop where
  | outside (hin : ¬Tree.IsInward path) : Fault t dir path hs (.pathOutside path)
  | unreadable (hin : Tree.IsInward path) (e : PathError)
      (hread : t.read (Tree.joinPath dir path) = .error e) :
      Fault t dir path hs (.unreadable (Tree.joinPath dir path) e.message)
  | invalidRange (hin : Tree.IsInward path) (content : List UInt8)
      (hread : t.read (Tree.joinPath dir path) = .ok content) (before : List Highlight)
      (h : Highlight) (after : List Highlight) (heq : hs = before ++ h :: after)
      (hbefore : ∀ b ∈ before, LiesIn (lines (Utf8.decodeLossy content)).length b)
      (hh : ¬LiesIn (lines (Utf8.decodeLossy content)).length h) :
      Fault t dir path hs
        (.invalidRange h.path h.startLine h.endLine (lines (Utf8.decodeLossy content)).length)

/-- A path that leads outside is refused before anything is read. -/
theorem ofPath_of_not_inward (hs : List Highlight) (hin : ¬Tree.IsInward path) :
    ofPath t dir path hs = .error (.pathOutside path) := by
  rw [← Tree.isContained_iff, Bool.not_eq_true] at hin
  rw [ofPath, ofPathBy, hin]
  rfl

/-- On any other path the file is read, and its highlights are cut out. -/
theorem ofPath_of_inward (hs : List Highlight) (hin : Tree.IsInward path) :
    ofPath t dir path hs =
      match t.read (Tree.joinPath dir path) with
      | .error e => .error (.unreadable (Tree.joinPath dir path) e.message)
      | .ok content => ofFile (Utf8.decodeLossy content) hs := by
  rw [← Tree.isContained_iff] at hin
  rw [ofPath, ofPathBy, hin]
  cases hread : t.read (Tree.joinPath dir path) <;> simp [hread]

/-- A file that can be read has no more lines than can be counted. -/
theorem length_lines_le_of_read (hsize : t.IsSized) {content : List UInt8}
    (hread : t.read path = .ok content) :
    (lines (Utf8.decodeLossy content)).length ≤ Utf8.maxSize := by
  have hbytes := hsize.length_le hread
  have hchars := Utf8.length_decodeLossy_le content
  have hlines := length_linesFrom_le [] (Utf8.decodeLossy content)
  rw [lines]
  simp only [List.length_nil] at hlines
  omega

/-- The code around the highlights of a path is cut out if that can be done for all
of them; otherwise it is reported what is wrong. -/
theorem ofPath_sound_or_fault (hsize : t.IsSized) (dir : String) (hne : hs ≠ [])
    (hpath : ∀ h ∈ hs, h.path = path) :
    ((∀ h ∈ hs, Sound t dir h) ∧ ∃ content fs, t.read (Tree.joinPath dir path) = .ok content ∧
      ofFile (Utf8.decodeLossy content) hs = .ok fs ∧ ofPath t dir path hs = .ok fs) ∨
    (∃ h ∈ hs, ¬Sound t dir h) ∧ ∃ e, Fault t dir path hs e ∧ ofPath t dir path hs = .error e := by
  obtain ⟨first, hfirst⟩ := List.exists_mem_of_ne_nil hs hne
  have heq := hpath first hfirst
  by_cases hin : Tree.IsInward path
  case neg =>
    exact .inr ⟨⟨first, hfirst, fun h => hin (heq ▸ h.inward)⟩, _, .outside hin,
      ofPath_of_not_inward hs hin⟩
  rw [ofPath_of_inward hs hin]
  cases hread : t.read (Tree.joinPath dir path) with
  | error e =>
    refine .inr ⟨⟨first, hfirst, fun h => ?_⟩, _, .unreadable hin e hread, rfl⟩
    obtain ⟨content, hcontent, -⟩ := h.file
    rw [heq, hread] at hcontent
    cases hcontent
  | ok content =>
    have hcount := length_lines_le_of_read hsize hread
    have hfeed : ∀ l ∈ lines (Utf8.decodeLossy content), '\n' ∉ l := fun l hl => not_mem_lines hl
    have hsound : ∀ h ∈ hs, Sound t dir h ↔
        LiesIn (lines (Utf8.decodeLossy content)).length h := fun h hh => by
      refine ⟨fun h => ?_, fun hlies => ⟨hpath h hh ▸ hin, content, hpath h hh ▸ hread, hlies⟩⟩
      obtain ⟨content', hcontent, hlies⟩ := h.file
      rw [hpath _ hh, hread] at hcontent
      cases hcontent
      exact hlies
    cases hfs : ofFile (Utf8.decodeLossy content) hs with
    | ok fs =>
      refine .inl ⟨fun h hh => (hsound h hh).mpr ?_, content, fs, rfl, hfs, hfs⟩
      have hmem := List.mem_map_of_mem (f := cut (lines (Utf8.decodeLossy content))) hh
      rw [map_eq_of_mapM hfs] at hmem
      obtain ⟨f, -, hf⟩ := List.mem_map.mp hmem
      exact liesIn_of_cut hf.symm
    | error e =>
      obtain ⟨before, h, after, rfl, hbefore, hh⟩ := exists_first_of_mapM hfs
      have hlies : ¬LiesIn (lines (Utf8.decodeLossy content)).length h := fun hlies => by
        obtain ⟨f, hf⟩ := exists_cut hlies hcount hfeed
        rw [hh] at hf
        cases hf
      rw [cut_of_not_liesIn h hlies] at hh
      cases hh
      refine .inr ⟨⟨h, by simp, fun hs => hlies ((hsound h (by simp)).mp hs)⟩, _,
        .invalidRange hin content hread before h after rfl (fun b hb => ?_) hlies, hfs⟩
      obtain ⟨f, hf⟩ := hbefore b hb
      exact liesIn_of_cut hf

/-! ## All paths -/

theorem mapM_run {ε α β : Type} (f : α → ExceptT ε Id β) (l : List α) :
    Id.run (l.mapM f).run = l.mapM fun x => Id.run (f x).run := by
  induction l with
  | nil => rfl
  | cons x l ih =>
    rw [List.mapM_cons, List.mapM_cons, ← ih]
    simp only [ExceptT.run_bind, Id.run_bind]
    cases Id.run (f x).run with
    | error e => rfl
    | ok y =>
      cases h : Id.run (l.mapM f).run with
      | error e => simp [h]; rfl
      | ok ys => simp [h]; rfl

/-- Paths are taken one after the other. -/
theorem ofDirectory_eq (t : Tree) (dir : String) (hs : List Highlight) :
    ofDirectory t dir hs =
      ((groupByPath hs).mapM fun g => ofPath t dir g.1 g.2) >>= fun parts => .ok parts.flatten := by
  simp only [ofDirectory, ofDirectoryBy, ofPath, ExceptT.run_bind, Id.run_bind, mapM_run]
  generalize List.mapM (m := Except ExcerptError) _ (groupByPath hs) = parts
  cases parts <;> rfl

/-- Is that what is found of the highlights in the files of a directory? -/
structure Extracts (t : Tree) (dir : String) (hs : List Highlight) (fs : List Finding) : Prop where
  sorted : fs.map Finding.highlight = hs.mergeSort byPath
  files : ∀ h ∈ hs, ∃ content, t.read (Tree.joinPath dir h.path) = .ok content ∧
    ofFile (Utf8.decodeLossy content) (hs.filter (·.path = h.path)) =
      .ok (fs.filter (·.highlight.path = h.path))

/-- What is found in the files of all groups. -/
theorem Groups.extracts (hgs : Groups hs gs) {out : String × List Highlight → List Finding}
    (hout : ∀ g ∈ gs, ∃ content, t.read (Tree.joinPath dir g.1) = .ok content ∧
      ofFile (Utf8.decodeLossy content) g.2 = .ok (out g)) :
    Extracts t dir hs (gs.flatMap out) := by
  have hmap : ∀ g ∈ gs, (out g).map Finding.highlight = g.2 := fun g hg => by
    obtain ⟨content, -, hfile⟩ := hout g hg
    exact map_highlight_of_ofFile hfile
  constructor
  case sorted =>
    rw [← hgs.flatMap_eq, List.map_flatMap]
    exact List.flatMap_congr hmap
  case files =>
    intro h hh
    obtain ⟨g, hg, heq, -⟩ := hgs.exists_mem hh
    obtain ⟨content, hread, hfile⟩ := hout g hg
    refine ⟨content, heq ▸ hread, ?_⟩
    have hkey : ∀ g ∈ gs, ∀ f ∈ out g, f.highlight.path = g.1 := fun g hg f hf =>
      hgs.path_eq hg _ (hmap g hg ▸ List.mem_map_of_mem hf)
    rw [← heq, ← hgs.group g hg, filter_flatMap_of_mem hgs.ascending hkey hg, hfile]

/-- If all highlights are sound there is an answer, and it is the right one. -/
theorem exists_extracts (hsize : t.IsSized) (dir : String) (hs : List Highlight)
    (hsound : ∀ h ∈ hs, Sound t dir h) :
    ∃ fs, ofDirectory t dir hs = .ok fs ∧ Extracts t dir hs fs := by
  have hgs := groups_groupByPath hs
  rw [ofDirectory_eq]
  generalize groupByPath hs = gs at hgs
  let out (g : String × List Highlight) : List Finding := (ofPath t dir g.1 g.2).toOption.getD []
  have hout : ∀ g ∈ gs, ofPath t dir g.1 g.2 = .ok (out g) ∧
      ∃ content, t.read (Tree.joinPath dir g.1) = .ok content ∧
        ofFile (Utf8.decodeLossy content) g.2 = .ok (out g) := fun g hg => by
    rcases ofPath_sound_or_fault hsize dir (hgs.ne_nil hg) (hgs.path_eq hg) with
      ⟨-, content, fs, hread, hfile, hfs⟩ | ⟨⟨h, hh, hnot⟩, -⟩
    · have heq : out g = fs := by simp only [out, hfs]; rfl
      rw [heq]
      exact ⟨hfs, content, hread, hfile⟩
    · exact absurd (hsound h (hgs.mem_of_mem hg hh)) hnot
  refine ⟨gs.flatMap out, ?_, hgs.extracts fun g hg => (hout g hg).2⟩
  rw [mapM_eq_ok fun g hg => (hout g hg).1, List.flatMap_def]
  rfl

/-- What is reported is wrong with the smallest path with which anything is. -/
theorem exists_fault (hsize : t.IsSized) (dir : String) (hs : List Highlight)
    (hnot : ∃ h ∈ hs, ¬Sound t dir h) :
    ∃ h ∈ hs, ∃ e, ofDirectory t dir hs = .error e ∧
      Fault t dir h.path (hs.filter (·.path = h.path)) e ∧
      ∀ h' ∈ hs, Utf8.bytes h'.path < Utf8.bytes h.path → Sound t dir h' := by
  have hgs := groups_groupByPath hs
  rw [ofDirectory_eq]
  generalize groupByPath hs = gs at hgs
  have hcase := fun g (hg : g ∈ gs) =>
    ofPath_sound_or_fault hsize dir (hgs.ne_nil hg) (hgs.path_eq hg)
  have hok : ∀ g ∈ gs, (∃ fs, ofPath t dir g.1 g.2 = .ok fs) → ∀ h ∈ g.2, Sound t dir h := by
    rintro g hg ⟨fs, hfs⟩
    rcases hcase g hg with ⟨hsound, -⟩ | ⟨-, e, -, he⟩
    · exact hsound
    · cases hfs.symm.trans he
  cases hparts : gs.mapM fun g => ofPath t dir g.1 g.2 with
  | ok parts =>
    obtain ⟨h, hh, hnot⟩ := hnot
    obtain ⟨g, hg, -, hmem⟩ := hgs.exists_mem hh
    have hfs := List.mem_map_of_mem (f := fun g => ofPath t dir g.1 g.2) hg
    rw [map_eq_of_mapM hparts] at hfs
    obtain ⟨fs, -, hfs⟩ := List.mem_map.mp hfs
    exact absurd (hok g hg ⟨fs, hfs.symm⟩ h hmem) hnot
  | error e =>
    obtain ⟨before, g, after, rfl, hbefore, hg⟩ := exists_first_of_mapM hparts
    have hmem : g ∈ before ++ g :: after := by simp
    obtain ⟨h, hh, heq⟩ := (hgs.covered g.1).mp ⟨g, hmem, rfl⟩
    rcases hcase g hmem with ⟨-, content, fs, -, -, hfs⟩ | ⟨-, e', hfault, he⟩
    · cases hfs.symm.trans hg
    cases he.symm.trans hg
    rw [hgs.group g hmem, ← heq] at hfault
    refine ⟨h, hh, e, rfl, hfault, fun h' hh' hlt => ?_⟩
    -- The group of a smaller path comes before.
    obtain ⟨g', hg', heq', hmem'⟩ := hgs.exists_mem hh'
    rw [Utf8.bytes_lt_iff, heq, ← heq'] at hlt
    refine hok g' hg' (hbefore g' ?_) h' hmem'
    rcases List.mem_append.mp hg' with hg' | hg'
    · exact hg'
    exfalso
    rcases List.mem_cons.mp hg' with rfl | hg'
    · exact String.lt_irrefl _ hlt
    · have hasc := List.pairwise_cons.mp (List.pairwise_append.mp hgs.ascending).2.1
      exact String.lt_asymm hlt (hasc.1 g' hg')

/-- **The code around highlights is cut out file by file, sorted by path**, if that
can be done for all of them.  Otherwise it is reported what is wrong with the
smallest path with which anything is. -/
theorem ofDirectory_sorts (t : Tree) (hsize : t.IsSized) (dir : String) (hs : List Highlight) :
    ((∀ h ∈ hs, Sound t dir h) ∧ ∃ fs, ofDirectory t dir hs = .ok fs ∧ Extracts t dir hs fs) ∨
    (∃ h ∈ hs, ¬Sound t dir h) ∧
      ∃ h ∈ hs, ∃ e, ofDirectory t dir hs = .error e ∧
        Fault t dir h.path (hs.filter (·.path = h.path)) e ∧
        ∀ h' ∈ hs, Utf8.bytes h'.path < Utf8.bytes h.path → Sound t dir h' := by
  by_cases hnot : ∃ h ∈ hs, ¬Sound t dir h
  · exact .inr ⟨hnot, exists_fault hsize dir hs hnot⟩
  · have hsound : ∀ h ∈ hs, Sound t dir h := fun h hh =>
      Classical.not_not.mp fun h' => hnot ⟨h, hh, h'⟩
    exact .inl ⟨hsound, exists_extracts hsize dir hs hsound⟩

/-- Highlights of two files take turns, and one of the files is named in two ways. -/
theorem ofDirectory_sorts_turns :
    let t : Tree := ⟨[(["w", "b"], [120, 10]), (["w", "a"], [255, 10, 121])], []⟩
    let hs : List Highlight :=
      [⟨"b", 1, 1, "1"⟩, ⟨"a", 2, 2, "2"⟩, ⟨"./a", 1, 2, "3"⟩, ⟨"b", 1, 1, "4"⟩]
    t.IsSized ∧ ∃ fs, ofDirectory t "w" hs = .ok fs ∧ Extracts t "w" hs fs := by
  intro t hs
  have hsize : t.IsSized := by
    unfold Tree.IsSized
    decide
  refine ⟨hsize, ?_⟩
  rcases ofDirectory_sorts t hsize "w" hs with ⟨-, h⟩ | ⟨-, _, _, _, herror, -⟩
  · exact h
  · have hok : (ofDirectory t "w" hs).toOption.isSome = true := by decide
    rw [herror] at hok
    contradiction

end Excerpt

end LintPatrol
