import Mathlib.Data.List.Forall2
import LintPatrol.Highlight.Excerpt
import LintPatrol.Proofs.Text.Split

/-!
# LintPatrol.Proofs.Highlight.Excerpt

The code around a highlight is the lines of the file, each without the white
space that all of them begin with.  That white space, `IsIndent`, is a text;
the program has a number of bytes, the least of what neighbours share.  The two
agree because what neighbours share are first parts of the same lines, and of
two such parts one is a first part of the other (`narrow_eq`).  A number of
bytes that a first part takes is a place where a line can be cut
(`dropBytes?_append`), and so nothing crashes.

## Main statements

* `exists_isIndent`: the bytes counted are those of the common white space.
* `exists_snippet`: a highlight within the lines has an excerpt, and what it is.
* `ofFile_shows`: one excerpt for each highlight, or the first highlight that
  does not lie within the file.
-/

namespace LintPatrol

open Text

/-! ## Places in a text -/

namespace Text

/-- A first part takes no more bytes than the whole. -/
theorem Utf8.size_le_of_prefix {p l : List Char} (h : p <+: l) : Utf8.size p ≤ Utf8.size l := by
  obtain ⟨r, rfl⟩ := h
  rw [Utf8.size_append]
  exact Nat.le_add_right ..

/-- Every character takes a byte at least. -/
theorem Utf8.length_le_size (cs : List Char) : cs.length ≤ Utf8.size cs := by
  induction cs with
  | nil => exact Nat.le_refl 0
  | cons c cs ih =>
    have := c.utf8Size_pos
    rw [List.length_cons, Utf8.size_cons]
    omega

/-! ## Lines of a text -/

theorem not_mem_dropReturn {l : List Char} {c : Char} (h : c ∉ l) : c ∉ dropReturn l := by
  unfold dropReturn
  split
  · exact fun hmem => h (List.dropLast_subset l hmem)
  · exact h

theorem not_mem_linesFrom {line cs : List Char} (h : '\n' ∉ line) :
    ∀ l ∈ linesFrom line cs, '\n' ∉ l := by
  induction cs generalizing line with
  | nil =>
    intro l hl
    rw [linesFrom] at hl
    split at hl
    · cases hl
    · obtain rfl := List.mem_singleton.mp hl
      rwa [List.mem_reverse]
  | cons c cs ih =>
    rw [linesFrom]
    split
    case isTrue =>
      exact List.forall_mem_cons.mpr
        ⟨not_mem_dropReturn (by rwa [List.mem_reverse]), ih List.not_mem_nil⟩
    case isFalse hc =>
      exact ih (by simpa [Ne.symm hc] using h)

/-- No line has a line feed in it. -/
theorem not_mem_lines {cs l : List Char} (h : l ∈ lines cs) : '\n' ∉ l :=
  not_mem_linesFrom List.not_mem_nil l h

/-- There are no more lines than characters. -/
theorem length_linesFrom_le (line cs : List Char) :
    (linesFrom line cs).length ≤ line.length + cs.length := by
  induction cs generalizing line with
  | nil =>
    cases line with
    | nil => exact Nat.le_refl 0
    | cons c line => simp [linesFrom]
  | cons c cs ih =>
    rw [linesFrom]
    split
    · have := ih []
      simp only [List.length_cons, List.length_nil] at *
      omega
    · have := ih (c :: line)
      simp only [List.length_cons] at *
      omega

/-- A text has no more lines than bytes. -/
theorem length_lines_le (cs : List Char) : (lines cs).length ≤ Utf8.size cs := by
  have h := length_linesFrom_le [] cs
  rw [List.length_nil, Nat.zero_add] at h
  exact Nat.le_trans h (Utf8.length_le_size cs)

end Text

namespace Excerpt

/-! ## Common white space -/

/-- Is that the longest white space that all lines begin with? -/
structure IsIndent (p : List Char) (ls : List (List Char)) : Prop where
  blank : ∀ c ∈ p, isBlank c = true
  common : ∀ l ∈ ls, p <+: l
  longest : ∀ q : List Char, (∀ c ∈ q, isBlank c = true) → (∀ l ∈ ls, q <+: l) → q <+: p

variable {p l m : List Char} {ls : List (List Char)}

/-- The indentation of a single line is the white space it begins with. -/
theorem isIndent_takeWhile (l : List Char) : IsIndent (l.takeWhile isBlank) [l] where
  blank := List.all_eq_true.mp List.all_takeWhile
  common := by simpa using List.takeWhile_prefix isBlank
  longest q hblank hq := by
    obtain ⟨r, rfl⟩ := hq l List.mem_cons_self
    rw [List.takeWhile_append_of_pos hblank]
    exact List.prefix_append ..

/-- Two lines have the indentation that is computed for them. -/
theorem isIndent_sharedIndent (l m : List Char) : IsIndent (sharedIndent l m) [l, m] := by
  fun_induction sharedIndent l m with
  | case1 a l b m h ih =>
    obtain ⟨rfl, ha⟩ := h
    refine ⟨List.forall_mem_cons.mpr ⟨ha, ih.blank⟩, ?_, ?_⟩
    · have hl := ih.common l (by simp)
      have hm := ih.common m (by simp)
      simpa [List.cons_prefix_cons] using ⟨hl, hm⟩
    · rintro (_ | ⟨b, q⟩) hblank hq
      · exact List.nil_prefix
      · have hbl := List.cons_prefix_cons.mp (hq (a :: l) (by simp))
        have hbm := List.cons_prefix_cons.mp (hq (a :: m) (by simp))
        refine List.cons_prefix_cons.mpr ⟨hbl.1, ih.longest q ?_ ?_⟩
        · exact fun c hc => hblank c (List.mem_cons_of_mem _ hc)
        · simpa using ⟨hbl.2, hbm.2⟩
  | case2 a l b m h =>
    refine ⟨nofun, fun _ _ => List.nil_prefix, ?_⟩
    rintro (_ | ⟨c, q⟩) hblank hq
    · exact List.nil_prefix
    · obtain ⟨rfl, -⟩ := List.cons_prefix_cons.mp (hq (a :: l) (by simp))
      obtain ⟨rfl, -⟩ := List.cons_prefix_cons.mp (hq (b :: m) (by simp))
      exact absurd ⟨rfl, hblank c List.mem_cons_self⟩ h
  | case3 l m h =>
    refine ⟨nofun, fun _ _ => List.nil_prefix, fun q _ hq => ?_⟩
    -- one of the two lines is empty
    have hl := hq l (by simp)
    have hm := hq m (by simp)
    cases l with
    | nil => exact hl
    | cons a l =>
      cases m with
      | nil => exact hm
      | cons b m => exact absurd rfl (h a l b m rfl)

/-! ## Its bytes -/

/-- The width of an indentation is counted in bytes. -/
theorem leadingWidth_eq (l : List Char) : leadingWidth l = Utf8.size (l.takeWhile isBlank) := by
  have h : Utf8.size (l.takeWhile isBlank) + Utf8.size (trimStart l) = Utf8.size l := by
    rw [trimStart, ← Utf8.size_append, List.takeWhile_append_dropWhile]
  rw [leadingWidth]
  omega

/-- The least of a first part and of what neighbours share are the bytes of what
that part and all lines begin with. -/
theorem narrow_eq (hblank : ∀ c ∈ p, isBlank c = true) (hp : p <+: l) :
    ∃ q, narrow (Utf8.size p) (l :: ls) = Utf8.size q ∧ IsIndent q (p :: l :: ls) := by
  induction ls generalizing p l with
  | nil =>
    exact ⟨p, rfl, hblank, by simpa using hp, fun q _ hq => hq p List.mem_cons_self⟩
  | cons m ls ih =>
    have hshared := isIndent_sharedIndent l m
    have hsl : sharedIndent l m <+: l := hshared.common l (by simp)
    have hsm : sharedIndent l m <+: m := hshared.common m (by simp)
    rw [narrow]
    rcases List.prefix_or_prefix_of_prefix hp hsl with hps | hsp
    · obtain ⟨q, hq, hindent⟩ := ih hblank (hps.trans hsm)
      rw [Nat.min_eq_left (Utf8.size_le_of_prefix hps)]
      have hqp : q <+: p := hindent.common p List.mem_cons_self
      refine ⟨q, hq, hindent.blank, ?_, fun r hr hcommon => hindent.longest r hr ?_⟩
      · rw [List.forall_mem_cons, List.forall_mem_cons]
        exact ⟨hqp, hqp.trans hp, fun n hn => hindent.common n (List.mem_cons_of_mem _ hn)⟩
      · rw [List.forall_mem_cons, List.forall_mem_cons] at hcommon
        exact List.forall_mem_cons.mpr ⟨hcommon.1, hcommon.2.2⟩
    · obtain ⟨q, hq, hindent⟩ := ih hshared.blank hsm
      rw [Nat.min_eq_right (Utf8.size_le_of_prefix hsp)]
      have hqs : q <+: sharedIndent l m := hindent.common _ List.mem_cons_self
      refine ⟨q, hq, hindent.blank, ?_, fun r hr hcommon => hindent.longest r hr ?_⟩
      · rw [List.forall_mem_cons, List.forall_mem_cons]
        exact ⟨hqs.trans hsp, hqs.trans hsl,
          fun n hn => hindent.common n (List.mem_cons_of_mem _ hn)⟩
      · rw [List.forall_mem_cons, List.forall_mem_cons] at hcommon
        refine List.forall_mem_cons.mpr ⟨hshared.longest r hr ?_, hcommon.2.2⟩
        have hrm := hcommon.2.2 m List.mem_cons_self
        simpa using ⟨hcommon.2.1, hrm⟩

/-- **The bytes counted are those of the common white space.** -/
theorem exists_isIndent (hne : ls ≠ []) : ∃ p, indentWidth ls = Utf8.size p ∧ IsIndent p ls := by
  cases ls with
  | nil => contradiction
  | cons l ls =>
    have hlead := isIndent_takeWhile l
    have hprefix : l.takeWhile isBlank <+: l := List.takeWhile_prefix isBlank
    obtain ⟨q, hq, hindent⟩ := @narrow_eq _ l ls hlead.blank hprefix
    rw [indentWidth, leadingWidth_eq]
    refine ⟨q, hq, hindent.blank, (List.forall_mem_cons.mp hindent.common).2, ?_⟩
    intro r hr hcommon
    refine hindent.longest r hr (List.forall_mem_cons.mpr ⟨hlead.longest r hr ?_, hcommon⟩)
    simpa using hcommon l List.mem_cons_self

/-! ## Without it -/

/-- Is the code the lines without the white space `p` that all of them begin
with? -/
structure Dedented (ls : List (List Char)) (p code : List Char) : Prop where
  indent : IsIndent p ls
  joined : code = join ['\n'] (ls.map (·.drop p.length))
  restored : (splitAt '\n' code).map (p ++ ·) = ls

/-- An indentation that all lines begin with can be cut off all of them. -/
theorem mapM_dropBytes? (h : ∀ l ∈ ls, p <+: l) :
    ls.mapM (Utf8.dropBytes? (Utf8.size p)) = some (ls.map (·.drop p.length)) := by
  induction ls with
  | nil => rfl
  | cons l ls ih =>
    obtain ⟨⟨r, rfl⟩, hls⟩ := List.forall_mem_cons.mp h
    rw [List.mapM_cons, Utf8.dropBytes?_append, ih hls, List.map_cons, List.drop_left]
    rfl

/-- Lines can be cut behind the white space that they have in common. -/
theorem exists_dedent (hne : ls ≠ []) (hfeed : ∀ l ∈ ls, '\n' ∉ l) :
    ∃ p code, dedent? ls = some code ∧ Dedented ls p code := by
  obtain ⟨p, hwidth, hindent⟩ := exists_isIndent hne
  have hrest : ∀ r ∈ ls.map (·.drop p.length), '\n' ∉ r := by
    intro r hr hmem
    obtain ⟨l, hl, rfl⟩ := List.mem_map.mp hr
    exact hfeed l hl (List.mem_of_mem_drop hmem)
  refine ⟨p, _, by rw [dedent?, hwidth, mapM_dropBytes? hindent.common]; rfl, hindent, rfl, ?_⟩
  rw [splitAt_join (by simpa using hne) hrest, List.map_map]
  refine (List.map_congr_left fun l hl => ?_).trans ls.map_id
  obtain ⟨r, rfl⟩ := hindent.common l hl
  simp

/-! ## Excerpts -/

/-- Does the highlight lie within a file of that many lines? -/
def LiesIn (count : Nat) (h : Highlight) : Prop :=
  1 ≤ h.startLine.toNat ∧ h.startLine.toNat ≤ h.endLine.toNat ∧ h.endLine.toNat ≤ count

/-- Is that the excerpt of the lines of a file around a highlight? -/
structure Shows (ls : List (List Char)) (h : Highlight) (s : Snippet) : Prop where
  first : s.startLine.toNat = max 1 (h.startLine.toNat - 2)
  last : s.endLine.toNat = min ls.length (h.endLine.toNat + 2)
  code : ∃ p, Dedented ((ls.take s.endLine.toNat).drop (s.startLine.toNat - 1)) p s.code.toList

/-- What is checked is that the highlight lies within the file. -/
theorem inRange_iff {count : Nat} {h : Highlight} : inRange count h = true ↔ LiesIn count h := by
  simp only [inRange, LiesIn, decide_eq_true_eq, UInt64.le_iff_toNat_le]

/-- **A highlight within the lines has an excerpt.** -/
theorem exists_snippet {h : Highlight} (hin : LiesIn ls.length h) (hsize : ls.length ≤ Utf8.maxSize)
    (hfeed : ∀ l ∈ ls, '\n' ∉ l) : ∃ s, snippet? ls h = some s ∧ Shows ls h s := by
  obtain ⟨hone, hle, hcount⟩ := hin
  have hword : UInt64.size = 2 * Utf8.maxSize + 2 := rfl
  have hmax : Utf8.maxSize = 9223372036854775807 := rfl
  have hlast : lastLine? ls.length h = some (min (h.endLine.toNat + margin) ls.length) := by
    refine if_pos ?_
    rw [margin]
    omega
  generalize hb : min (h.endLine.toNat + margin) ls.length = b at hlast
  generalize ha : firstLine h = a
  have hbounds : 1 ≤ a ∧ a ≤ b ∧ b ≤ ls.length := by
    simp only [firstLine, margin] at ha hb
    omega
  have hslice : slice? (a - 1) b ls = some ((ls.take b).drop (a - 1)) := if_pos (by omega)
  have hne : (ls.take b).drop (a - 1) ≠ [] := by
    refine List.ne_nil_of_length_pos ?_
    rw [List.length_drop, List.length_take]
    omega
  obtain ⟨p, code, hcode, hdedented⟩ := exists_dedent hne fun l hl =>
    hfeed l (List.mem_of_mem_take (List.mem_of_mem_drop hl))
  have hfirst : (UInt64.ofNat a).toNat = a := UInt64.toNat_ofNat_of_lt' (by omega)
  have hend : (UInt64.ofNat b).toNat = b := UInt64.toNat_ofNat_of_lt' (by omega)
  refine ⟨⟨UInt64.ofNat a, UInt64.ofNat b, String.ofList code⟩, ?_, ?_, ?_, p, ?_⟩
  · simp only [snippet?, hlast, ha, hslice, hcode, Option.bind_eq_bind, Option.bind_some]
    rfl
  · rw [hfirst, ← ha, firstLine, margin]
  · rw [hend, ← hb, Nat.min_comm, margin]
  · rwa [hfirst, hend, String.toList_ofList]

/-- **Every highlight gets the code around it, in order**, if all of them lie
within the file; otherwise the first that does not is reported.  Nothing
crashes, since no text takes more than `maxSize` bytes. -/
theorem ofFile_shows (content : List Char) (hs : List Highlight)
    (hsize : Utf8.size content ≤ Utf8.maxSize) :
    ((∀ h ∈ hs, LiesIn (lines content).length h) ∧
      ∃ fs, ofFile content hs = .ok fs ∧
        List.Forall₂ (fun h f => f.highlight = h ∧ Shows (lines content) h f.snippet) hs fs) ∨
    ∃ before h after, hs = before ++ h :: after ∧
      (∀ b ∈ before, LiesIn (lines content).length b) ∧ ¬LiesIn (lines content).length h ∧
      ofFile content hs =
        .error (.invalidRange h.path h.startLine h.endLine (lines content).length) := by
  have hcount : (lines content).length ≤ Utf8.maxSize :=
    Nat.le_trans (length_lines_le content) hsize
  have hfeed : ∀ l ∈ lines content, '\n' ∉ l := fun l hl => not_mem_lines hl
  unfold ofFile
  generalize lines content = ls at hcount hfeed
  induction hs with
  | nil => exact .inl ⟨nofun, [], rfl, .nil⟩
  | cons h hs ih =>
    by_cases hin : LiesIn ls.length h
    · obtain ⟨s, hs', hshows⟩ := exists_snippet hin hcount hfeed
      have hcut : cut ls h = .ok ⟨h, s⟩ := by rw [cut, if_pos (inRange_iff.mpr hin), hs']
      rw [List.mapM_cons, hcut]
      rcases ih with ⟨hall, fs, hfs, hforall⟩ | ⟨before, b, after, rfl, hbefore, hb, herror⟩
      · refine .inl ⟨List.forall_mem_cons.mpr ⟨hin, hall⟩, ⟨h, s⟩ :: fs, ?_, ?_⟩
        · rw [hfs]
          rfl
        · exact .cons ⟨rfl, hshows⟩ hforall
      · refine .inr ⟨h :: before, b, after, rfl, List.forall_mem_cons.mpr ⟨hin, hbefore⟩, hb, ?_⟩
        rw [herror]
        rfl
    · refine .inr ⟨[], h, hs, rfl, nofun, hin, ?_⟩
      rw [List.mapM_cons, cut, if_neg (mt inRange_iff.mp hin)]
      rfl

/-- Ideographic space takes three bytes, which are cut off together. -/
theorem ofFile_shows_ideographic :
    Utf8.size "\u3000x\n\u3000 y".toList ≤ Utf8.maxSize ∧
      ∃ fs, ofFile "\u3000x\n\u3000 y".toList [⟨"a.go", 1, 2, ""⟩] = .ok fs ∧
        List.Forall₂ (fun h f => f.highlight = h ∧
          Shows ["\u3000x".toList, "\u3000 y".toList] h f.snippet) [⟨"a.go", 1, 2, ""⟩] fs := by
  have hsize : Utf8.size "\u3000x\n\u3000 y".toList ≤ Utf8.maxSize := by decide
  refine ⟨hsize, ?_⟩
  rcases ofFile_shows _ [⟨"a.go", 1, 2, ""⟩] hsize with ⟨-, h⟩ | ⟨_, _, _, _, _, _, herror⟩
  · exact h
  · cases herror

/-- Tabs are no spaces: what differs stays. -/
example : ofFile "\t\tfoo()\n\t  bar()".toList [⟨"a.go", 1, 2, ""⟩] =
    .ok [⟨⟨"a.go", 1, 2, ""⟩, ⟨1, 2, "\tfoo()\n  bar()"⟩⟩] := by rfl

end Excerpt

end LintPatrol
