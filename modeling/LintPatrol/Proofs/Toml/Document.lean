import Mathlib.Logic.Relation
import LintPatrol.Proofs.Toml.Number
import LintPatrol.Proofs.Toml.Quoting
import LintPatrol.Toml.Reader

/-!
# LintPatrol.Proofs.Toml.Document

Sections that are written are read back as tables of what they hold.  One line
leads from a draft to the next one: a header to a new table, an entry to one more
entry of the latest table, a blank line to the same draft.  A document is the
lines one after another.

## Main statements

* `spells_scalar`: the text of a scalar is read as the scalar.
* `readLine_header`, `readLine_entry`, `readLine_blank`: what each line leads to.
* `leads_entries`, `leads_sections`: what entries and sections lead to.
* `read_writeSections`: sections are read back.
-/

namespace LintPatrol.Toml

open Number

/-! ## Scalars -/

/-- The text is read as the value, up to the end of the line. -/
structure Spells (text : List Char) (v : Toml) : Prop where
  skipBlanks_eq : ∀ rest, skipBlanks (text ++ '\n' :: rest) = text ++ '\n' :: rest
  readValue_eq : ∀ fuel rest,
    readValue (fuel + 1) (text ++ '\n' :: rest) = some (v, '\n' :: rest)

theorem skipBlanks_cons {c : Char} (hblank : c ≠ ' ') (htab : c ≠ '\t') (cs : List Char) :
    skipBlanks (c :: cs) = c :: cs := by
  rw [skipBlanks, List.dropWhile_cons_of_neg]
  simp [hblank, htab]

/-- A string is spelt as it is written. -/
theorem spells_string (s : String) : Spells (writeString s).toList (.string s) := by
  have hread : ∀ rest, readString ((writeString s).toList ++ '\n' :: rest) =
      some (s.toList, '\n' :: rest) := fun rest => by
    rw [writeString, String.toList_ofList]
    exact readString_writeIn s.toList (by simp) (by simp)
  have hquote : ∃ quote cs, (quote = '"' ∨ quote = '\'') ∧
      (writeString s).toList = quote :: cs := by
    rw [writeString, String.toList_ofList]
    exact exists_writeIn_eq s.toList
  obtain ⟨quote, cs, hquote, heq⟩ := hquote
  constructor
  · intro rest
    rw [heq]
    rcases hquote with rfl | rfl
    · exact skipBlanks_cons (by decide) (by decide) _
    · exact skipBlanks_cons (by decide) (by decide) _
  · intro fuel rest
    have hread := hread rest
    rw [heq] at hread ⊢
    rcases hquote with rfl | rfl
    · simp only [List.cons_append] at hread ⊢
      rw [readValue, hread]
      simp
    · simp only [List.cons_append] at hread ⊢
      rw [readValue, hread]
      simp

/-- So is a word. -/
theorem spells_word {w : List Char} {v : Toml} (hchars : ∀ c ∈ w, isWordChar c = true)
    (hne : w ≠ []) (h : word? w = some v) : Spells w v := by
  obtain ⟨c, cs, rfl⟩ := List.exists_cons_of_ne_nil hne
  have hother : ∀ d, isWordChar d = false → c ≠ d := fun d hd heq => by
    rw [← heq, hchars c List.mem_cons_self] at hd
    cases hd
  constructor
  · intro rest
    exact skipBlanks_cons (hother ' ' rfl) (hother '\t' rfl) _
  · intro fuel rest
    have hspan := spanWord_append hchars rest
    have hdouble := hother '"' rfl
    have hsingle := hother '\'' rfl
    have hbracket := hother '[' rfl
    have hbrace := hother '\x7b' rfl
    simp only [List.cons_append] at hspan ⊢
    rw [readValue.eq_def]
    simp only
    split
    · next heq => exact absurd (List.cons.inj heq).1 hdouble
    · next heq => exact absurd (List.cons.inj heq).1 hsingle
    · next heq => exact absurd (List.cons.inj heq).1 hbracket
    · next heq => exact absurd (List.cons.inj heq).1 hbrace
    · rw [hspan, h]
      rfl

/-- The integer, if it is one, has at most 128 bits. -/
def Fits : Json → Prop
  | .int n => -(twoTo 127 : Int) ≤ n ∧ n < twoTo 128
  | _ => True

/-- What the text of a value is read as. -/
def scalar? : Json → Option Toml
  | .str s => some (.string s)
  | .int n => some (.integer n)
  | .float x => some (.float x.quiet)
  | .bool b => some (.boolean b)
  | _ => none

/-- **A value is read as what it is**, if it is written at all. -/
theorem spells_scalar {v : Json} (h : Fits v) :
    (writeScalar v = none ∧ scalar? v = none) ∨
      ∃ text w, writeScalar v = some text ∧ scalar? v = some w ∧ Spells text.toList w := by
  cases v with
  | str s => exact .inr ⟨_, _, rfl, rfl, spells_string s⟩
  | int n =>
    have hword := word?_toString h.1 h.2
    refine .inr ⟨_, _, rfl, rfl, spells_word (isWordChar_toString n) ?_ hword⟩
    intro hnil
    rw [hnil] at hword
    cases hword
  | float x =>
    have hword := word?_pointed x
    refine .inr ⟨_, _, rfl, rfl, spells_word (isWordChar_pointed x) ?_ hword⟩
    intro hnil
    rw [hnil] at hword
    cases hword
  | bool b =>
    refine .inr ⟨_, _, rfl, rfl, ?_⟩
    cases b with
    | true => exact spells_word (List.all_eq_true.mp rfl) (by decide) rfl
    | false => exact spells_word (List.all_eq_true.mp rfl) (by decide) rfl
  | null => exact .inl ⟨rfl, rfl⟩
  | arr items => exact .inl ⟨rfl, rfl⟩
  | obj members => exact .inl ⟨rfl, rfl⟩

/-! ## Keys -/

/-- A key that needs no quotes. -/
def IsBare (key : String) : Prop := key.toList ≠ [] ∧ ∀ c ∈ key.toList, isBareChar c = true

theorem isBare_iff {key : String} :
    (!key.toList.isEmpty && key.toList.all isBareChar) = true ↔ IsBare key := by
  simp [IsBare]

instance (key : String) : Decidable (IsBare key) := decidable_of_iff _ isBare_iff

theorem IsBare.exists_cons {key : String} (h : IsBare key) :
    ∃ c cs, key.toList = c :: cs ∧ ∀ d, isBareChar d = false → c ≠ d := by
  obtain ⟨c, cs, heq⟩ := List.exists_cons_of_ne_nil h.1
  refine ⟨c, cs, heq, fun d hd hc => ?_⟩
  rw [← hc, h.2 c (by simp [heq])] at hd
  cases hd

variable {key : String} {rest : List Char}

/-- A bare key is read up to what does not belong to it. -/
theorem readPart_append (hkey : IsBare key) {c : Char} (hc : isBareChar c = false) :
    readPart (key.toList ++ c :: rest) = some (key, c :: rest) := by
  have htake : (key.toList ++ c :: rest).takeWhile isBareChar = key.toList := by
    rw [List.takeWhile_append_of_pos hkey.2, List.takeWhile_cons_of_neg (by simp [hc]),
      List.append_nil]
  obtain ⟨a, as, heq, hne⟩ := hkey.exists_cons
  have hdouble := hne '"' rfl
  have hsingle := hne '\'' rfl
  have hempty : key.toList.isEmpty = false := by simp [heq]
  unfold readPart
  split
  · next hcs => exact absurd (List.cons.inj (by rw [← hcs, heq]; rfl)).1 hdouble
  · next hcs => exact absurd (List.cons.inj (by rw [← hcs, heq]; rfl)).1 hsingle
  · simp only [htake, hempty, List.drop_left, String.ofList_toList]
    rfl

/-- A key is read up to what follows it. -/
theorem readKey_append (hkey : IsBare key) {c : Char} (hc : isBareChar c = false)
    (hpoint : (skipBlanks (c :: rest)).head? ≠ some '.') (fuel : Nat) :
    readKey (fuel + 1) (key.toList ++ c :: rest) = some ([key], skipBlanks (c :: rest)) := by
  have hskip : skipBlanks (key.toList ++ c :: rest) = key.toList ++ c :: rest := by
    obtain ⟨a, as, heq, hne⟩ := hkey.exists_cons
    rw [heq]
    exact skipBlanks_cons (hne ' ' rfl) (hne '\t' rfl) _
  rw [readKey, hskip, readPart_append hkey hc]
  simp only
  split
  · next heq => exact absurd (by rw [heq]; rfl) hpoint
  · rfl

/-! ## Lines -/

theorem endLine_newline (rest : List Char) : endLine ('\n' :: rest) = some rest := rfl

theorem readLine_blank (d : Draft) (rest : List Char) :
    readLine d ('\n' :: rest) = some (d, rest) := rfl

/-- A header makes a table. -/
theorem readLine_header (hkey : IsBare key) (d : Draft) (rest : List Char) :
    readLine d ('[' :: (key.toList ++ ']' :: '\n' :: rest)) =
      (openTable [key] d.entries).map fun es => (⟨[key], es⟩, rest) := by
  obtain ⟨a, as, hcons, hne⟩ := hkey.exists_cons
  have hread : ∀ fuel, readKey (fuel + 1) (key.toList ++ ']' :: '\n' :: rest) =
      some ([key], ']' :: '\n' :: rest) := fun fuel => by
    have hskip : skipBlanks (']' :: '\n' :: rest) = ']' :: '\n' :: rest :=
      skipBlanks_cons (by decide) (by decide) _
    rw [readKey_append hkey rfl (by simp [hskip]), hskip]
  unfold readLine
  rw [skipBlanks_cons (by decide) (by decide)]
  split
  · next heq =>
    rw [hcons] at heq
    exact absurd (List.cons.inj (List.cons.inj heq).2).1 (hne '[' rfl)
  · next heq =>
    obtain ⟨-, rfl⟩ := List.cons.inj heq
    simp only [hread, endLine_newline]
    cases openTable [key] d.entries <;> rfl
  · next hnot => exact absurd rfl (hnot _)

/-- No comment and no line end begins with a key. -/
theorem endLine_eq_none {c : Char} {cs : List Char} (h : ∀ d, isBareChar d = false → c ≠ d) :
    endLine (c :: cs) = none := by
  have hskip : skipBlanks (c :: cs) = c :: cs := skipBlanks_cons (h ' ' rfl) (h '\t' rfl) cs
  have hcomment := h '#' rfl
  have hline := h '\n' rfl
  have hreturn := h '\r' rfl
  have hnewline : newline? (c :: cs) = none := by
    unfold newline?
    split
    · next heq => exact absurd (List.cons.inj heq).1 hline
    · next heq => exact absurd (List.cons.inj heq).1 hreturn
    · rfl
  have hsame : skipComment (c :: cs) = some (c :: cs) := by
    unfold skipComment
    split
    · next heq => exact absurd (List.cons.inj heq).1 hcomment
    · rfl
  simp only [endLine, hskip, hsame, hnewline]

/-- An entry adds a value to the latest table. -/
theorem readLine_entry (hkey : IsBare key) {text : List Char} {v : Toml} (h : Spells text v)
    (d : Draft) (rest : List Char) :
    readLine d (key.toList ++ ' ' :: '=' :: ' ' :: (text ++ '\n' :: rest)) =
      (assignUnder d.path [key] v d.entries).map fun es => (⟨d.path, es⟩, rest) := by
  have hvalue : skipBlanks (' ' :: (text ++ '\n' :: rest)) = text ++ '\n' :: rest :=
    h.skipBlanks_eq rest
  have hread : ∀ fuel more, readKey (fuel + 1) (key.toList ++ ' ' :: '=' :: more) =
      some ([key], '=' :: more) := fun fuel more => by
    have hskip : skipBlanks (' ' :: '=' :: more) = '=' :: more := rfl
    rw [readKey_append hkey rfl (by simp [hskip]), hskip]
  obtain ⟨a, as, hcons, hne⟩ := hkey.exists_cons
  have hskip : ∀ more, skipBlanks (key.toList ++ more) = key.toList ++ more := fun more => by
    rw [hcons]
    exact skipBlanks_cons (hne ' ' rfl) (hne '\t' rfl) _
  have hend : ∀ more, endLine (key.toList ++ more) = none := fun more => by
    rw [hcons]
    exact endLine_eq_none hne
  have hbracket : ∀ more cs, key.toList ++ more ≠ '[' :: cs := fun more cs heq => by
    rw [hcons] at heq
    exact hne '[' rfl (List.cons.inj heq).1
  unfold readLine
  rw [hskip]
  split
  · next heq => exact absurd heq (hbracket _ _)
  · next heq => exact absurd heq (hbracket _ _)
  · rw [hend]
    simp only [hread, hvalue, h.readValue_eq, Option.bind_eq_bind, Option.bind_some,
      endLine_newline]
    cases assignUnder d.path [key] v d.entries <;> rfl

/-! ## Tables -/

theorem lookup_eq_none_iff {es : Entries} : lookup key es = none ↔ key ∉ es.map (·.1) := by
  have hiff : lookup key es = none ↔ ∀ e ∈ es, ¬e.1 = key := by
    simp [lookup, List.find?_eq_none]
  rw [hiff, List.mem_map]
  exact ⟨fun h ⟨e, he, heq⟩ => h e he heq, fun h e he heq => h ⟨e, he, heq⟩⟩

theorem not_mem_keys_concat {es : Entries} (h : key ∉ es.map (·.1)) {k : String} (hne : key ≠ k)
    (v : Toml) : key ∉ (es ++ [(k, v)]).map (·.1) := by
  rw [List.map_append, List.mem_append, List.map_singleton, List.mem_singleton]
  exact not_or.mpr ⟨h, hne⟩

theorem lookup_concat {es : Entries} (h : key ∉ es.map (·.1)) (v : Toml) :
    lookup key (es ++ [(key, v)]) = some v := by
  have hnone : es.find? (·.1 == key) = none := Option.map_eq_none_iff.mp (lookup_eq_none_iff.mpr h)
  simp [lookup, List.find?_append, hnone]

theorem replace_concat {es : Entries} (h : key ∉ es.map (·.1)) (v w : Toml) :
    replace key w (es ++ [(key, v)]) = es ++ [(key, w)] := by
  induction es with
  | nil => simp [replace]
  | cons e es ih =>
    obtain ⟨k, u⟩ := e
    rw [List.map_cons, List.mem_cons, not_or] at h
    have hne : k ≠ key := Ne.symm h.1
    rw [List.cons_append, replace, if_neg hne, ih h.2, List.cons_append]

/-- A header opens a table, if its name is new. -/
theorem openTable_of_not_mem {es : Entries} (h : key ∉ es.map (·.1)) :
    openTable [key] es = some (es ++ [(key, .table .header [])]) := by
  simp [openTable, descend, lookup_eq_none_iff.mpr h]

/-- A new entry stands last in the table that stands last. -/
theorem assignUnder_concat {name : String} {es sub : Entries} (hname : name ∉ es.map (·.1))
    (hkey : key ∉ sub.map (·.1)) (v : Toml) :
    assignUnder [name] [key] v (es ++ [(name, .table .header sub)]) =
      some (es ++ [(name, .table .header (sub ++ [(key, v)]))]) := by
  simp [assignUnder, descend, lookup_concat hname, assign, addNew, lookup_eq_none_iff.mpr hkey,
    replace_concat hname]

/-! ## Documents -/

/-- One line leads from a draft with a text ahead to another, and the text gets shorter. -/
def Step (s t : Draft × List Char) : Prop :=
  readLine s.1 s.2 = some t ∧ t.2.length < s.2.length

/-- Some lines lead from a draft with a text ahead to another. -/
abbrev Leads : Draft × List Char → Draft × List Char → Prop := Relation.ReflTransGen Step

/-- Where the lines lead to, reading leads to. -/
theorem readLines_of_leads {s : Draft × List Char} {d : Draft} (h : Leads s (d, [])) {fuel : Nat}
    (hfuel : s.2.length < fuel) : readLines fuel s.1 s.2 = some d := by
  induction h using Relation.ReflTransGen.head_induction_on generalizing fuel with
  | refl =>
    obtain ⟨fuel, rfl⟩ := Nat.exists_eq_succ_of_ne_zero (Nat.ne_zero_of_lt hfuel)
    rfl
  | @head s t hstep _ ih =>
    obtain ⟨hline, hless⟩ := hstep
    obtain ⟨fuel, rfl⟩ := Nat.exists_eq_succ_of_ne_zero (Nat.ne_zero_of_lt hfuel)
    have hne : ¬s.2.isEmpty = true := fun hnil => by
      rw [List.isEmpty_iff.mp hnil] at hless
      cases hless
    rw [readLines, if_neg hne, hline]
    exact ih (by omega)

/-- The entries of a section can be written and are told apart by their keys. -/
structure IsSection (entries : List (String × Json)) : Prop where
  bare : ∀ e ∈ entries, IsBare e.1
  fits : ∀ e ∈ entries, Fits e.2
  nodup : (entries.map (·.1)).Nodup

/-- The entries as they are read; what is not set is not there. -/
def scalars (entries : List (String × Json)) : Entries :=
  entries.filterMap fun (k, v) => (scalar? v).map (k, ·)

theorem scalars_cons (k : String) (v : Json) (entries : List (String × Json)) :
    scalars ((k, v) :: entries) = ((scalar? v).map (k, ·)).toList ++ scalars entries := by
  cases h : scalar? v <;> simp [scalars, h]

/-- **Entries** are added to the latest table one after another. -/
theorem leads_entries {name : String} {front sub : Entries} (hname : name ∉ front.map (·.1))
    {entries : List (String × Json)} (h : IsSection entries)
    (hfresh : ∀ e ∈ entries, e.1 ∉ sub.map (·.1)) (rest : List Char) :
    Leads
      (⟨[name], front ++ [(name, .table .header sub)]⟩,
        (String.join (entries.map fun (k, v) => writeEntry k v)).toList ++ rest)
      (⟨[name], front ++ [(name, .table .header (sub ++ scalars entries))]⟩, rest) := by
  -- What has been read so far of the table grows by what each line writes, which is
  -- nothing for a value that is not set.
  induction entries generalizing sub with
  | nil => simpa [scalars] using Relation.ReflTransGen.refl
  | cons e entries ih =>
    obtain ⟨k, v⟩ := e
    obtain ⟨hbare, hbares⟩ := List.forall_mem_cons.mp h.bare
    obtain ⟨hfit, hfits⟩ := List.forall_mem_cons.mp h.fits
    obtain ⟨hnew, hnodup⟩ := List.nodup_cons.mp h.nodup
    obtain ⟨hk, hrest⟩ := List.forall_mem_cons.mp hfresh
    have hsection : IsSection entries := ⟨hbares, hfits, hnodup⟩
    rw [List.map_cons, String.join_cons, scalars_cons]
    rcases spells_scalar hfit with ⟨htext, hscalar⟩ | ⟨text, w, htext, hscalar, hspells⟩
    · simpa [writeEntry, htext, hscalar] using ih hsection hrest
    · have hne : ∀ e ∈ entries, e.1 ≠ k := fun e he heq => hnew (List.mem_map.mpr ⟨e, he, heq⟩)
      have hfresh' : ∀ e ∈ entries, e.1 ∉ (sub ++ [(k, w)]).map (·.1) := fun e he =>
        not_mem_keys_concat (hrest e he) (hne e he) w
      have hline := readLine_entry hbare hspells
        ⟨[name], front ++ [(name, .table .header sub)]⟩
        ((String.join (entries.map fun (k, v) => writeEntry k v)).toList ++ rest)
      rw [assignUnder_concat hname hk] at hline
      have htail := ih hsection hfresh'
      refine .head ⟨?_, ?_⟩ (by simpa [hscalar] using htail)
      · simpa [writeEntry, htext] using hline
      · simp [writeEntry, htext]
        omega

/-- A section is one more table. -/
theorem leads_section {name : String} (hbare : IsBare name) {entries : List (String × Json)}
    (h : IsSection entries) {d : Draft} (hname : name ∉ d.entries.map (·.1)) (rest : List Char) :
    Leads (d, (writeSection name entries).toList ++ rest)
      (⟨[name], d.entries ++ [(name, .table .header (scalars entries))]⟩, rest) := by
  have hline := readLine_header hbare d
    ((String.join (entries.map fun (k, v) => writeEntry k v)).toList ++ rest)
  rw [openTable_of_not_mem hname] at hline
  have hnone : ∀ e ∈ entries, e.1 ∉ ([] : Entries).map (·.1) := fun _ _ => List.not_mem_nil
  have htail := leads_entries hname h hnone rest
  refine .head ⟨?_, ?_⟩ htail
  · simpa [writeSection] using hline
  · simp [writeSection]
    omega

/-- Sections that can be written, told apart by their names. -/
structure IsWritable (ss : List (String × List (String × Json))) : Prop where
  bare : ∀ s ∈ ss, IsBare s.1
  isSection : ∀ s ∈ ss, IsSection s.2
  nodup : (ss.map (·.1)).Nodup

/-- Sections as they are read. -/
def tables (ss : List (String × List (String × Json))) : Entries :=
  ss.map fun (name, entries) => (name, .table .header (scalars entries))

/-- The sections lead to their tables. -/
theorem leads_sections {ss : List (String × List (String × Json))} (h : IsWritable ss) {d : Draft}
    (hfresh : ∀ s ∈ ss, s.1 ∉ d.entries.map (·.1)) :
    ∃ path, Leads (d, (writeSections ss).toList) (⟨path, d.entries ++ tables ss⟩, []) := by
  induction ss generalizing d with
  | nil => exact ⟨d.path, by simpa [writeSections, Text.joined, tables] using .refl⟩
  | cons s ss ih =>
    obtain ⟨name, entries⟩ := s
    obtain ⟨hbare, hbares⟩ := List.forall_mem_cons.mp h.bare
    obtain ⟨hsection, hsections⟩ := List.forall_mem_cons.mp h.isSection
    obtain ⟨hnew, hnodup⟩ := List.nodup_cons.mp h.nodup
    obtain ⟨hname, hnames⟩ := List.forall_mem_cons.mp hfresh
    have htable := leads_section hbare hsection hname
    cases ss with
    | nil => exact ⟨[name], by simpa [writeSections, Text.joined, tables] using htable []⟩
    | cons t ss =>
      have hne : ∀ s ∈ t :: ss, s.1 ≠ name := fun s hs heq =>
        hnew (List.mem_map.mpr ⟨s, hs, heq⟩)
      have hfresh' : ∀ s ∈ t :: ss,
          s.1 ∉ (d.entries ++ [(name, Toml.table .header (scalars entries))]).map (·.1) :=
        fun s hs => not_mem_keys_concat (hnames s hs) (hne s hs) _
      obtain ⟨path, hrest⟩ := ih ⟨hbares, hsections, hnodup⟩
        (d := ⟨[name], d.entries ++ [(name, .table .header (scalars entries))]⟩) hfresh'
      have hblank : Step (⟨[name], d.entries ++ [(name, .table .header (scalars entries))]⟩,
          '\n' :: (writeSections (t :: ss)).toList)
          (⟨[name], d.entries ++ [(name, .table .header (scalars entries))]⟩,
            (writeSections (t :: ss)).toList) := ⟨readLine_blank _ _, Nat.lt_succ_self _⟩
      have htext : (writeSections ((name, entries) :: t :: ss)).toList =
          (writeSection name entries).toList ++ '\n' :: (writeSections (t :: ss)).toList := by
        simp [writeSections, Text.joined, String.intercalate_cons_cons]
      rw [htext]
      refine ⟨path, (htable _).trans (.head hblank ?_)⟩
      simpa [tables] using hrest

/-- **Sections are read back** as the tables of what they hold. -/
theorem read_writeSections {ss : List (String × List (String × Json))} (h : IsWritable ss) :
    read (writeSections ss).toList = some (tables ss) := by
  obtain ⟨path, hleads⟩ := leads_sections (d := ⟨[], []⟩) h (by simp)
  have hlines := readLines_of_leads hleads (Nat.lt_succ_self _)
  have hmark : ∀ cs, (writeSections ss).toList ≠ '\uFEFF' :: cs := by
    cases ss with
    | nil => simp [writeSections, Text.joined]
    | cons s ss =>
      cases ss <;> simp [writeSections, Text.joined, String.intercalate_cons_cons, writeSection]
  unfold read
  split
  · next heq => exact absurd heq (hmark _)
  · simp only at hlines ⊢
    rw [hlines]
    simp

end LintPatrol.Toml
