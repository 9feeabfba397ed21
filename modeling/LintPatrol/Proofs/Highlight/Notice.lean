import Mathlib.Data.List.Basic
import LintPatrol.Highlight.Annotation
import LintPatrol.Proofs.Number.Decimal
import LintPatrol.Proofs.Text.Split

/-!
# LintPatrol.Proofs.Highlight.Notice

What a linter has to say comes through.  A `Notice` is a finding as the linter
has it, and `Notice.IsWrittenAs` says which lines write it:

    ::warning file=a.go,line=10,endLine=12,title=Bug::unused result

with the properties in any order, others among them, and whatever would end a
part escaped.  Then

* escaping is undone (`unescape_escape`), and leaves no separator in a property
  (`not_mem_escape`), so that the parts are found where they were put;
* such a line is read as the highlight of its notice (`ofText_written`);
* an output is read as its notices, in their order, whatever other lines stand
  among them, and as nothing at all once a line says that the linter declined
  to run (`extract_reported`).
-/

namespace LintPatrol

open Number Text

/-! ## Notices -/

/-- How grave a finding is to the linter. -/
inductive Severity where
  | warning
  | error
deriving Repr, DecidableEq

/-- The command that reports it. -/
def Severity.command : Severity → String
  | warning => "::warning "
  | error => "::error "

/-- A finding as a linter has it.  The heading may be empty, and so may the rest of
what is said; a file has a name. -/
structure Notice where
  severity : Severity
  path : String
  path_ne : path ≠ ""
  startLine : UInt64
  endLine : UInt64
  title : String
  message : String
deriving Repr, DecidableEq

namespace Notice

/-- Heading and message, with a colon between them if there are both. -/
def body (n : Notice) : String :=
  if n.title = "" then n.message
  else if n.message = "" then n.title
  else n.title ++ ": " ++ n.message

/-- The highlight that it is. -/
def highlight (n : Notice) : Highlight := ⟨n.path, n.startLine, n.endLine, n.body⟩

/-! ## Writing -/

/-- The properties that it is written with: names and values. -/
def properties (n : Notice) : List (String × String) :=
  [("file", n.path), ("line", toString n.startLine), ("endLine", toString n.endLine)] ++
    if n.title = "" then [] else [("title", n.title)]

def reserved : List String := ["file", "line", "endLine", "title", "message"]

end Notice

namespace Annotation

/-- Is the character part of a word?  Letters and digits of all scripts are;
blanks are not, nor what stands between properties, names and values. -/
def isWordChar (c : Char) : Bool := !isBlank c && !([',', '=', ':'].contains c)

def isWord (name : String) : Bool := name.toList.all isWordChar

def writeProperty (p : String × String) : List Char := p.1.toList ++ '=' :: escape true p.2.toList

/-- A command with its properties and its message as it is written. -/
def write (s : Severity) (ps : List (String × String)) (message : String) : String :=
  String.ofList (s.command.toList ++
    (join [','] (ps.map writeProperty) ++ ("::".toList ++ escape false message.toList)))

end Annotation

open Annotation

/-- The line writes the notice: with its properties, and perhaps others that
have no meaning, in any order. -/
def Notice.IsWrittenAs (n : Notice) (line : String) : Prop :=
  ∃ ps others : List (String × String),
    ps.Perm (n.properties ++ others) ∧
      (∀ p ∈ others, isWord p.1 = true ∧ p.1 ∉ Notice.reserved) ∧
      line = write n.severity ps n.message

/-- The lines write the notices, in this order; lines that have no meaning may
stand among them. -/
inductive Reported : List Notice → List String → Prop where
  | nil : Reported [] []
  | notice {n : Notice} {line : String} {ns : List Notice} {lines : List String}
      (hwritten : n.IsWrittenAs line) (hrest : Reported ns lines) :
      Reported (n :: ns) (line :: lines)
  | other {line : String} {ns : List Notice} {lines : List String}
      (hskip : ¬skipMarker.toList <+: line.toList)
      (hcommand : ∀ c ∈ commands, ¬c.toList <+: line.toList) (hrest : Reported ns lines) :
      Reported ns (line :: lines)

namespace Annotation

/-! ## Escapes -/

/-- Any character but a percent sign stands for itself. -/
theorem unescape_cons {c : Char} (h : c ≠ '%') (inProperty : Bool) (cs : List Char) :
    unescape inProperty (c :: cs) = c :: unescape inProperty cs := by
  rw [unescape.eq_def]
  split <;> simp_all

/-- An escape that is known stands for its character. -/
theorem unescape_percent {a b c : Char} {inProperty : Bool} (h : escaped? inProperty a b = some c)
    (cs : List Char) : unescape inProperty ('%' :: a :: b :: cs) = c :: unescape inProperty cs := by
  simp [unescape, h]

/-- A character is written as it is, or by its code, of which a property holds
no separator. -/
theorem escapeChar_cases (inProperty : Bool) (c : Char) :
    (escapeChar inProperty c = [c] ∧ c ≠ '%' ∧ (inProperty = true → c ≠ ':' ∧ c ≠ ',')) ∨
      ∃ a b, escapeChar inProperty c = ['%', a, b] ∧ escaped? inProperty a b = some c ∧
        a.isAlphanum = true ∧ b.isAlphanum = true := by
  unfold escapeChar
  split_ifs with hpercent hreturn hnewline hcolon hcomma
  · exact .inr ⟨'2', '5', rfl, hpercent ▸ rfl, rfl, rfl⟩
  · exact .inr ⟨'0', 'D', rfl, hreturn ▸ rfl, rfl, rfl⟩
  · exact .inr ⟨'0', 'A', rfl, hnewline ▸ rfl, rfl, rfl⟩
  · exact .inr ⟨'3', 'A', rfl, hcolon.1 ▸ hcolon.2 ▸ rfl, rfl, rfl⟩
  · exact .inr ⟨'2', 'C', rfl, hcomma.1 ▸ hcomma.2 ▸ rfl, rfl, rfl⟩
  · exact .inl ⟨rfl, hpercent, fun h => ⟨fun hc => hcolon ⟨h, hc⟩, fun hc => hcomma ⟨h, hc⟩⟩⟩

/-- One character is read back. -/
theorem unescape_escapeChar (inProperty : Bool) (c : Char) (cs : List Char) :
    unescape inProperty (escapeChar inProperty c ++ cs) = c :: unescape inProperty cs := by
  rcases escapeChar_cases inProperty c with ⟨hself, hpercent, -⟩ | ⟨a, b, hcode, hread, -, -⟩
  · rw [hself]
    exact unescape_cons hpercent inProperty cs
  · rw [hcode]
    exact unescape_percent hread cs

/-- **Escaping is undone.** -/
theorem unescape_escape (inProperty : Bool) (cs : List Char) :
    unescape inProperty (escape inProperty cs) = cs := by
  induction cs with
  | nil => rfl
  | cons c cs ih =>
    have hcons : escape inProperty (c :: cs) = escapeChar inProperty c ++ escape inProperty cs :=
      rfl
    rw [hcons, unescape_escapeChar, ih]

/-- What is escaped in a property does not occur in it. -/
theorem not_mem_escape {sep : Char} (h : sep = ':' ∨ sep = ',') (cs : List Char) :
    sep ∉ escape true cs := by
  intro hmem
  obtain ⟨c, -, hc⟩ := List.mem_flatMap.mp hmem
  rcases escapeChar_cases true c with ⟨hself, -, hplain⟩ | ⟨a, b, hcode, -, ha, hb⟩
  · obtain ⟨hcolon, hcomma⟩ := hplain rfl
    rw [hself, List.mem_singleton] at hc
    rcases h with rfl | rfl
    · exact hcolon hc.symm
    · exact hcomma hc.symm
  · have hsep : sep ≠ '%' ∧ sep.isAlphanum = false := by rcases h with rfl | rfl <;> decide
    have hne : ∀ d : Char, d.isAlphanum = true → sep ≠ d := by
      rintro d hd rfl
      rw [hsep.2] at hd
      cases hd
    rw [hcode] at hc
    simp [hsep.1, hne a ha, hne b hb] at hc

/-! ## Properties -/

/-- A word has no blanks around it, and nothing in it that would end it. -/
theorem isWord_iff {name : String} :
    isWord name = true ↔
      ∀ c ∈ name.toList, isBlank c = false ∧ c ≠ ',' ∧ c ≠ '=' ∧ c ≠ ':' := by
  simp [isWord, isWordChar]

/-- Letters and digits make words. -/
theorem isWord_of_isAlphanum {name : String} (h : name.toList.all Char.isAlphanum = true) :
    isWord name = true := by
  refine isWord_iff.mpr fun c hc => ?_
  have halphanum : (c.isUpper || c.isLower || c.isDigit) = true := List.all_eq_true.mp h c hc
  refine ⟨?_, ?_, ?_, ?_⟩
  · rw [Bool.or_eq_true, Bool.or_eq_true] at halphanum
    rcases halphanum with (hupper | hlower) | hdigit
    · exact isBlank_of_between 'A' 'Z' (by decide) (of_decide_eq_true hupper)
    · obtain ⟨hlo, hhi⟩ := Bool.and_eq_true_iff.mp hlower
      exact isBlank_of_between 'a' 'z' (by decide)
        ⟨of_decide_eq_true hlo, of_decide_eq_true hhi⟩
    · obtain ⟨hlo, hhi⟩ := Bool.and_eq_true_iff.mp hdigit
      exact isBlank_of_between '0' '9' (by decide)
        ⟨of_decide_eq_true hlo, of_decide_eq_true hhi⟩
  all_goals
    rintro rfl
    exact absurd halphanum (by decide)

/-- No separator stands in a property. -/
theorem not_mem_writeProperty {p : String × String} (hname : isWord p.1 = true) {sep : Char}
    (h : sep = ':' ∨ sep = ',') : sep ∉ writeProperty p := by
  have hword := isWord_iff.mp hname
  have hvalue := not_mem_escape h p.2.toList
  have hsep : sep ∉ p.1.toList := by
    intro hmem
    obtain ⟨-, hcomma, -, hcolon⟩ := hword sep hmem
    exact h.elim hcolon hcomma
  have hequals : sep ≠ '=' := by rcases h with rfl | rfl <;> decide
  simp [writeProperty, hsep, hequals, hvalue]

/-- A property is cut behind its name. -/
theorem cutAt_writeProperty {p : String × String} (hname : isWord p.1 = true) :
    cutAt ['='] (writeProperty p) = some (p.1.toList, escape true p.2.toList) := by
  have hequals : '=' ∉ p.1.toList := fun h => (isWord_iff.mp hname _ h).2.2.1 rfl
  exact cutAt_append hequals [] _

/-- A property as its reader has it. -/
def characters (p : String × String) : List Char × List Char := (p.1.toList, p.2.toList)

/-- **Properties are read back.** -/
theorem properties_written {ps : List (String × String)} (hne : ps ≠ [])
    (hnames : ∀ p ∈ ps, isWord p.1 = true) :
    properties (join [','] (ps.map writeProperty)) = ps.map characters := by
  have hcomma : ∀ cs ∈ ps.map writeProperty, ',' ∉ cs := by
    rintro cs hcs
    obtain ⟨p, hp, rfl⟩ := List.mem_map.mp hcs
    exact not_mem_writeProperty (hnames p hp) (.inr rfl)
  rw [properties, splitAt_join (by simpa using hne) hcomma, List.filterMap_map,
    List.filterMap_eq_map_iff_forall_eq_some]
  intro p hp
  have htrim : trim p.1.toList = p.1.toList :=
    trim_eq_self fun c hc => (isWord_iff.mp (hnames p hp) c hc).1
  simp [cutAt_writeProperty (hnames p hp), htrim, unescape_escape, characters]

/-- The value that all properties of a name have is found. -/
theorem property?_eq_some {name : String} {v : List Char} {ps : List (List Char × List Char)}
    (hmem : (name.toList, v) ∈ ps) (hvalue : ∀ p ∈ ps, p.1 = name.toList → p.2 = v) :
    property? name ps = some v := by
  rw [property?]
  cases hfind : ps.reverse.find? (·.1 = name.toList) with
  | none => simpa using List.find?_eq_none.mp hfind _ (List.mem_reverse.mpr hmem)
  | some p =>
    have hp := List.mem_reverse.mp (List.mem_of_find?_eq_some hfind)
    have hname := List.find?_some hfind
    rw [Option.map_some, hvalue p hp (by simpa using hname)]

/-- No value is found for a name that no property has. -/
theorem property?_eq_none {name : String} {ps : List (List Char × List Char)}
    (h : ∀ p ∈ ps, p.1 ≠ name.toList) : property? name ps = none := by
  rw [property?, List.find?_eq_none.mpr, Option.map_none]
  intro p hp
  simpa using h p (List.mem_reverse.mp hp)

end Annotation

/-! ## Properties of a notice -/

namespace Notice

/-- The properties of a notice. -/
theorem mem_properties {n : Notice} {p : String × String} :
    p ∈ n.properties ↔
      p = ("file", n.path) ∨ p = ("line", toString n.startLine) ∨
        p = ("endLine", toString n.endLine) ∨ n.title ≠ "" ∧ p = ("title", n.title) := by
  by_cases htitle : n.title = "" <;> simp [properties, htitle]

/-- Each name stands for one value. -/
theorem lookup_properties {n : Notice} {p : String × String} (h : p ∈ n.properties) :
    n.properties.lookup p.1 = some p.2 := by
  rcases mem_properties.mp h with rfl | rfl | rfl | ⟨htitle, rfl⟩
  · rfl
  · rfl
  · rfl
  · simp [properties, htitle, List.lookup_cons]

/-- Every name that it uses has a meaning. -/
theorem mem_reserved_of_mem {n : Notice} {p : String × String} (h : p ∈ n.properties) :
    p.1 ∈ reserved := by
  rcases mem_properties.mp h with rfl | rfl | rfl | ⟨-, rfl⟩ <;> simp [reserved]

/-- All names with a meaning are words. -/
theorem isWord_of_mem_reserved {name : String} (h : name ∈ reserved) : isWord name = true := by
  have hall : ∀ name ∈ reserved, isWord name = true := by decide
  exact hall name h

/-- What is found by a name with a meaning is what the notice has by that name. -/
theorem property?_written {n : Notice} {ps others : List (String × String)}
    (hps : ps.Perm (n.properties ++ others)) (hothers : ∀ p ∈ others, p.1 ∉ reserved)
    {name : String} (hname : name ∈ reserved) :
    property? name (ps.map characters) = (n.properties.lookup name).map String.toList := by
  have hown : ∀ q ∈ ps.map characters, q.1 = name.toList →
      ∃ p ∈ n.properties, p.1 = name ∧ p.2.toList = q.2 := by
    intro q hq hqname
    obtain ⟨p, hp, rfl⟩ := List.mem_map.mp hq
    have hpname : p.1 = name := String.toList_injective hqname
    refine ⟨p, (List.mem_append.mp (hps.mem_iff.mp hp)).resolve_right fun h => ?_, hpname, rfl⟩
    exact hothers p h (hpname ▸ hname)
  cases hlookup : n.properties.lookup name with
  | none =>
    refine property?_eq_none fun q hq hqname => ?_
    obtain ⟨p, hp, rfl, -⟩ := hown q hq hqname
    simp [lookup_properties hp] at hlookup
  | some v =>
    refine property?_eq_some ?_ fun q hq hqname => ?_
    · obtain ⟨before, after, hsplit, -⟩ := List.lookup_eq_some_iff.mp hlookup
      have hmem : (name, v) ∈ ps := by simp [hps.mem_iff, hsplit]
      exact List.mem_map_of_mem hmem
    · obtain ⟨p, hp, rfl, hvalue⟩ := hown q hq hqname
      rw [lookup_properties hp] at hlookup
      rw [← hvalue, Option.some.inj hlookup]

/-- A number that is written is read. -/
theorem lineNumber?_written {n : Notice} {ps others : List (String × String)}
    (hps : ps.Perm (n.properties ++ others)) (hothers : ∀ p ∈ others, p.1 ∉ reserved)
    {name : String} {k : UInt64} (hmem : (name, toString k) ∈ n.properties) :
    lineNumber? name (ps.map characters) = some k := by
  have hproperty := property?_written hps hothers (mem_reserved_of_mem hmem)
  have htrim : trim (toString k).toList = (toString k).toList := trim_eq_self fun c hc =>
    isBlank_of_between '0' '9' (by decide) (isDigit_of_mem_toDigits (toList_toString k ▸ hc))
  simp [lineNumber?, hproperty, lookup_properties hmem, htrim, readUInt64_toString, Except.toOption]

/-! ## Lines -/

/-- Heading and message are put together as they are meant. -/
theorem explanation_eq_body (n : Notice) :
    String.ofList (explanation (nonEmpty? n.title.toList) (nonEmpty? n.message.toList)) =
      n.body := by
  have hcolon : String.ofList [':', ' '] = ": " := rfl
  by_cases htitle : n.title = "" <;> by_cases hmessage : n.message = "" <;>
    simp only [explanation, nonEmpty?, body, htitle, hmessage, hcolon, String.ofList_append,
      String.ofList_toList, String.toList_empty, String.ofList_nil, List.isEmpty_nil,
      List.isEmpty_iff, String.toList_eq_nil_iff, if_true, if_false]

/-- A written notice is read back, in whatever order its properties stand, and whatever
others stand between them. -/
theorem parse?_written {n : Notice} {ps others : List (String × String)}
    (hps : ps.Perm (n.properties ++ others))
    (hothers : ∀ p ∈ others, isWord p.1 = true ∧ p.1 ∉ reserved) :
    parse? (join [','] (ps.map writeProperty) ++ ("::".toList ++ escape false n.message.toList)) =
      some n.highlight := by
  have hnames : ∀ p ∈ ps, isWord p.1 = true := fun p hp =>
    (List.mem_append.mp (hps.mem_iff.mp hp)).elim
      (fun h => isWord_of_mem_reserved (mem_reserved_of_mem h)) fun h => (hothers p h).1
  have hne : ps ≠ [] := by
    have hfile : ("file", n.path) ∈ ps := by simp [hps.mem_iff, mem_properties]
    exact List.ne_nil_of_mem hfile
  have hcolon : ':' ∉ join [','] (ps.map writeProperty) := by
    refine not_mem_join (by decide) fun cs hcs => ?_
    obtain ⟨p, hp, rfl⟩ := List.mem_map.mp hcs
    exact not_mem_writeProperty (hnames p hp) (.inl rfl)
  have hcut : cutAt [':', ':'] (join [','] (ps.map writeProperty) ++
      ("::".toList ++ escape false n.message.toList)) =
        some (join [','] (ps.map writeProperty), escape false n.message.toList) :=
    cutAt_append hcolon [':'] _
  have hnone : ∀ p ∈ others, p.1 ∉ reserved := fun p hp => (hothers p hp).2
  have hstart : lineNumber? "line" (ps.map characters) = some n.startLine :=
    lineNumber?_written hps hnone (by simp [mem_properties])
  have hend : lineNumber? "endLine" (ps.map characters) = some n.endLine :=
    lineNumber?_written hps hnone (by simp [mem_properties])
  have hpath : property? "file" (ps.map characters) = some n.path.toList :=
    property?_written hps hnone (by decide)
  have htitle : (property? "title" (ps.map characters)).bind nonEmpty? =
      nonEmpty? n.title.toList := by
    rw [property?_written hps hnone (by decide)]
    by_cases h : n.title = "" <;> simp [properties, h, List.lookup_cons, nonEmpty?]
  have hmessage : property? "message" (ps.map characters) = none := by
    rw [property?_written hps hnone (by decide)]
    by_cases h : n.title = "" <;> simp [properties, h, List.lookup_cons]
  have hpathNe : nonEmpty? n.path.toList = some n.path.toList := by simp [nonEmpty?, n.path_ne]
  rw [parse?, hcut]
  simp [properties_written hne hnames, unescape_escape, hstart, hend, hpath, htitle, hmessage,
    hpathNe, explanation_eq_body, highlight]

end Notice

namespace Annotation

/-- What stands behind a command is found. -/
theorem findSome?_commands (s : Severity) (cs : List Char) :
    commands.findSome? (fun c => after? c.toList (s.command.toList ++ cs)) = some cs := by
  cases s <;> rfl

/-- No command declines to run. -/
theorem not_skip_command (s : Severity) (cs : List Char) :
    startsWith skipMarker.toList (s.command.toList ++ cs) = false := by
  cases s <;> rfl

/-- **A line with a notice is read as its highlight.** -/
theorem ofText_written {n : Notice} {line : String} (h : n.IsWrittenAs line) :
    Line.ofText line = .highlight n.highlight := by
  obtain ⟨ps, others, hps, hothers, rfl⟩ := h
  rw [Line.ofText, write, String.toList_ofList]
  simp only [not_skip_command, findSome?_commands, Option.bind_some,
    Notice.parse?_written hps hothers, Bool.false_eq_true, if_false]

/-- A line declines to run just if it begins with the marker. -/
theorem ofText_eq_skip_iff {line : String} :
    Line.ofText line = .skip ↔ skipMarker.toList <+: line.toList := by
  rw [Line.ofText, ← startsWith_iff]
  split
  · next h => simp [h]
  · next h => split <;> simp [h]

/-- A line without a command has no meaning. -/
theorem ofText_other {line : String} (hskip : ¬skipMarker.toList <+: line.toList)
    (hcommand : ∀ c ∈ commands, ¬c.toList <+: line.toList) : Line.ofText line = .other := by
  have hnone : commands.findSome? (fun c => after? c.toList line.toList) = none :=
    List.findSome?_eq_none_iff.mpr fun c hc => after?_eq_none_iff.mpr (hcommand c hc)
  rw [Line.ofText, if_neg (mt startsWith_iff.mp hskip), hnone]
  rfl

/-! ## Outputs -/

/-- Lines that are read one after the other add their notices to those before. -/
theorem extractFrom_reported {ns : List Notice} {ls : List String} (h : Reported ns ls)
    (found : List Highlight) :
    extractFrom found ls = .highlights (found.reverse ++ ns.map Notice.highlight) := by
  induction h generalizing found with
  | nil => simp [extractFrom]
  | notice hwritten _ ih => simp [extractFrom, ofText_written hwritten, ih]
  | other hskip hcommand _ ih => simp [extractFrom, ofText_other hskip hcommand, ih]

/-- One line that declines to run is enough, wherever it stands. -/
theorem extractFrom_eq_skipped_iff (found : List Highlight) (ls : List String) :
    extractFrom found ls = .skipped ↔ ∃ l ∈ ls, skipMarker.toList <+: l.toList := by
  induction ls generalizing found with
  | nil => simp [extractFrom]
  | cons l ls ih =>
    rw [extractFrom, List.exists_mem_cons_iff, ← ofText_eq_skip_iff]
    split
    · next h => simp [h]
    · next h => simp [h, ih]
    · next h => simp [h, ih]

/-- **What is reported is found**: an output is read as the notices in it, in
their order, whatever stands among them; and just if one of its lines declines
to run it is read as that. -/
theorem extract_reported :
    (∀ {ns : List Notice} {ls : List String}, Reported ns ls →
        extract ls = .highlights (ns.map Notice.highlight)) ∧
      ∀ ls : List String,
        extract ls = .skipped ↔ ∃ l ∈ ls, skipMarker.toList <+: l.toList :=
  ⟨fun h => extractFrom_reported h [], extractFrom_eq_skipped_iff []⟩

/-- A notice whose path and message are full of separators. -/
def entangled : Notice where
  severity := .warning
  path := "a::b,c=%25/é.go"
  path_ne := by decide
  startLine := 3
  endLine := 4294967296
  title := ""
  message := ":: 100%\nleft"

/-- A notice with a heading only. -/
def headed : Notice where
  severity := .error
  path := "z"
  path_ne := by decide
  startLine := 0
  endLine := 0
  title := "T: x, y"
  message := ""

/-- An output with both of them, their properties out of order. -/
def entangledOutput : List String :=
  ["::debug file=a::b",
    "::warning line=3,col2=7,file=a%3A%3Ab%2Cc=%2525/é.go,endLine=4294967296:::: 100%25%0Aleft",
    " ::skip",
    "::error title=T%3A x%2C y,endLine=0,line=0,file=z::"]

/-- Two notices with all that can be escaped, between other lines. -/
theorem extract_reported_entangled :
    Reported [entangled, headed] entangledOutput ∧
      extract entangledOutput = .highlights
        [⟨"a::b,c=%25/é.go", 3, 4294967296, ":: 100%\nleft"⟩, ⟨"z", 0, 0, "T: x, y"⟩] := by
  have hreported : Reported [entangled, headed] entangledOutput := by
    refine .other (by decide) (by decide) (.notice ?_ (.other (by decide) (by decide)
      (.notice ?_ .nil)))
    · exact ⟨[("line", "3"), ("col2", "7"), ("file", "a::b,c=%25/é.go"),
          ("endLine", "4294967296")],
        [("col2", "7")], by decide +kernel,
        by simpa using ⟨isWord_of_isAlphanum (by decide), by decide⟩, by decide +kernel⟩
    · exact ⟨[("title", "T: x, y"), ("endLine", "0"), ("line", "0"), ("file", "z")], [],
        by decide +kernel, by simp, by decide +kernel⟩
  exact ⟨hreported, extract_reported.1 hreported⟩

end Annotation

end LintPatrol
