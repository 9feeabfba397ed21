import LintPatrol.Codec.Finding
import LintPatrol.Codec.Registry
import LintPatrol.Codec.Task
import LintPatrol.Proofs.Json.Record
import LintPatrol.Proofs.Json.Text
import LintPatrol.Proofs.Time.Text

/-!
# LintPatrol.Proofs.Codec.Roundtrip

Repositories, linters, tasks and findings are written in JSON without loss
(`values_read_back`).  Single values come first, each with one lemma that says
what is read of what is written; records follow field by field from these.  A
repository and a linter are written with their state in front of the other
members.  Both are read by `byState?`, and whatever it takes for one of the two
forms names that form (`state?_of_byState?`), so the two are told apart in every
JSON value and not only in those that are written here.
-/

namespace LintPatrol.Codec

open Json Time Number

/-! ## Single values -/

@[simp] theorem str?_str (s : String) : str? (.str s) = some s := rfl

@[simp] theorem required_some {α : Type} (decode : Json → Option α) (v : Json) :
    required decode (some v) = decode v := rfl

/-- A field that may be missing is read like any other where it is not `null`. -/
theorem optional_of_ne {α : Type} (decode : Json → Option α) {v : Json} (h : v ≠ .null) :
    optional decode (some v) = (decode v).map some := by
  cases v with
  | null => exact absurd rfl h
  | _ => rfl

@[simp] theorem optional_ofStr? (s : Option String) : optional str? (some (ofStr? s)) = some s := by
  cases s <;> rfl

@[simp] theorem instant?_ofInstant (t : Instant) : instant? (ofInstant t) = some t := by
  rw [instant?, ofInstant, str?_str, Option.bind_some, Instant.ofText?_text]

@[simp] theorem optional_ofInstant? (t : Option Instant) :
    optional instant? (some (ofInstant? t)) = some t := by
  cases t with
  | none => rfl
  | some t =>
    rw [ofInstant?, optional_of_ne _ Json.noConfusion, instant?_ofInstant, Option.map_some]

@[simp] theorem taskStatus?_ofTaskStatus (s : TaskStatus) :
    taskStatus? (ofTaskStatus s) = some s := TaskStatus.ofName?_name s

@[simp] theorem verdict?_ofVerdict (v : Verdict) : verdict? (ofVerdict v) = some v :=
  Verdict.ofName?_name v

theorem seconds_lt (d : Duration) : d.seconds < 0x10000000000000000 := by
  have hlt := d.nanos_lt
  simp only [Duration.seconds, durationLimit, nanosPerSecond] at *
  omega

theorem subNanos_lt (d : Duration) : d.subNanos < 1000000000 :=
  Nat.mod_lt _ (by decide)

theorem ofNanos?_nanos (d : Duration) : Duration.ofNanos? d.nanos = some d := by
  rw [Duration.ofNanos?, dif_pos d.nanos_lt]

/-- The parts of a duration make it up again. -/
theorem ofParts?_parts (d : Duration) : Duration.ofParts? d.seconds d.subNanos = some d := by
  have hsum : d.seconds * nanosPerSecond + d.subNanos = d.nanos := by
    rw [Duration.seconds, Duration.subNanos, Nat.div_add_mod']
  rw [Duration.ofParts?, hsum]
  exact ofNanos?_nanos d

/-- A duration is read from its two fields. -/
theorem duration?_obj {s n : Json} {seconds : UInt64} {nanos : Nat}
    (hs : uint64? s = some seconds) (hn : uint32? n = some nanos) :
    duration? (.obj [("secs", s), ("nanos", n)]) = Duration.ofParts? seconds.toNat nanos := by
  have honly : onlyFields ["secs", "nanos"] (.obj [("secs", s), ("nanos", n)]) = true := rfl
  have hfields : fields .exact ["secs", "nanos"] (.obj [("secs", s), ("nanos", n)]) =
      some [some s, some n] := by
    simp [fields, member?]
  rw [duration?, if_pos honly, hfields, Option.bind_eq_bind, Option.bind_some]
  -- simp would unfold the sum of the parts, a product with the nanoseconds of a second
  show (required uint64? (some s)).bind (fun a => (required uint32? (some n)).bind fun b =>
    Duration.ofParts? a.toNat b) = _
  rw [required_some, required_some, hs, hn, Option.bind_some, Option.bind_some]

@[simp] theorem duration?_ofDuration (d : Duration) : duration? (ofDuration d) = some d := by
  have hvalue : (UInt64.ofNat d.seconds).toNat = d.seconds :=
    UInt64.toNat_ofNat_of_lt (seconds_lt d)
  have hseconds : uint64? (.int d.seconds) = some (UInt64.ofNat d.seconds) := by
    have hread := uint64?_ofUInt64 (UInt64.ofNat d.seconds)
    rwa [ofUInt64, hvalue] at hread
  have hnanos : uint32? (.int d.subNanos) = some d.subNanos := by
    have hlt := subNanos_lt d
    rw [uint32?, if_pos (by omega), Int.toNat_natCast]
  rw [ofDuration, duration?_obj hseconds hnanos, hvalue, ofParts?_parts]

@[simp] theorem optional_ofDuration? (d : Option Duration) :
    optional duration? (some (ofDuration? d)) = some d := by
  cases d with
  | none => rfl
  | some d =>
    rw [ofDuration?, optional_of_ne _ Json.noConfusion, duration?_ofDuration, Option.map_some]

/-! ## Records -/

@[simp] theorem highlight?_ofHighlight (h : Highlight) : highlight? (ofHighlight h) = some h := by
  simp [highlight?, ofHighlight, fields, member?]

@[simp] theorem snippet?_ofSnippet (s : Snippet) : snippet? (ofSnippet s) = some s := by
  simp [snippet?, ofSnippet, fields, member?]

@[simp] theorem finding?_ofFinding (f : Finding) : finding? (ofFinding f) = some f := by
  simp [finding?, ofFinding, fields, member?]

@[simp] theorem moderation?_ofModeration (m : Moderation) :
    moderation? (ofModeration m) = some m := by
  simp [moderation?, ofModeration, fields, member?]

/-- What is written of a stored finding is read as it. -/
theorem storedFinding?_ofStoredFinding (f : StoredFinding) :
    storedFinding? (ofStoredFinding f) = some f := by
  simp [storedFinding?, ofStoredFinding, fields, member?]

@[simp] theorem repoRevision?_ofRepoRevision (r : RepoRevision) :
    repoRevision? (ofRepoRevision r) = some r := by
  simp [repoRevision?, ofRepoRevision, threeStrings, fields, member?]

@[simp] theorem linterImage?_ofLinterImage (i : LinterImage) :
    linterImage? (ofLinterImage i) = some i := by
  simp [linterImage?, ofLinterImage, threeStrings, fields, member?]

@[simp] theorem repoSource?_members (s : RepoSource) :
    repoSource? (.obj (repoSourceMembers s)) = some s := by
  simp [repoSource?, repoSourceMembers, sourceFields, threeStrings, fields, member?]

@[simp] theorem linterSource?_members (s : LinterSource) :
    linterSource? (.obj (linterSourceMembers s)) = some s := by
  simp [linterSource?, linterSourceMembers, sourceFields, threeStrings, fields, member?]

/-- What is written of a task is read as it. -/
theorem task?_ofTask (t : Task) : task? (ofTask t) = some t := by
  simp [task?, ofTask, fields, member?]

/-! ## Tagged values -/

/-- The state that a value names. -/
def state? (v : Json) : Option String := (tagged v).map (·.1)

section Tagged

variable {σ ρ α : Type} (source? : Json → Option σ) (result? : Json → Option ρ)
variable (unresolved : σ → α) (resolved : σ → ρ → α)

/-- Reads a source and what it was resolved to, under names of their own. -/
def both? (v : Json) : Option α := do
  match ← fields .exact ["meta", "instance"] v with
  | [s, r] => pure (resolved (← required source? s) (← required result? r))
  | _ => none

/-- Reads the form of a tagged value that its state names. -/
def byState? (v : Json) : Option α := do
  let (state, v) ← tagged v
  if state = "meta_only" then (source? v).map unresolved
  else if state = "resolved" then both? source? result? resolved v
  else none

/-- An object with both parts is read as both. -/
theorem both?_obj {v w : Json} {s : σ} {r : ρ} (hs : source? v = some s) (hr : result? w = some r) :
    both? source? result? resolved (.obj [("meta", v), ("instance", w)]) = some (resolved s r) := by
  simp [both?, fields, member?, hs, hr]

/-- What is read so has both parts. -/
theorem exists_of_both? {v : Json} {a : α} (h : both? source? result? resolved v = some a) :
    ∃ s r, a = resolved s r := by
  simp only [both?, Option.bind_eq_bind, Option.bind_eq_some_iff] at h
  obtain ⟨values, -, h⟩ := h
  split at h
  · simp only [Option.bind_eq_some_iff] at h
    obtain ⟨s, -, r, -, ha⟩ := h
    exact ⟨s, r, (Option.some.inj ha).symm⟩
  · cases h

/-- The state stands in front of the other members. -/
theorem tagged_obj {members : List (String × Json)} (h : "state" ∉ members.map (·.1))
    (state : String) :
    tagged (.obj (("state", .str state) :: members)) = some (state, .obj members) := by
  have hne : ∀ m ∈ members, m.1 ≠ "state" := fun m hm heq => h (List.mem_map.mpr ⟨m, hm, heq⟩)
  have hnone : member? "state" members = none := by
    have hfind : members.reverse.find? (·.1 == "state") = none := by
      simpa [List.find?_eq_none] using fun k v hm => hne (k, v) hm
    rw [member?, hfind, Option.map_none]
  have hrest : members.filter (·.1 ≠ "state") = members :=
    List.filter_eq_self.mpr fun m hm => decide_eq_true (hne m hm)
  rw [tagged, member?_cons, hnone, if_pos rfl, Option.none_or, Option.bind_some, str?_str]
  simp only [Option.bind_eq_bind, Option.bind_some, List.filter_cons, ne_eq, not_true_eq_false,
    decide_false, Bool.false_eq_true, if_false, Option.pure_def]
  rw [hrest]

/-- An object that says `meta_only` is read as one without a result. -/
theorem byState?_unresolved {members : List (String × Json)} (h : "state" ∉ members.map (·.1)) :
    byState? source? result? unresolved resolved (.obj (("state", .str "meta_only") :: members)) =
      (source? (.obj members)).map unresolved := by
  rw [byState?, tagged_obj h]
  rfl

/-- An object that says `resolved` is read as one with both parts. -/
theorem byState?_resolved {members : List (String × Json)} (h : "state" ∉ members.map (·.1)) :
    byState? source? result? unresolved resolved (.obj (("state", .str "resolved") :: members)) =
      both? source? result? resolved (.obj members) := by
  rw [byState?, tagged_obj h]
  rfl

/-- Whatever a value is read as, its state is that of the form it is read as. -/
theorem state?_of_byState? {v : Json} {a : α}
    (h : byState? source? result? unresolved resolved v = some a) :
    (state? v = some "meta_only" ∧ ∃ s, a = unresolved s) ∨
      (state? v = some "resolved" ∧ ∃ s r, a = resolved s r) := by
  rw [byState?, Option.bind_eq_bind, Option.bind_eq_some_iff] at h
  obtain ⟨⟨state, w⟩, htag, h⟩ := h
  have hstate : state? v = some state := by rw [state?, htag, Option.map_some]
  simp only at h
  split at h
  · next heq =>
    obtain ⟨s, -, ha⟩ := Option.map_eq_some_iff.mp h
    exact .inl ⟨heq ▸ hstate, s, ha.symm⟩
  split at h
  · next heq => exact .inr ⟨heq ▸ hstate, exists_of_both? source? result? resolved h⟩
  · cases h

end Tagged

/-- A repository is read by its state. -/
theorem repo?_eq : repo? = byState? repoSource? repoRevision? .unresolved .resolved := rfl

/-- So is a linter. -/
theorem linter?_eq : linter? = byState? linterSource? linterImage? .unresolved .resolved := rfl

/-- What is written of a repository is read as it. -/
theorem repo?_ofRepo (r : Repo) : repo? (ofRepo r) = some r := by
  rw [repo?_eq]
  cases r with
  | unresolved s =>
    rw [ofRepo, byState?_unresolved _ _ _ _ (by simp [repoSourceMembers]), repoSource?_members,
      Option.map_some]
  | resolved s r =>
    rw [ofRepo, byState?_resolved _ _ _ _ (by simp)]
    exact both?_obj _ _ _ (repoSource?_members s) (repoRevision?_ofRepoRevision r)

/-- What is written of a linter is read as it. -/
theorem linter?_ofLinter (l : Linter) : linter? (ofLinter l) = some l := by
  rw [linter?_eq]
  cases l with
  | unresolved s =>
    rw [ofLinter, byState?_unresolved _ _ _ _ (by simp [linterSourceMembers]),
      linterSource?_members, Option.map_some]
  | resolved s i =>
    rw [ofLinter, byState?_resolved _ _ _ _ (by simp)]
    exact both?_obj _ _ _ (linterSource?_members s) (linterImage?_ofLinterImage i)

/-! ## Texts -/

@[simp] theorem isWhole_ofUInt64 (n : UInt64) : IsWhole (ofUInt64 n) := by
  have hlt := n.toNat_lt
  simp only [ofUInt64, IsWhole, minInt64, maxUInt64]
  omega

@[simp] theorem isWhole_ofStr? (s : Option String) : IsWhole (ofStr? s) := by
  cases s <;> trivial

@[simp] theorem isWhole_ofInstant? (t : Option Instant) : IsWhole (ofInstant? t) := by
  cases t <;> trivial

@[simp] theorem isWhole_ofDuration? (d : Option Duration) : IsWhole (ofDuration? d) := by
  cases d with
  | none => trivial
  | some d =>
    have hseconds := seconds_lt d
    have hnanos := subNanos_lt d
    simp only [ofDuration?, ofDuration, IsWhole, HaveWhole, minInt64, maxUInt64, and_true]
    omega

theorem isWhole_ofRepo (r : Repo) : IsWhole (ofRepo r) := by
  cases r <;> simp [ofRepo, repoSourceMembers, ofRepoRevision, IsWhole, HaveWhole]

theorem isWhole_ofLinter (l : Linter) : IsWhole (ofLinter l) := by
  cases l <;> simp [ofLinter, linterSourceMembers, ofLinterImage, IsWhole, HaveWhole]

theorem isWhole_ofTask (t : Task) : IsWhole (ofTask t) := by
  simp [ofTask, ofLinterImage, ofRepoRevision, ofTaskStatus, ofInstant, IsWhole, HaveWhole]

theorem isWhole_ofStoredFinding (f : StoredFinding) : IsWhole (ofStoredFinding f) := by
  simp [ofStoredFinding, ofFinding, ofHighlight, ofSnippet, ofModeration, ofVerdict, IsWhole,
    HaveWhole]

/-! ## All values -/

/-- Values are written in JSON and read again without loss. -/
structure Lossless {α : Type} (write : α → Json) (read? : Json → Option α) : Prop where
  read_write : ∀ a, read? (write a) = some a
  read_text : ∀ a, (ofText? (write a).compact).bind read? = some a
  reread : ∀ v a, read? v = some a → read? (write a) = some a
  rewrite : ∀ v w, (read? v).map write = some w → (read? w).map write = some w

/-- If values are read back, and written with whole numbers only, nothing is lost at all. -/
theorem Lossless.of_read_write {α : Type} {write : α → Json} {read? : Json → Option α}
    (hread : ∀ a, read? (write a) = some a) (hwrite : ∀ a, IsWhole (write a)) :
    Lossless write read? where
  read_write := hread
  read_text a := by rw [ofText?_compact (hwrite a), Option.bind_some, hread]
  reread _ a _ := hread a
  rewrite v w h := by
    obtain ⟨a, -, rfl⟩ := Option.map_eq_some_iff.mp h
    rw [hread, Option.map_some]

/-- The two forms of a tagged value are told apart by the state that is named, whatever else
there is, and so neither is read as the other. -/
structure ToldApart {σ ρ α : Type} (write : α → Json) (read? : Json → Option α)
    (unresolved : σ → α) (resolved : σ → ρ → α) : Prop where
  unresolved_state : ∀ v s, read? v = some (unresolved s) → state? v = some "meta_only"
  resolved_state : ∀ v s r, read? v = some (resolved s r) → state? v = some "resolved"
  unresolved_ne : ∀ s t r, read? (write (unresolved s)) ≠ some (resolved t r)
  resolved_ne : ∀ s t r, read? (write (resolved s r)) ≠ some (unresolved t)

/-- If values are read back by their state, it tells them apart. -/
theorem ToldApart.of_read_write {σ ρ α : Type} {source? : Json → Option σ}
    {result? : Json → Option ρ} {write : α → Json} {unresolved : σ → α} {resolved : σ → ρ → α}
    (hread : ∀ a, byState? source? result? unresolved resolved (write a) = some a)
    (hne : ∀ s t r, unresolved s ≠ resolved t r) :
    ToldApart write (byState? source? result? unresolved resolved) unresolved resolved where
  unresolved_state v s h := by
    rcases state?_of_byState? _ _ _ _ h with ⟨hstate, -⟩ | ⟨-, t, r, ha⟩
    · exact hstate
    · exact absurd ha (hne s t r)
  resolved_state v s r h := by
    rcases state?_of_byState? _ _ _ _ h with ⟨-, t, ha⟩ | ⟨hstate, -⟩
    · exact absurd ha.symm (hne t s r)
    · exact hstate
  unresolved_ne s t r h := hne s t r (Option.some.inj ((hread _).symm.trans h))
  resolved_ne s t r h := hne t s r (Option.some.inj (h.symm.trans (hread _)))

/-- **Repositories, linters, tasks and findings are written in JSON without loss**, and the two
forms of a repository or a linter are never confused. -/
theorem values_read_back :
    Lossless ofRepo repo? ∧ Lossless ofLinter linter? ∧ Lossless ofTask task? ∧
      Lossless ofStoredFinding storedFinding? ∧
      ToldApart ofRepo repo? .unresolved .resolved ∧
      ToldApart ofLinter linter? .unresolved .resolved := by
  refine ⟨.of_read_write repo?_ofRepo isWhole_ofRepo,
    .of_read_write linter?_ofLinter isWhole_ofLinter,
    .of_read_write task?_ofTask isWhole_ofTask,
    .of_read_write storedFinding?_ofStoredFinding isWhole_ofStoredFinding, ?_, ?_⟩
  · exact .of_read_write repo?_ofRepo fun _ _ _ => Repo.noConfusion
  · exact .of_read_write linter?_ofLinter fun _ _ _ => Linter.noConfusion

end LintPatrol.Codec
