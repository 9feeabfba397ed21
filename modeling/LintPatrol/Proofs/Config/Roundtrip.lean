import LintPatrol.Config.Text
import LintPatrol.Proofs.Json.Record
import LintPatrol.Proofs.Text.Utf8
import LintPatrol.Proofs.Toml.Document

/-!
# LintPatrol.Proofs.Config.Roundtrip

Settings that are written are read as they were.  The document that is written has a
table for each section, with a value for each setting that is set
(`Toml.read_writeSections`); as JSON it is a record of records
(`Toml.entriesToJson_tables`), which are read field by field.  Only one of the words
that are no number is ever read, the usual one (`quiet`).

## Main statements

* `ofText_toText`, `load_toText`: the text of settings, and a file that holds it, are
  read as the settings.
* `same_of_toText_eq`: two settings with one text are the same.
-/

namespace LintPatrol

open Number

namespace Toml

/-! ## Values -/

@[simp] theorem fits_str (s : String) : Fits (.str s) := trivial

@[simp] theorem fits_float (x : Binary64) : Fits (.float x) := trivial

@[simp] theorem fits_ofStr? (s : Option String) : Fits (Json.ofStr? s) := by
  cases s <;> trivial

@[simp] theorem fits_ofUInt64 (n : UInt64) : Fits (Json.ofUInt64 n) := by
  have hlt := n.toNat_lt
  show -((2 ^ 127 : Nat) : Int) ≤ n.toNat ∧ (n.toNat : Int) < (2 ^ 128 : Nat)
  omega

@[simp] theorem fits_toInt (n : Int64) : Fits (.int n.toInt) := by
  have hlow := n.le_toInt
  have hhigh := n.toInt_lt
  show -((2 ^ 127 : Nat) : Int) ≤ n.toInt ∧ n.toInt < (2 ^ 128 : Nat)
  omega

/-- What a value that is written becomes when it is read as JSON. -/
def reread? (v : Json) : Option Json := (scalar? v).map toJson

/-- The entries of a section are read back one by one. -/
theorem entriesToJson_scalars (entries : List (String × Json)) :
    entriesToJson (scalars entries) = Json.membersOf reread? entries := by
  induction entries with
  | nil => rfl
  | cons e entries ih =>
    obtain ⟨k, v⟩ := e
    rw [scalars_cons]
    cases h : scalar? v with
    | none => simpa [Json.membersOf, reread?, h] using ih
    | some w => simpa [Json.membersOf, reread?, h, entriesToJson] using ih

/-- So are the sections. -/
theorem entriesToJson_tables (ss : List (String × List (String × Json))) :
    entriesToJson (tables ss) =
      Json.membersOf (fun entries => some (.obj (Json.membersOf reread? entries))) ss := by
  induction ss with
  | nil => rfl
  | cons s ss ih =>
    obtain ⟨name, entries⟩ := s
    simpa [tables, Json.membersOf, entriesToJson, toJson, entriesToJson_scalars] using ih

@[simp] theorem reread?_str (s : String) : reread? (.str s) = some (.str s) := rfl

@[simp] theorem reread?_int (n : Int) : reread? (.int n) = some (.int n) := rfl

@[simp] theorem reread?_ofUInt64 (n : UInt64) :
    reread? (Json.ofUInt64 n) = some (Json.ofUInt64 n) := rfl

@[simp] theorem reread?_float (x : Binary64) : reread? (.float x) = some (.float x.quiet) := rfl

@[simp] theorem reread?_ofStr? (s : Option String) : reread? (Json.ofStr? s) = s.map .str := by
  cases s <;> rfl

end Toml

namespace Config

open Json Toml

/-! ## Sections -/

theorem isSection_storageEntries (c : StorageConfig) : IsSection (storageEntries c) where
  bare := by simp [storageEntries]; decide
  fits := by simp [storageEntries]
  nodup := by simp [storageEntries]

theorem isSection_schedulerEntries (c : SchedulerConfig) : IsSection (schedulerEntries c) where
  bare := by simp [schedulerEntries]; decide
  fits := by simp [schedulerEntries]
  nodup := by simp [schedulerEntries]

theorem isSection_workerEntries (c : WorkerConfig) : IsSection (workerEntries c) where
  bare := by simp [workerEntries]; decide
  fits := by simp [workerEntries]
  nodup := by simp [workerEntries]

theorem isSection_sandboxEntries (c : SandboxConfig) : IsSection (sandboxEntries c) where
  bare := by simp [sandboxEntries]; decide
  fits := by simp [sandboxEntries]
  nodup := by simp [sandboxEntries]

/-- All sections have names and entries that can be written. -/
theorem isWritable_sections (c : Config) : IsWritable c.sections where
  bare := by simp [sections]; decide
  isSection := by
    simp [sections, isSection_storageEntries, isSection_schedulerEntries, isSection_workerEntries,
      isSection_sandboxEntries]
  nodup := by simp [sections]

/-- A section is read as it is written. -/
theorem storageOfJson_written (rule : ListRule) (c : StorageConfig) :
    storageOfJson rule (.obj (membersOf reread? (storageEntries c))) = some c := by
  have hfields := fields_membersOf reread? rule (isSection_storageEntries c).nodup
  simp only [storageEntries, List.map_cons, List.map_nil] at hfields
  simp [storageOfJson, storageEntries, hfields, defaulted, str?]

theorem schedulerOfJson_written (rule : ListRule) (c : SchedulerConfig) :
    schedulerOfJson rule (.obj (membersOf reread? (schedulerEntries c))) = some c := by
  have hfields := fields_membersOf reread? rule (isSection_schedulerEntries c).nodup
  simp only [schedulerEntries, List.map_cons, List.map_nil] at hfields
  simp [schedulerOfJson, schedulerEntries, hfields, defaulted]

theorem workerOfJson_written (rule : ListRule) (c : WorkerConfig) :
    workerOfJson rule (.obj (membersOf reread? (workerEntries c))) = some c := by
  have hfields := fields_membersOf reread? rule (isSection_workerEntries c).nodup
  simp only [workerEntries, List.map_cons, List.map_nil] at hfields
  simp [workerOfJson, workerEntries, hfields, defaulted, str?]

/-- So is that of the sandbox, but for a share of processors that is no number. -/
theorem sandboxOfJson_written (rule : ListRule) (c : SandboxConfig) :
    sandboxOfJson rule (.obj (membersOf reread? (sandboxEntries c))) =
      some { c with cpus := c.cpus.quiet } := by
  have hfields := fields_membersOf reread? rule (isSection_sandboxEntries c).nodup
  simp only [sandboxEntries, List.map_cons, List.map_nil] at hfields
  simp [sandboxOfJson, sandboxEntries, hfields, defaulted, str?, number?]

/-! ## Settings -/

/-- The settings, the usual word standing for a share of processors that is no number. -/
def quiet (c : Config) : Config :=
  { c with sandbox := { c.sandbox with cpus := c.sandbox.cpus.quiet } }

/-- What is written of settings is read back, but for the bits of a NaN. -/
theorem ofJson_written (rule : ListRule) (c : Config) :
    ofJson rule (.obj (entriesToJson (tables c.sections))) = some c.quiet := by
  have hfields := fields_membersOf (fun entries => some (.obj (membersOf reread? entries))) rule
    (isWritable_sections c).nodup
  rw [← entriesToJson_tables] at hfields
  simp only [sections, List.map_cons, List.map_nil] at hfields
  simp [ofJson, sections, hfields, defaulted, storageOfJson_written, schedulerOfJson_written,
    workerOfJson_written, sandboxOfJson_written, quiet]

/-- **The text of settings is read as the settings.** -/
theorem ofText_toText (c : Config) : ofText c.toText.toList = .ok c.quiet := by
  rw [ofText, toText, read_writeSections (isWritable_sections c), Option.bind_some,
    ofJson_written]

/-- So is a file with that text. -/
theorem load_toText (path : String) (c : Config) :
    load path (.content (Text.Utf8.bytes c.toText)) = .ok c.quiet := by
  rw [load, Text.Utf8.bytes, Text.Utf8.decode?_encode]
  simp only [ofText_toText]
  rfl

/-- The settings are the same, the share of processors being the same or no number in
both. -/
structure Same (c d : Config) : Prop where
  storage : c.storage = d.storage
  scheduler : c.scheduler = d.scheduler
  worker : c.worker = d.worker
  sandbox : { c.sandbox with cpus := d.sandbox.cpus } = d.sandbox
  cpus : c.sandbox.cpus = d.sandbox.cpus ∨
    c.sandbox.cpus.isNaN = true ∧ d.sandbox.cpus.isNaN = true

/-- Those bits make no difference. -/
theorem same_quiet (c : Config) : c.quiet.Same c where
  storage := rfl
  scheduler := rfl
  worker := rfl
  sandbox := rfl
  cpus := (Binary64.quiet_eq_or c.sandbox.cpus).imp_right And.symm

/-- Settings that agree but for them are the same. -/
theorem same_of_quiet_eq {c d : Config} (h : c.quiet = d.quiet) : c.Same d := by
  have hsandbox : { c.sandbox with cpus := c.sandbox.cpus.quiet } =
      { d.sandbox with cpus := d.sandbox.cpus.quiet } := congrArg Config.sandbox h
  have hcpus : c.sandbox.cpus.quiet = d.sandbox.cpus.quiet :=
    congrArg SandboxConfig.cpus hsandbox
  have hstorage := congrArg Config.storage h
  have hscheduler := congrArg Config.scheduler h
  have hworker := congrArg Config.worker h
  have hothers := congrArg (fun s => { s with cpus := d.sandbox.cpus }) hsandbox
  refine ⟨hstorage, hscheduler, hworker, hothers, ?_⟩
  rcases Binary64.quiet_eq_or c.sandbox.cpus with hc | ⟨hc, hquiet⟩
  · rcases Binary64.quiet_eq_or d.sandbox.cpus with hd | ⟨hd, hquiet⟩
    · exact .inl (by rw [← hc, hcpus, hd])
    · exact .inr ⟨by rw [← hc, hcpus, hquiet], hd⟩
  · rcases Binary64.quiet_eq_or d.sandbox.cpus with hd | ⟨hd, -⟩
    · exact .inr ⟨hc, by rw [← hd, ← hcpus, hquiet]⟩
    · exact .inr ⟨hc, hd⟩

/-- **Two texts that are the same** are of the same settings. -/
theorem same_of_toText_eq {c d : Config} (h : c.toText = d.toText) : c.Same d := by
  have hread := ofText_toText c
  rw [h, ofText_toText d] at hread
  exact same_of_quiet_eq (Except.ok.inj hread).symm

end Config

end LintPatrol
