import LintPatrol.Cli.Run
import LintPatrol.Proofs.Checkout.Writing
import LintPatrol.Proofs.Config.Limits
import LintPatrol.Proofs.Config.Roundtrip

/-!
# LintPatrol.Proofs.Cli.Init

The configuration file that `init` leaves behind.  Once it has been written the
database is closed, which leaves all files as they are (`Host.holds_close`), so the file
holds the settings of the run; these have been found such that a run can work with them,
so their share of processors is a number, and they are read exactly as they were.

## Main statements

* `Host.configSource_of_setUp`: the file holds the text of the settings.
* `Host.config_of_init`: the next run has the settings of the run that wrote it.
* `settings_load_back`: all of it, for any settings.
-/

namespace LintPatrol.Cli

namespace Host

variable {h h' : Host} {file output : String} {c : Config}

/-- What `init` prints once it has written the configuration file. -/
def wroteText (file : String) (c : Config) : String :=
  printed ["Database initialized at " ++ c.storage.path] ++
    printed ["Wrote default config to " ++ file]

/-- What is done with an open database is done among its files, to which it belongs. -/
theorem exists_of_withDatabase {act : Database → Host → Outcome × Database × Host}
    (hrun : h.withDatabase c act = (.done output, h')) :
    ∃ d at_ d' g, act d { h with files := Database.close d at_ h.files } = (.done output, d', g) ∧
      h' = { g with files := Database.close d' at_ g.files } := by
  unfold withDatabase at hrun
  simp only at hrun
  split at hrun
  · cases hrun
  · cases hrun
  · next d at_ _ =>
    generalize hact : act d { h with files := Database.close d at_ h.files } = result at hrun
    obtain ⟨outcome, d', g⟩ := result
    cases hrun
    exact ⟨d, at_, d', g, hact, rfl⟩

/-- Closing a database once more changes none of the files. -/
theorem holds_close {d : Database} {at_ : Database.Location} {t u : Tree}
    (h : u.Holds (Database.close d at_ t)) : (Database.close d at_ u).Holds u := by
  cases at_ with
  | memory => exact fun _ _ => rfl
  | file place =>
    have hfile := Tree.node?_put_self t place d.toBytes
    have hsame : u.node? place = some (.file d.toBytes) := by
      rw [h place (by simp [Database.close, hfile])]
      exact hfile
    exact Tree.holds_put fun node hnode => Option.some.inj (hnode.symm.trans hsame)

/-- A configuration file that can be read is the source of the settings. -/
theorem configSource_of_read {content : List UInt8}
    (hread : h.files.read (h.path file) = .ok content) :
    h.configSource file = .content content := by
  rw [configSource, if_pos (Tree.hasPath_of_read hread), hread]

/-- **The configuration file** that has been written holds the settings of the run. -/
theorem configSource_of_setUp (hrun : h.setUp file c = (.done (wroteText file c), h')) :
    h'.configSource file = .content (Text.Utf8.bytes c.toText) := by
  unfold setUp at hrun
  simp only at hrun
  split at hrun
  · cases hrun
  next files _ =>
  obtain ⟨d, at_, d', g, hact, rfl⟩ := exists_of_withDatabase hrun
  simp only at hact
  split at hact
  · obtain ⟨houtput, -⟩ := Prod.mk.inj hact
    have htext := congrArg String.toList (Outcome.done.inj houtput)
    simp [wroteText, printed] at htext
  next hmissing =>
  split at hact
  · cases hact
  next t hwrite =>
  cases hact
  -- The path led nowhere when the database had been opened, so its file is another one.
  obtain ⟨hholds, hread⟩ := Tree.read_of_write hwrite (by simpa using hmissing)
  exact configSource_of_read ((holds_close hholds).read hread)

/-- Settings that a run can work with have a share of processors. -/
theorem quiet_eq_self (hvalid : c.validate = .ok ()) : c.quiet = c := by
  have hcpus := (c.validate_eq_ok_iff.mp hvalid).cpus
  have hnumber : c.sandbox.cpus.isNaN = false := by
    unfold Number.Binary64.isPositive at hcpus
    unfold Number.Binary64.isNaN
    split at hcpus
    · cases hcpus
    · next hview => rw [hview]
    · next hview => rw [hview]
  rw [Config.quiet, Number.Binary64.quiet_eq_self hnumber]

/-- The settings of a command are such that a run can work with them. -/
theorem validate_of_config {i : Invocation} (hc : h.config i = .ok c) : c.validate = .ok () := by
  unfold config at hc
  simp only [bind, Except.bind, pure, Except.pure] at hc
  split at hc
  · cases hc
  split at hc
  · cases hc
  next hvalid =>
  cases hc
  exact hvalid

/-- **The next run has the settings of the one that wrote the file.** -/
theorem config_of_init {i : Invocation} (hi : i.command = .init) (hc : h.config i = .ok c)
    (hrun : i.run h = (.done (wroteText i.config c), h')) :
    h'.config { i with database := none } = .ok c := by
  have hvalid := validate_of_config hc
  have hsetUp : h.setUp i.config c = (.done (wroteText i.config c), h') := by
    rw [Invocation.run, hi] at hrun
    simpa [Command.unknownStatus?, hc] using hrun
  have hload : Config.loadOrDefault i.config (h'.configSource i.config) = .ok c := by
    rw [configSource_of_setUp hsetUp, Config.loadOrDefault, Config.load_toText,
      quiet_eq_self hvalid]
    nofun
  simp [config, hload, hvalid, bind, Except.bind, pure, Except.pure]

end Host

/-- **Settings that are written load back**: the text is read as the same settings, no other
settings have that text, and the run after `init` has the settings that `init` ran with. -/
theorem settings_load_back (c : Config) :
    (∃ d : Config, d.Same c ∧ Config.ofText c.toText.toList = .ok d ∧
      ∀ path, Config.load path (.content (Text.Utf8.bytes c.toText)) = .ok d) ∧
    (∀ d : Config, d.toText = c.toText → d.Same c) ∧
    ∀ (i : Invocation) (h h' : Host), i.command = .init → h.config i = .ok c →
      i.run h = (.done (Host.wroteText i.config c), h') →
        h'.config { i with database := none } = .ok c := by
  have hload : ∀ path, Config.load path (.content (Text.Utf8.bytes c.toText)) = .ok c.quiet :=
    fun path => Config.load_toText path c
  have hnext : ∀ (i : Invocation) (h h' : Host), i.command = .init → h.config i = .ok c →
      i.run h = (.done (Host.wroteText i.config c), h') →
        h'.config { i with database := none } = .ok c :=
    fun _ _ _ hi hc hrun => Host.config_of_init hi hc hrun
  exact ⟨⟨c.quiet, c.same_quiet, c.ofText_toText, hload⟩,
    fun _ htext => Config.same_of_toText_eq htext, hnext⟩

def Host.bare : Host := ⟨"", .empty, "/tmp", [], default⟩

/-- The usual settings, for a store that is not kept. -/
def unkept : Config := { storage := { path := ":memory:" } }

def firstInit : Invocation := ⟨Config.defaultFile, some ":memory:", .init⟩

/-- Where there are no files at all, the configuration file is written under its name. -/
theorem write_bare (content : List UInt8) :
    Tree.empty.write Config.defaultFile content =
      .ok (Tree.empty.put [Config.defaultFile] content) := by
  have hend : Config.defaultFile.endsWith "/" = false :=
    String.Slice.endsWith_string_eq_false_iff.mpr (by decide)
  unfold Tree.write
  simp only [hend]
  rfl

/-- The first run writes the configuration file. -/
theorem run_firstInit (hconfig : Host.bare.config firstInit = .ok unkept) :
    firstInit.run .bare = (.done (Host.wroteText Config.defaultFile unkept),
      { Host.bare with
        files := Tree.empty.put [Config.defaultFile] (Text.Utf8.bytes unkept.toText) }) := by
  have hsetUp : firstInit.run .bare = Host.bare.setUp Config.defaultFile unkept := by
    have hstatus : firstInit.command.unknownStatus? = none := rfl
    unfold Invocation.run
    simp only [hstatus, hconfig]
    rfl
  have hfiles : Host.bare.files = .empty := rfl
  have hparent : ((Tree.parent? unkept.storage.path).getD "").isEmpty = true := by rfl
  have hopen : Database.openAt .empty Host.bare.directory unkept.storage.path
      (.ofSeconds unkept.storage.busyTimeoutSecs) = .opened (.ofStore .empty) .memory := by rfl
  have hpath : Tree.joinPath Host.bare.directory Config.defaultFile = Config.defaultFile := by rfl
  have hnone : Tree.empty.hasPath Config.defaultFile = false := by rfl
  rw [hsetUp]
  simp [Host.setUp, Host.withDatabase, Host.path, Host.wroteText, Database.close, hfiles, hparent,
    hopen, hpath, hnone, write_bare]

/-- The second run has the settings of the first. -/
theorem settings_load_back_firstInit :
    ∃ h', firstInit.run .bare = (.done (Host.wroteText Config.defaultFile unkept), h') ∧
      h'.config { firstInit with database := none } = .ok unkept := by
  have hconfig : Host.bare.config firstInit = .ok unkept := by rfl
  have hrun := run_firstInit hconfig
  exact ⟨_, hrun, (settings_load_back unkept).2.2 firstInit .bare _ rfl hconfig hrun⟩

end LintPatrol.Cli
