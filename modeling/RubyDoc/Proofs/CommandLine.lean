import RubyDoc.CommandLine.Basic
import RubyDoc.Proofs.Logging.Setup
import RubyDoc.Proofs.Report.Markup
import RubyDoc.Proofs.Run.Files
import RubyDoc.Proofs.Run.Report

/-!
# How commands end

A command either prints a report and ends with status zero, or prints a frame with the reason
and ends with status one. Few things are not foreseen: a configuration whose path has a nul
character or that is no text, a document in it that has no value, a path that is longer than
paths can be, a list where no namespace stands at the empty path, and a report that the console
refuses to print.
-/

namespace RubyDoc

/-! ### Reading the configuration -/

/-- Configurations that fail in a way that is not told as a fault of the configuration. -/
inductive Config.EscapesAt (w : Workspace) (load : Yaml.Load) (path : String) : Prop
  /-- The path has a nul character. -/
  | nulInPath (h : '\x00' ∈ path.toList)
  /-- The file is no text. -/
  | notText {bytes : ByteArray} {cause : Cause} (hbytes : w.bytesAt path = .ok bytes)
      (h : Workspace.decodeLines bytes = .error cause)
  /-- The document in the file has no value. -/
  | noValue {bytes : ByteArray} {text : String} {fault : Yaml.Fault}
      (hbytes : w.bytesAt path = .ok bytes) (htext : Workspace.decodeLines bytes = .ok text)
      (h : load text = .error fault) (hfault : fault ≠ .malformed)

namespace Config

variable {w : Workspace} {load : Yaml.Load} {path : String}

theorem escapesAt_of_readDocument {fault : DocumentFault}
    (h : readDocument w path load = .error fault)
    (hfault : (ConfigFault.document fault).isConfigError = false) : EscapesAt w load path := by
  rw [readDocument] at h
  split at h
  · next hbytes => exact .nulInPath (Workspace.bytesAt_eq_nulInPath_iff.mp hbytes)
  · rw [← Except.error.inj h] at hfault
    cases hfault
  · next bytes hbytes =>
    split at h
    · next cause htext => exact .notText hbytes htext
    · next text htext =>
      split at h
      · cases h
      · rw [← Except.error.inj h] at hfault
        cases hfault
      · next fault hother hparse => exact .noValue hbytes htext hparse hother

theorem EscapesAt.exists_readDocument (h : EscapesAt w load path) :
    ∃ fault, readDocument w path load = .error fault ∧
      (ConfigFault.document fault).isConfigError = false := by
  rw [readDocument]
  cases h with
  | nulInPath hpath =>
    rw [Workspace.bytesAt_eq_nulInPath_iff.mpr hpath]
    exact ⟨_, rfl, rfl⟩
  | notText hbytes htext =>
    rw [hbytes]
    dsimp only
    rw [htext]
    exact ⟨_, rfl, rfl⟩
  | @noValue bytes text fault hbytes htext hparse hother =>
    rw [hbytes]
    dsimp only
    rw [htext]
    dsimp only
    rw [hparse]
    cases fault with
    | malformed => exact absurd rfl hother
    | _ => exact ⟨_, rfl, rfl⟩

/-- Settings that are no good are always told as a fault of the configuration, and so is whatever
keeps them from being read, but for the three. -/
theorem exists_ofFile_eq_error_iff :
    (∃ fault, ofFile w path load = .error fault ∧ fault.isConfigError = false) ↔
      EscapesAt w load path := by
  constructor
  · rintro ⟨fault, h, hfault⟩
    have hinvalid : ∀ entries, ofProperties entries ≠ .error fault := by
      intro entries heq
      rw [ofProperties] at heq
      cases hentries : ofEntries entries with
      | ok config =>
        rw [hentries] at heq
        cases heq
      | error complaints =>
        rw [hentries] at heq
        rw [← Except.error.inj heq] at hfault
        cases hfault
    rw [ofFile] at h
    split at h
    · next fault' hread =>
      rw [← Except.error.inj h] at hfault
      exact escapesAt_of_readDocument hread hfault
    · split at h
      · exact absurd h (hinvalid _)
      · split at h
        · exact absurd h (hinvalid _)
        · rw [← Except.error.inj h] at hfault
          cases hfault
  · intro h
    obtain ⟨fault, hread, hfault⟩ := h.exists_readDocument
    refine ⟨.document fault, ?_, hfault⟩
    rw [ofFile, hread]

end Config

namespace CommandLine

open Logging

variable {w : Workspace} {load : Yaml.Load} {c : Command} {config : Config}

/-! ### Logging -/

theorem describeWriters_packagedSettings : DescribeWriters packagedSettings.entries := by
  intro inner hinner e he
  cases hinner
  rw [List.mem_singleton.mp he]
  decide +kernel

/-- The settings that come with the program take any level. -/
theorem not_refusesLevel_packagedSettings : ¬ RefusesLevel packagedSettings := by
  rintro (⟨hloggers, hover⟩ | ⟨hhandlers, hmap, -⟩)
  · have hplace : packagedSettings.setting? "loggers" = some (.shared 7) := by rfl
    have hcell : packagedSettings.cellAt 7 = .map [(.text "sorbet_docs", .shared 6)] := by rfl
    obtain rfl := Option.some.inj (hplace.symm.trans hloggers)
    rcases hover with _ | ⟨hlist, -⟩ | ⟨hentries, -, before, e, hbegins, -, hself⟩
    · cases hcell.symm.trans hlist
    · obtain rfl := Yaml.Cell.map.inj (hcell.symm.trans hentries)
      have he := hbegins.subset (List.mem_append_right _ List.mem_cons_self)
      rw [List.mem_singleton.mp he] at hself
      cases hself
  · have hplace : packagedSettings.setting? "handlers" = some (.shared 4) := by rfl
    obtain rfl := Option.some.inj (hplace.symm.trans hhandlers)
    cases hmap

/-- Whatever a command logs is written if its level is one. -/
theorem exists_logLines (hlevel : (Level.ofName? (capitals c.level)).isSome = true) (log : Log) :
    ∃ logged, logLines w c log load = .ok logged := by
  have heffective : (Level.ofName? (capitals c.effectiveLevel)).isSome = true := by
    rw [Command.effectiveLevel]
    -- A verbose list has a level of its own, whatever level is asked for.
    split
    · decide +kernel
    · exact hlevel
  have hfine : ¬ Request.Fails w load { level := c.effectiveLevel } := by
    rintro (hforeign | ⟨-, hread, -⟩ | ⟨-, -, hread, hrefuses⟩)
    · have hname := (of_ofName? heffective).2.1
      exact hname hforeign
    · cases hread
    · cases hread
      exact not_refusesLevel_packagedSettings hrefuses
  have hdescribe : ∀ d, Origin.packaged.document w load = .ok d → DescribeWriters d.entries := by
    intro d hread
    rw [← Except.ok.inj hread]
    exact describeWriters_packagedSettings
  have hls : (Loggers.existing []).CanWrite := Loggers.canWrite_ofNames _
  obtain ⟨ls, hset, hcan, -⟩ := exists_runOn_setUp hfine hdescribe hls
  obtain ⟨_, ls', hwrite, -⟩ := Loggers.onlyWrites_writeAll log ls hcan
  have hrun := Step.runOn_bind_ok hset fun _ => Loggers.writeAll log
  rw [hwrite] at hrun
  exact ⟨ls'.written, congrArg (fun p => p.1.map fun _ => p.2.written) hrun⟩

/-- So nothing but its log is added to the outcome of a command. -/
theorem exists_withLog (hlevel : (Level.ofName? (capitals c.level)).isSome = true) (log : Log)
    (outcome : Outcome) : ∃ logged, outcome.withLog w c log load = { outcome with logged } := by
  obtain ⟨logged, hlogged⟩ : ∃ logged, logLines w c log load = .ok logged :=
    exists_logLines hlevel log
  refine ⟨logged, ?_⟩
  rw [Outcome.withLog, hlogged]

/-! ### Documenting -/

namespace Command

/-- The settings of a command. -/
def settings (w : Workspace) (load : Yaml.Load) (c : Command) : Except ConfigFault Config :=
  match c.config with
  | none => .ok {}
  | some path => Config.ofFile w path.toText load

/-- The sources that a command documents, unless a path is too long. -/
def sources (w : Workspace) (c : Command) (config : Config) : List SourceText :=
  w.sources config (w.filesOf config c.paths)

/-- The store that they make up. -/
def store (w : Workspace) (c : Command) (config : Config) : Store :=
  Run.storeAfter config (c.sources w config)

/-- Whether a path of a command is too long. -/
def isOverlong (w : Workspace) (c : Command) : Bool := c.paths.any w.isOverlong

/-- How a command ends as it foresees: with a status, and with what it prints. -/
inductive Ends (w : Workspace) (load : Yaml.Load) (c : Command) : Nat → List Report.Item → Prop
  /-- The configuration is refused. -/
  | badConfig {fault : ConfigFault} (h : c.settings w load = .error fault) :
      Ends w load c 1 [failurePanel c (.badConfig fault)]
  /-- Nothing is documented. -/
  | nothingDocumented {config : Config} (h : c.settings w load = .ok config)
      (hnone : c.sources w config = []) :
      Ends w load c 1 [failurePanel c (.nothingDocumented c.paths)]
  /-- The object is not there. -/
  | noObject {config : Config} {object : String} (h : c.settings w load = .ok config)
      (hsome : c.sources w config ≠ []) (hgoal : c.goal = .detail object)
      (hfind : (c.store w config).find? object = none) :
      Ends w load c 1 [failurePanel c (.noObject object)]
  /-- The object is shown. -/
  | detail {config : Config} {object : String} {e : Entity} (h : c.settings w load = .ok config)
      (hsome : c.sources w config ≠ []) (hgoal : c.goal = .detail object)
      (hfind : (c.store w config).find? object = some e) : Ends w load c 0 (Report.ofEntity e)
  /-- The objects are listed. -/
  | list {config : Config} {isVerbose : Bool} {items : List Report.Item}
      (h : c.settings w load = .ok config) (hsome : c.sources w config ≠ [])
      (hgoal : c.goal = .list isVerbose)
      (hitems : Report.ofStore (c.store w config) isVerbose = .ok items) : Ends w load c 0 items

/-- Commands whose work ends as none foresees. -/
inductive Escapes (w : Workspace) (load : Yaml.Load) (c : Command) : Prop
  /-- The configuration escapes. -/
  | config {path : PathName} (hpath : c.config = some path)
      (h : Config.EscapesAt w load path.toText) : Escapes w load c
  /-- A path is too long. -/
  | overlong {config : Config} (h : c.settings w load = .ok config)
      (hlong : c.isOverlong w = true) : Escapes w load c
  /-- Objects are to be listed, and no namespace stands at the empty path. -/
  | noRoot {config : Config} {isVerbose : Bool} (h : c.settings w load = .ok config)
      (hlong : c.isOverlong w = false) (hgoal : c.goal = .list isVerbose)
      (hroot : (c.store w config).shapeAt "" ≠ some .namespace) : Escapes w load c

/-- The report of a command begins with an item whose markup cannot be read, and that the console
refuses. -/
def IsRefused (w : Workspace) (libraries : Libraries) (c : Command) : Prop :=
  c.isOverlong w = false ∧ ∃ item rest, c.Ends w libraries.load 0 (item :: rest) ∧
    ¬ item.IsWellMarked ∧ libraries.console.refuses item = true

/-! ### The work of a command -/

/-- How a command ends that has no settings. -/
def endingOf (fault : ConfigFault) : Ending :=
  if fault.isConfigError then .failed (.badConfig fault) else .escaped (.config fault)

/-- To read the configuration gives the settings, or ends the work. -/
theorem run_readConfig (w : Workspace) (load : Yaml.Load) (c : Command) (log : Log) :
    (c.readConfig w load).run.run log = ((c.settings w load).mapError endingOf, log) := by
  rw [readConfig, settings]
  cases c.config with
  | none => rfl
  | some path =>
    dsimp only
    cases Config.ofFile w path.toText load with
    | ok config => rfl
    | error fault => rfl

theorem run_readConfig_ok (h : c.settings w load = .ok config) (log : Log) :
    (c.readConfig w load).run.run log = (.ok config, log) := by
  rw [run_readConfig, h]
  rfl

/-- A path that is too long ends the work of a command. -/
theorem exists_run_document_overlong (hnames : w.HasPathNames) (htrees : w.HasLegibleTrees)
    (h : c.settings w load = .ok config) (hlong : c.isOverlong w = true) (log : Log) :
    ∃ log', (c.document w load).run.run log =
      (.error (.escaped (.run (.badPath .nameTooLong))), log') := by
  obtain ⟨run, hrun, -⟩ :=
    Run.exists_run_processPaths hnames htrees c.paths (Run.start config none)
  have hending : w.ending c.paths = .error (.badPath .nameTooLong) := if_pos hlong
  rw [hending] at hrun
  have hsteps := run_bind_error hrun fun _ => Run.finish
  rw [document, run_bind_ok (run_readConfig_ok h log)]
  dsimp only
  rw [hsteps]
  exact ⟨_, rfl⟩

/-- Otherwise the sources are documented, if there are any. -/
theorem exists_run_document (hnames : w.HasPathNames) (htrees : w.HasLegibleTrees)
    (h : c.settings w load = .ok config) (hlong : c.isOverlong w = false) (log : Log) :
    ∃ log', (c.document w load).run.run log =
      (if c.sources w config = [] then .error (.failed (.nothingDocumented c.paths))
        else .ok (c.store w config), log') := by
  obtain ⟨run, hrun, hleads⟩ :=
    Run.exists_run_processPaths hnames htrees c.paths (Run.start config none)
  have hending : w.ending c.paths = .ok () := if_neg (by rw [← isOverlong, hlong]; decide)
  -- No path is too long, so the run goes through all of them.
  have hreached : w.reached c.paths = c.paths := by
    rw [Workspace.reached, List.takeWhile_eq_self_iff]
    rw [isOverlong, List.any_eq_false] at hlong
    intro p hp
    rw [Bool.not_eq_true', ← Bool.not_eq_true]
    exact hlong p hp
  rw [hreached] at hleads
  rw [hending] at hrun
  obtain ⟨finished, hfinish⟩ := run.exists_run_finish
  have hsteps := run_bind_ok hrun fun _ => Run.finish
  rw [hfinish] at hsteps
  have hlegible : ∀ s ∈ c.sources w config, s.IsLegible := fun s =>
    Workspace.isLegible_of_mem_sources htrees
  have hstore : c.store w config = run.records.store := hleads.agrees.store
  have hprocessed : run.processed = (c.sources w config).map SourceText.path := by
    obtain ⟨-, -, hall⟩ := (Run.start config none).run_processSources hlegible
    rw [← hleads.agrees.processed]
    exact hall
  rw [document, run_bind_ok (run_readConfig_ok h log)]
  dsimp only
  rw [hsteps, hstore, run_bind_ok (a := modify _) rfl]
  dsimp only
  rw [hprocessed]
  cases c.sources w config with
  | nil => exact ⟨_, rfl⟩
  | cons s rest => exact ⟨_, rfl⟩

/-- Without settings nothing is documented. -/
theorem run_document_badConfig {fault : ConfigFault} (h : c.settings w load = .error fault)
    (log : Log) : (c.document w load).run.run log = (.error (endingOf fault), log) := by
  have hread := run_readConfig w load c log
  rw [h] at hread
  rw [document, run_bind_error hread]

/-- The work of a command that escapes ends in what it does not foresee. -/
theorem exists_run_report_of_escapes (hnames : w.HasPathNames) (htrees : w.HasLegibleTrees)
    (h : c.Escapes w load) (log : Log) :
    ∃ escape log', (c.report w load).run.run log = (.error (.escaped escape), log') := by
  rw [report]
  cases h with
  | config hpath hescapes =>
    obtain ⟨fault, hfile, hfault⟩ := Config.exists_ofFile_eq_error_iff.mpr hescapes
    have hsettings : c.settings w load = .error fault := by
      rw [settings, hpath]
      exact hfile
    have hdocument := run_document_badConfig hsettings log
    rw [endingOf, hfault] at hdocument
    rw [run_bind_error hdocument]
    exact ⟨_, _, rfl⟩
  | overlong hsettings hlong =>
    obtain ⟨log', hdocument⟩ := exists_run_document_overlong hnames htrees hsettings hlong log
    rw [run_bind_error hdocument]
    exact ⟨_, _, rfl⟩
  | @noRoot config isVerbose hsettings hlong hgoal hroot =>
    obtain ⟨log', hdocument⟩ := exists_run_document hnames htrees hsettings hlong log
    -- The root of a fresh store is there, so something was documented.
    have hsome : c.sources w config ≠ [] := by
      intro hnone
      rw [store, hnone] at hroot
      exact hroot (Run.shapeAt_start config)
    rw [if_neg hsome] at hdocument
    rw [run_bind_ok hdocument, hgoal]
    dsimp only
    cases hitems : Report.ofStore (c.store w config) isVerbose with
    | ok items =>
      exact absurd ((Run.exists_ofStore_storeAfter_iff config _ isVerbose).mp ⟨items, hitems⟩) hroot
    | error fault => exact ⟨_, _, rfl⟩

/-- A command that does not escape and has no settings tells of its configuration. -/
theorem isConfigError_of_settings (h : ¬ c.Escapes w load) {fault : ConfigFault}
    (hsettings : c.settings w load = .error fault) : fault.isConfigError = true := by
  by_contra hescapes
  rw [Bool.not_eq_true] at hescapes
  rw [settings] at hsettings
  cases hpath : c.config with
  | none =>
    rw [hpath] at hsettings
    cases hsettings
  | some path =>
    rw [hpath] at hsettings
    exact h (.config hpath (Config.exists_ofFile_eq_error_iff.mp ⟨fault, hsettings, hescapes⟩))

/-- The work of a command that ends with a report comes to this report. -/
theorem exists_run_report_of_ends (hnames : w.HasPathNames) (htrees : w.HasLegibleTrees)
    {items : List Report.Item} (hends : c.Ends w load 0 items) (hlong : c.isOverlong w = false)
    (log : Log) : ∃ log', (c.report w load).run.run log = (.ok items, log') := by
  rw [report]
  cases hends with
  | detail hsettings hsome hgoal hfind =>
    obtain ⟨log', hdocument⟩ := exists_run_document hnames htrees hsettings hlong log
    rw [if_neg hsome] at hdocument
    rw [run_bind_ok hdocument, hgoal]
    dsimp only
    rw [hfind]
    exact ⟨log', rfl⟩
  | list hsettings hsome hgoal hitems =>
    obtain ⟨log', hdocument⟩ := exists_run_document hnames htrees hsettings hlong log
    rw [if_neg hsome] at hdocument
    rw [run_bind_ok hdocument, hgoal]
    dsimp only
    rw [hitems]
    exact ⟨log', rfl⟩

/-- The work of a command that does not escape comes to a report or to a fault of its own. -/
theorem exists_run_report (hnames : w.HasPathNames) (htrees : w.HasLegibleTrees)
    (h : ¬ c.Escapes w load) (log : Log) :
    ∃ log', (∃ items, (c.report w load).run.run log = (.ok items, log') ∧
        c.Ends w load 0 items ∧ c.isOverlong w = false) ∨
      ∃ fault, (c.report w load).run.run log = (.error (.failed fault), log') ∧
        c.Ends w load 1 [failurePanel c fault] := by
  cases hsettings : c.settings w load with
  | error fault =>
    have hdocument := run_document_badConfig hsettings log
    rw [endingOf, isConfigError_of_settings h hsettings] at hdocument
    rw [report, run_bind_error hdocument]
    exact ⟨log, .inr ⟨.badConfig fault, rfl, .badConfig hsettings⟩⟩
  | ok config =>
    have hlong : c.isOverlong w = false := by
      by_contra hlong
      rw [Bool.not_eq_false] at hlong
      exact h (.overlong hsettings hlong)
    have hreport : ∀ {items}, c.Ends w load 0 items → ∃ log', ∃ items,
        (c.report w load).run.run log = (.ok items, log') ∧ c.Ends w load 0 items ∧
          c.isOverlong w = false := by
      intro items hends
      obtain ⟨log', hrun⟩ := exists_run_report_of_ends hnames htrees hends hlong log
      exact ⟨log', items, hrun, hends, hlong⟩
    obtain ⟨log', hdocument⟩ := exists_run_document hnames htrees hsettings hlong log
    split at hdocument
    · next hnone =>
      rw [report, run_bind_error hdocument]
      exact ⟨log', .inr ⟨_, rfl, .nothingDocumented hsettings hnone⟩⟩
    · next hsome =>
      cases hgoal : c.goal with
      | list isVerbose =>
        have hroot : (c.store w config).shapeAt "" = some .namespace := by
          by_contra hroot
          exact h (.noRoot hsettings hlong hgoal hroot)
        obtain ⟨items, hitems⟩ := (Run.exists_ofStore_storeAfter_iff config _ isVerbose).mpr hroot
        exact (hreport (.list hsettings hsome hgoal hitems)).imp fun _ => .inl
      | detail object =>
        cases hfind : (c.store w config).find? object with
        | some e => exact (hreport (.detail hsettings hsome hgoal hfind)).imp fun _ => .inl
        | none =>
          refine ⟨log', .inr ⟨.noObject object, ?_, .noObject hsettings hsome hgoal hfind⟩⟩
          rw [report, run_bind_ok hdocument, hgoal]
          dsimp only
          rw [hfind]
          rfl

/-! ### What a command prints -/

/-- A report has a first item, and the markup of the others can be read. -/
theorem Ends.exists_eq_cons {items : List Report.Item} (h : c.Ends w load 0 items) :
    ∃ first rest, items = first :: rest ∧ ∀ item ∈ rest, item.IsWellMarked := by
  cases h with
  | detail => exact Report.exists_ofEntity_eq _
  | list hsettings hsome hgoal hitems => exact Report.exists_of_ofStore_eq_ok hitems

/-- The frame that tells of a fault has markup that can be read. -/
theorem isWellMarked_failurePanel (c : Command) (fault : CommandFault) :
    (failurePanel c fault).IsWellMarked := by
  have htitle : Report.IsPlain ("❌ " ++ c.failureTitle) := by
    rw [failureTitle]
    cases c.goal <;> (dsimp only; decide)
  refine Report.isWellMarked_panel ?_ htitle "red"
  have hmarked : Report.WellMarked (Report.marked "red" (Report.escape fault.message)) :=
    Report.wellMarked_marked (by decide) (.inr ⟨_, rfl⟩)
  exact hmarked

variable {libraries : Libraries}

/-- A command whose work comes to a report prints it last. -/
theorem exists_perform_of_report {items : List Report.Item} {log : Log}
    (hlevel : (Level.ofName? (capitals c.level)).isSome = true)
    (h : (c.report w libraries.load).run.run [] = (.ok items, log)) : ∃ logged,
      c.perform w libraries =
        { Outcome.ofPrinted 0 (libraries.console.print items) with logged } := by
  obtain ⟨logged, hlogged⟩ :=
    exists_withLog hlevel log (Outcome.ofPrinted 0 (libraries.console.print items))
  refine ⟨logged, ?_⟩
  rw [perform, h]
  exact hlogged

/-- A list that can be made is refused if the console refuses the tree in it. -/
theorem isRefused_iff_of_list {config : Config} {isVerbose : Bool}
    (hconsole : libraries.console.ReadsMarkup) (hlong : c.isOverlong w = false)
    (hsettings : c.settings w libraries.load = .ok config) (hsome : c.sources w config ≠ [])
    (hgoal : c.goal = .list isVerbose) : c.IsRefused w libraries ↔
      ((Report.ofStore (c.store w config) isVerbose).toOption.bind List.head?).any
        libraries.console.refuses = true := by
  constructor
  · rintro ⟨-, item, rest, hends, -, hrefused⟩
    cases hends with
    | detail _ _ hdetail => cases hgoal.symm.trans hdetail
    | list hsettings' _ hlist hitems =>
      cases hsettings.symm.trans hsettings'
      cases hgoal.symm.trans hlist
      rw [hitems]
      exact hrefused
  · intro h
    cases hitems : Report.ofStore (c.store w config) isVerbose with
    | error fault =>
      rw [hitems] at h
      cases h
    | ok items =>
      rw [hitems] at h
      cases items with
      | nil => cases h
      | cons item rest =>
        have hrefused : libraries.console.refuses item = true := h
        refine ⟨hlong, item, rest, .list hsettings hsome hgoal hitems, fun hmarked => ?_, hrefused⟩
        cases (hconsole.takes item hmarked).symm.trans hrefused

/-- A class with a reader whose name closes a tag. -/
def slashTree : Node :=
  ⟨"program", true, none, 0, 35, ⟨0, 0⟩, ⟨3, 0⟩, some "class Foo\n  attr_reader \"[/x]\"\nend\n", [
    ⟨"class", true, none, 0, 34, ⟨0, 0⟩, ⟨2, 3⟩, some "class Foo\n  attr_reader \"[/x]\"\nend", [
      ⟨"class", false, none, 0, 5, ⟨0, 0⟩, ⟨0, 5⟩, some "class", []⟩,
      ⟨"constant", true, some "name", 6, 9, ⟨0, 6⟩, ⟨0, 9⟩, some "Foo", []⟩,
      ⟨"body_statement", true, some "body", 12, 30, ⟨1, 2⟩, ⟨1, 20⟩,
        some "attr_reader \"[/x]\"", [
        ⟨"call", true, none, 12, 30, ⟨1, 2⟩, ⟨1, 20⟩, some "attr_reader \"[/x]\"", [
          ⟨"identifier", true, some "method", 12, 23, ⟨1, 2⟩, ⟨1, 13⟩, some "attr_reader", []⟩,
          ⟨"argument_list", true, some "arguments", 24, 30, ⟨1, 14⟩, ⟨1, 20⟩, some "\"[/x]\"", [
            ⟨"string", true, none, 24, 30, ⟨1, 14⟩, ⟨1, 20⟩, some "\"[/x]\"", [
              ⟨"\"", false, none, 24, 25, ⟨1, 14⟩, ⟨1, 15⟩, some "\"", []⟩,
              ⟨"string_content", true, none, 25, 29, ⟨1, 15⟩, ⟨1, 19⟩, some "[/x]", []⟩,
              ⟨"\"", false, none, 29, 30, ⟨1, 19⟩, ⟨1, 20⟩, some "\"", []⟩]⟩]⟩]⟩]⟩,
      ⟨"end", false, none, 31, 34, ⟨2, 0⟩, ⟨2, 3⟩, some "end", []⟩]⟩]⟩

/-- A file with a class, one with that reader, and one with a byte that is no text. -/
def threeFiles : Workspace where
  entries := [
    (["byte.yaml"], .file ⟨#[0xff]⟩ fun _ => .rejected),
    (["foo.rb"], .file "class Foo\nend\n".toByteArray fun _ => .tree Run.emptyClassTree false),
    (["slash.rb"], .file slashTree.written.toByteArray fun _ => .tree slashTree false)]

/-- List what is in a file, with a configuration or without one. -/
def listFile (file : String) (config : Option String) : Command where
  paths := [PathName.ofText file]
  config := config.map PathName.ofText
  level := "info"
  goal := .list false

/-- The settings are read by the library, and tags are read where items are printed. -/
def tagLibraries : Libraries where
  console := Report.tagConsole

end Command

end CommandLine

end RubyDoc

