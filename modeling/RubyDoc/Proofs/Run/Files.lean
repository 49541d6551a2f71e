import RubyDoc.Proofs.Run.Basic
import RubyDoc.Proofs.Walk.Blind
import RubyDoc.Proofs.Workspace

/-!
# Files that fail

A run over files and directories documents the files that it can, as if these had been
given to it as texts, one after the other. A file that is too large, that cannot be
decoded, or that does not parse leaves the store, the fields and the list of documented
files alone, and so does a path that leads nowhere. A path that is longer than paths can
be is no such failure: it ends the run.
-/

namespace RubyDoc

open RubyDoc.Action

/-! ### Walks of legible trees -/

/-- Statements that can be told are gone through without a fault. -/
theorem exists_runOn_walkAll (c : Context) {body : List Statement}
    (h : ∀ s ∈ body, ∀ site, s ≠ .illegible site) (r : Records) :
    ∃ r', runOn (walkAll c body) r = (.ok (), r') := by
  induction body generalizing c r with
  | nil =>
    rw [walkAll]
    exact ⟨r, rfl⟩
  | cons s rest ih =>
    obtain ⟨hs, hrest⟩ := List.forall_mem_cons.mp h
    obtain ⟨r₁, hwalk⟩ := exists_runOn_walk c hs r
    rw [walkAll, runOn_bind_ok hwalk]
    exact ih _ hrest r₁

/-- A legible tree is gone through without a fault. -/
theorem exists_runOn_walkSource (config : Config) {source : Source}
    (h : source.root.IsLegible) (r : Records) :
    ∃ r', runOn (walkSource config source) r = (.ok (), r') := by
  refine exists_runOn_walkAll _ (fun s hs => ?_) r
  obtain ⟨site, hsite, rfl⟩ := List.mem_map.mp hs
  have hlegible : site.node.IsLegible := Node.everywhere_of_mem_bodySites h hsite
  exact Site.statement_ne_illegible hlegible

/-- A text that parses into a legible tree. -/
def SourceText.IsLegible (s : SourceText) : Prop :=
  ∃ source, s.source? = some source ∧ source.root.IsLegible

namespace Run

/-! ### Documenting sources -/

/-- Document sources one after the other. -/
def processSources : List SourceText → RunAction Unit
  | [] => return
  | s :: rest => do
    processSource s.text s.path s.outcome
    processSources rest

/-- A source with a legible tree is documented without a fault. -/
theorem exists_run_processSource (run : Run) {s : SourceText} {source : Source}
    (hs : s.source? = some source) (hroot : source.root.IsLegible) :
    ∃ log, (processSource s.text s.path s.outcome).run.run run =
      (.ok (), { run with records := (runOn (walkSource run.config source)
                            { run.records with overridden := [], log }).2
                          processed := run.processed ++ [s.path] }) := by
  obtain ⟨log, hrun⟩ := run.exists_run_processSource_eq hs
  obtain ⟨r, hwalk⟩ := exists_runOn_walkSource run.config hroot
    { run.records with overridden := [], log }
  refine ⟨log, ?_⟩
  rw [hrun, run_walkAfresh, hwalk]

/-- Runs with the same settings that have documented the same. What was logged is left
open, and so is what failed. -/
structure Agrees (run run' : Run) : Prop where
  /-- The settings are the same. -/
  config : run.config = run'.config
  /-- The stores are the same. -/
  store : run.records.store = run'.records.store
  /-- The fields are the same. -/
  fields : run.records.fields = run'.records.fields
  /-- The documented files are the same. -/
  processed : run.processed = run'.processed

variable {run run' : Run}

theorem Agrees.refl (run : Run) : run.Agrees run := ⟨rfl, rfl, rfl, rfl⟩

theorem Agrees.trans {run'' : Run} (h : run.Agrees run') (h' : run'.Agrees run'') :
    run.Agrees run'' :=
  ⟨h.config.trans h'.config, h.store.trans h'.store, h.fields.trans h'.fields,
    h.processed.trans h'.processed⟩

/-- A source is documented in the same way in runs that agree. -/
theorem Agrees.document (h : run.Agrees run') {s : SourceText} (hs : s.IsLegible) :
    (run.document s).Agrees (run'.document s) := by
  obtain ⟨source, hsource, hroot⟩ := hs
  obtain ⟨log, hrun⟩ := run.exists_run_processSource hsource hroot
  obtain ⟨log', hrun'⟩ := run'.exists_run_processSource hsource hroot
  have hstart : Records.SameButLog { run.records with overridden := [], log }
      { run'.records with overridden := [], log := log' } := ⟨h.store, h.fields, rfl⟩
  have hwalk := (isBlind_walkSource run.config source hstart).2
  rw [Run.document, Run.document, hrun, hrun', ← h.config]
  exact ⟨rfl, hwalk.store, hwalk.fields, by rw [h.processed]⟩

/-- A legible source is added to the documented files, and the settings stay. -/
theorem run_processSource (run : Run) {s : SourceText} (hs : s.IsLegible) :
    (processSource s.text s.path s.outcome).run.run run = (.ok (), run.document s) ∧
      (run.document s).config = run.config ∧
      (run.document s).processed = run.processed ++ [s.path] ∧
      (run.document s).failed = run.failed := by
  obtain ⟨source, hsource, hroot⟩ := hs
  obtain ⟨log, hrun⟩ := run.exists_run_processSource hsource hroot
  rw [Run.document, hrun]
  exact ⟨rfl, rfl, rfl, rfl⟩

/-- Legible sources are documented one after the other, without a fault. -/
theorem run_processSources (run : Run) {sources : List SourceText}
    (h : ∀ s ∈ sources, s.IsLegible) :
    (processSources sources).run.run run = (.ok (), run.documentAll sources) ∧
      (run.documentAll sources).config = run.config ∧
      (run.documentAll sources).processed = run.processed ++ sources.map SourceText.path := by
  induction sources generalizing run with
  | nil => exact ⟨rfl, rfl, (List.append_nil _).symm⟩
  | cons s rest ih =>
    obtain ⟨hs, hrest⟩ := List.forall_mem_cons.mp h
    obtain ⟨hrun, hconfig, hprocessed, -⟩ := run.run_processSource hs
    obtain ⟨hruns, hconfigs, hall⟩ := ih (run.document s) hrest
    rw [processSources, run_bind_ok hrun, documentAll, List.foldl_cons]
    refine ⟨hruns, hconfigs.trans hconfig, hall.trans ?_⟩
    rw [hprocessed, List.map_cons, List.append_assoc, List.singleton_append]

/-- Sources are documented in the same way in runs that agree. -/
theorem Agrees.documentAll (h : run.Agrees run') {sources : List SourceText}
    (hsources : ∀ s ∈ sources, s.IsLegible) :
    (run.documentAll sources).Agrees (run'.documentAll sources) := by
  induction sources generalizing run run' with
  | nil => exact h
  | cons s rest ih =>
    obtain ⟨hs, hrest⟩ := List.forall_mem_cons.mp hsources
    exact ih (h.document hs) hrest

end Run

namespace Workspace

variable {w : Workspace} {config : Config} {p : PathName}

/-! ### Collected files -/

/-- What is collected from a directory lies below it. -/
theorem nul_notMem_of_mem_filesBelow (hnames : w.HasPathNames) (hp : '\x00' ∉ p.toText.toList)
    {directory : List String} {f : PathName} (hf : f ∈ Run.filesBelow w config p directory) :
    '\x00' ∉ f.toText.toList := by
  rw [Run.filesBelow, List.mem_mergeSort] at hf
  obtain ⟨inner, hinner, rfl⟩ := List.mem_map.mp (List.mem_filter.mp hf).1
  obtain ⟨e, he, hfound⟩ := List.mem_filterMap.mp hinner
  refine PathName.nul_notMem_append hp fun part hpart => hnames e he part ?_
  split at hfound
  · cases hfound
  · split at hfound
    · rw [← Option.some.inj hfound] at hpart
      exact List.mem_of_mem_drop hpart
    · cases hfound

/-- The files that a path stands for; none if it leads nowhere. -/
def collected (w : Workspace) (config : Config) (p : PathName) : List PathName :=
  match w.resolve p.toText with
  | .ok (directory, .directory) => Run.filesBelow w config p directory
  | .ok (_, .file _ _) => [p]
  | .error _ => []

/-- The text of a path if it leads nowhere. -/
def missing (w : Workspace) (p : PathName) : List String :=
  match w.resolve p.toText with
  | .ok _ => []
  | .error _ => [p.toText]

/-- Whether a path, or the path of something inside a directory that it leads to, is longer
than paths can be. -/
def isOverlong (w : Workspace) (p : PathName) : Bool :=
  match w.resolve p.toText with
  | .ok (directory, .directory) => Run.isTooDeep w p directory
  | .ok (_, .file _ _) => false
  | .error cause => cause == .nameTooLong

/-- A name of more than 255 bytes makes a path too long. -/
theorem isOverlong_of_longName {name : String} (hlong : 255 < name.utf8ByteSize)
    (hslash : '/' ∉ name.toList) (hnul : '\x00' ∉ name.toList) :
    w.isOverlong { parts := [name] } = true := by
  have hne : (name == "") = false := by
    refine beq_eq_false_iff_ne.mpr fun heq => ?_
    rw [heq] at hlong
    exact absurd hlong (by decide)
  have htext : PathName.toText { parts := [name] } = name := by
    rw [PathName.toText, String.intercalate_singleton, String.empty_append, hne]
    rfl
  rw [isOverlong, htext, resolve_of_longName hlong hslash hnul]
  rfl

/-- Collected files have no nul character in their paths. -/
theorem nul_notMem_of_mem_collected (hnames : w.HasPathNames) {f : PathName}
    (hf : f ∈ w.collected config p) : '\x00' ∉ f.toText.toList := by
  have hp : ∀ found, w.resolve p.toText = .ok found → '\x00' ∉ p.toText.toList := by
    intro found hfound hnul
    rw [resolve_eq_nulInPath_iff.mpr hnul] at hfound
    cases hfound
  rw [collected] at hf
  split at hf
  · next hfound => exact nul_notMem_of_mem_filesBelow hnames (hp _ hfound) hf
  · next hfound =>
    rw [List.mem_singleton.mp hf]
    exact hp _ hfound
  · cases hf

end Workspace

/-! ### What becomes of a file -/

/-- What becomes of a file. -/
inductive FileFate where
  /-- It is documented. -/
  | documented (s : SourceText)
  /-- It is left out with so many bytes. -/
  | tooLarge (size : Nat)
  /-- It cannot be read, decoded or parsed. -/
  | failing (fault : RunFault)

namespace FileFate

/-- The source that a file is documented as. -/
def source? : FileFate → Option SourceText
  | documented s => some s
  | _ => none

/-- Whether a file is documented. -/
def isDocumented : FileFate → Bool
  | documented _ => true
  | _ => false

/-- Whether a file is left out. -/
def isTooLarge : FileFate → Bool
  | tooLarge _ => true
  | _ => false

/-- Whether a file fails. -/
def isFailing : FileFate → Bool
  | failing _ => true
  | _ => false

end FileFate

namespace Workspace

variable {w : Workspace} {config : Config} {p : PathName} {fault : RunFault} {s : SourceText}

/-- What becomes of a file: it is documented if it is small enough, decodes and parses. -/
def fate (w : Workspace) (config : Config) (p : PathName) : FileFate :=
  match w.resolve p.toText with
  | .error .nulInPath => .failing (.badPath .nulInPath)
  | .error cause => .failing (.unreadable p.toText cause)
  | .ok (_, .directory) => .failing (.unreadable p.toText .isDirectory)
  | .ok (_, .file content parse) =>
    if config.maxFileSize < content.size then .tooLarge content.size
    else
      match decodeLines content with
      | .error cause => .failing (.unreadable p.toText cause)
      | .ok text =>
        match parse text with
        | .rejected => .failing (.unparsed p.toText)
        | .tree root hasErrors =>
          .documented { text, path := p.toText, outcome := .tree root hasErrors }

/-- The sources that files are documented as. -/
def sources (w : Workspace) (config : Config) (files : List PathName) : List SourceText :=
  files.filterMap fun p => (w.fate config p).source?

/-- The texts of the paths of files that fail. -/
def failing (w : Workspace) (config : Config) (files : List PathName) : List String :=
  (files.filter fun p => (w.fate config p).isFailing).map PathName.toText

theorem sources_append (w : Workspace) (config : Config) (files files' : List PathName) :
    w.sources config (files ++ files') = w.sources config files ++ w.sources config files' :=
  List.filterMap_append

theorem failing_append (w : Workspace) (config : Config) (files files' : List PathName) :
    w.failing config (files ++ files') = w.failing config files ++ w.failing config files' := by
  rw [failing, List.filter_append, List.map_append, failing, failing]

/-- A documented file is one with a legible tree, under its own path. -/
theorem isLegible_of_fate (htrees : w.HasLegibleTrees) (h : w.fate config p = .documented s) :
    s.IsLegible ∧ s.path = p.toText := by
  rw [fate] at h
  split at h
  · cases h
  · cases h
  · cases h
  · next parts content parse hresolve =>
    split at h
    · cases h
    · split at h
      · cases h
      · next text htext =>
        split at h
        · cases h
        · next root hasErrors hparse =>
          rw [← FileFate.documented.inj h]
          refine ⟨⟨_, rfl, ?_⟩, rfl⟩
          exact htrees _ (mem_entries_of_resolve hresolve) content parse rfl text root hasErrors
            htext hparse

/-- What makes a file fail is a fault of the file, unless its path has a nul character. -/
theorem fault_of_fate (hp : '\x00' ∉ p.toText.toList) (h : w.fate config p = .failing fault) :
    (∃ path cause, fault = .unreadable path cause) ∨ ∃ path, fault = .unparsed path := by
  rw [fate] at h
  split at h
  · next hnul => exact absurd (resolve_eq_nulInPath_iff.mp hnul) hp
  · exact .inl ⟨_, _, (FileFate.failing.inj h).symm⟩
  · exact .inl ⟨_, _, (FileFate.failing.inj h).symm⟩
  · split at h
    · cases h
    · split at h
      · exact .inl ⟨_, _, (FileFate.failing.inj h).symm⟩
      · split at h
        · exact .inr ⟨_, (FileFate.failing.inj h).symm⟩
        · cases h

theorem isLegible_of_mem_sources (htrees : w.HasLegibleTrees) {files : List PathName}
    (hs : s ∈ w.sources config files) : s.IsLegible := by
  obtain ⟨p, -, hfate⟩ := List.mem_filterMap.mp hs
  cases h : w.fate config p with
  | documented s' =>
    rw [h] at hfate
    rw [← Option.some.inj hfate]
    exact (isLegible_of_fate htrees h).1
  | tooLarge | failing =>
    rw [h] at hfate
    cases hfate

/-- Sources are recorded under the paths of the files that are documented. -/
theorem map_path_sources (htrees : w.HasLegibleTrees) (config : Config) (files : List PathName) :
    (w.sources config files).map SourceText.path =
      (files.filter fun p => (w.fate config p).isDocumented).map PathName.toText := by
  induction files with
  | nil => rfl
  | cons p rest ih =>
    rw [sources] at ih ⊢
    cases h : w.fate config p with
    | documented s =>
      rw [List.filterMap_cons_some (by rw [h]; rfl), List.filter_cons_of_pos (by rw [h]; rfl),
        List.map_cons, List.map_cons, ih, (isLegible_of_fate htrees h).2]
    | tooLarge | failing =>
      rw [List.filterMap_cons_none (by rw [h]; rfl),
        List.filter_cons_of_neg (by rw [h]; exact Bool.noConfusion), ih]

/-- Every file is documented, failing or too large, and no file is two of these. -/
theorem perm_fates (w : Workspace) (config : Config) (files : List PathName) :
    ((files.filter fun p => (w.fate config p).isDocumented) ++
        (files.filter fun p => (w.fate config p).isFailing) ++
          (files.filter fun p => (w.fate config p).isTooLarge)).Perm files := by
  have hfailing : (files.filter fun p => (w.fate config p).isFailing) =
      (files.filter fun p => !(w.fate config p).isDocumented).filter fun p =>
        (w.fate config p).isFailing := by
    rw [List.filter_filter]
    refine List.filter_congr fun p _ => ?_
    cases w.fate config p <;> rfl
  have htooLarge : (files.filter fun p => (w.fate config p).isTooLarge) =
      (files.filter fun p => !(w.fate config p).isDocumented).filter fun p =>
        !(w.fate config p).isFailing := by
    rw [List.filter_filter]
    refine List.filter_congr fun p _ => ?_
    cases w.fate config p <;> rfl
  rw [hfailing, htooLarge, List.append_assoc]
  exact ((List.filter_append_perm _ _).append_left _).trans (List.filter_append_perm _ _)

end Workspace

namespace Run

/-! ### Documenting files -/

variable {w : Workspace} {run run₁ run₂ : Run} {sources sources' : List SourceText}
  {failures failures' : List String}

/-- What a run has come to behind another one: some sources were documented, and some paths
failed. -/
structure LeadsTo (run : Run) (sources : List SourceText) (failures : List String) (run₁ : Run) :
    Prop where
  /-- The sources were documented as if they had been given as texts. -/
  agrees : (run.documentAll sources).Agrees run₁
  /-- The paths that failed were noted behind the others. -/
  failed : run₁.failed = run.failed ++ failures

theorem LeadsTo.refl (run : Run) : run.LeadsTo [] [] run := ⟨.refl run, (List.append_nil _).symm⟩

/-- Of what is logged no account is taken. -/
theorem LeadsTo.logged (run : Run) (log : Log) (failures : List String) :
    run.LeadsTo [] failures
      { run with records := { run.records with log }, failed := run.failed ++ failures } :=
  ⟨⟨rfl, rfl, rfl, rfl⟩, rfl⟩

/-- What came first and what came then. -/
theorem LeadsTo.trans (h : run.LeadsTo sources failures run₁) (h' : run₁.LeadsTo sources' failures' run₂)
    (hsources : ∀ s ∈ sources', s.IsLegible) :
    run.LeadsTo (sources ++ sources') (failures ++ failures') run₂ := by
  have hboth := h.agrees.documentAll hsources
  have hfailed : run₂.failed = run.failed ++ (failures ++ failures') := by
    rw [h'.failed, h.failed, List.append_assoc]
  rw [documentAll, documentAll, ← List.foldl_append] at hboth
  exact ⟨hboth.trans h'.agrees, hfailed⟩

/-- The settings stay. -/
theorem LeadsTo.config (h : run.LeadsTo sources failures run₁) (hsources : ∀ s ∈ sources, s.IsLegible) :
    run₁.config = run.config := by
  obtain ⟨-, hconfig, -⟩ := run.run_processSources hsources
  rw [← h.agrees.config, hconfig]

/-- A log entry is made and nothing else. -/
theorem run_note (run : Run) (level : Level) (message : String) :
    (note level message).run.run run =
      (.ok (), { run with records := { run.records with
        log := run.records.log ++ [{ level, channel := .processor, message }] } }) :=
  run_act_ok (runOn_note level .processor message run.records)

/-- Documenting a file does what becomes of the file. -/
theorem run_processFile (w : Workspace) (p : PathName) (run : Run) :
    (processFile w p).run.run run =
      (match w.fate run.config p with
      | .documented s => do
        processSource s.text s.path s.outcome
        return true
      | .tooLarge size => do
        note .warning ("Skipping large file: " ++ p.toText ++ " (" ++ toString size ++ " bytes)")
        return false
      | .failing fault => throw fault : RunAction Bool).run.run run := by
  rw [processFile, Workspace.fate]
  cases hresolve : w.resolve p.toText with
  | error cause => cases cause <;> rfl
  | ok found =>
    obtain ⟨parts, item⟩ := found
    cases item with
    | directory => rfl
    | file content parse =>
      dsimp only
      rw [run_bind_ok (a := get) (x := run) rfl]
      split
      · rfl
      · cases htext : Workspace.decodeLines content with
        | error cause => rfl
        | ok text =>
          dsimp only
          cases parse text <;> rfl

/-- One collected file is documented, left out or noted as failed; the run goes on after it. -/
theorem exists_run_processCollected (htrees : w.HasLegibleTrees) {p : PathName}
    (hp : '\x00' ∉ p.toText.toList) (run : Run) :
    ∃ run₁, (processCollected w p).run.run run = (.ok (), run₁) ∧
      run.LeadsTo (w.sources run.config [p]) (w.failing run.config [p]) run₁ := by
  have hfile := run_processFile w p run
  rw [Workspace.sources, Workspace.failing, processCollected, run_tryCatch]
  cases hfate : w.fate run.config p with
  | documented s =>
    have hlegible := (Workspace.isLegible_of_fate htrees hfate).1
    obtain ⟨hrun, -, -, hfailed⟩ := run.run_processSource hlegible
    rw [hfate] at hfile
    dsimp only at hfile
    rw [run_bind_ok hrun] at hfile
    rw [run_bind_ok hfile, List.filterMap_cons_some (by rw [hfate]; rfl),
      List.filter_cons_of_neg (by rw [hfate]; exact Bool.noConfusion)]
    refine ⟨_, rfl, .refl _, ?_⟩
    rw [hfailed]
    exact (List.append_nil _).symm
  | tooLarge size =>
    rw [hfate] at hfile
    dsimp only at hfile
    rw [run_bind_ok (run_note run _ _)] at hfile
    rw [run_bind_ok hfile, List.filterMap_cons_none (by rw [hfate]; rfl),
      List.filter_cons_of_neg (by rw [hfate]; exact Bool.noConfusion)]
    refine ⟨_, rfl, ⟨rfl, rfl, rfl, rfl⟩, ?_⟩
    exact (List.append_nil _).symm
  | failing fault =>
    rw [hfate] at hfile
    have hthrow : (processFile w p).run.run run = (.error fault, run) := hfile
    rw [run_bind_error hthrow, List.filterMap_cons_none (by rw [hfate]; rfl),
      List.filter_cons_of_pos (by rw [hfate]; rfl)]
    rcases Workspace.fault_of_fate hp hfate with ⟨path, cause, rfl⟩ | ⟨path, rfl⟩
    · exact ⟨_, run_bind_ok (run_note run .error _) _, .logged run _ [p.toText]⟩
    · exact ⟨_, run_bind_ok (run_note run .error _) _, .logged run _ [p.toText]⟩

/-- Collected files are documented one after the other, be there failures among them or
not. -/
theorem exists_run_processAllCollected (htrees : w.HasLegibleTrees) {files : List PathName}
    (hfiles : ∀ f ∈ files, '\x00' ∉ f.toText.toList) (run : Run) :
    ∃ run₁, (processAllCollected w files).run.run run = (.ok (), run₁) ∧
      run.LeadsTo (w.sources run.config files) (w.failing run.config files) run₁ := by
  induction files generalizing run with
  | nil => exact ⟨run, rfl, .refl run⟩
  | cons p rest ih =>
    obtain ⟨hp, hrest⟩ := List.forall_mem_cons.mp hfiles
    obtain ⟨run₁, hrun₁, hleads₁⟩ := exists_run_processCollected htrees hp run
    obtain ⟨run₂, hrun₂, hleads₂⟩ := ih hrest run₁
    have hconfig := hleads₁.config fun s => Workspace.isLegible_of_mem_sources htrees
    rw [hconfig] at hleads₂
    have hboth := hleads₁.trans hleads₂ fun s => Workspace.isLegible_of_mem_sources htrees
    rw [← Workspace.sources_append, ← Workspace.failing_append, List.singleton_append] at hboth
    rw [processAllCollected, run_bind_ok hrun₁]
    exact ⟨run₂, hrun₂, hboth⟩

/-! ### Documenting paths -/

/-- The files of a path are collected unless a path is too long. A path that leads nowhere
is noted as failed. -/
theorem exists_run_collectFiles {p : PathName} (hp : w.isOverlong p = false) (run : Run) :
    ∃ run₁, (collectFiles w p).run.run run = (.ok (w.collected run.config p), run₁) ∧
      run.LeadsTo [] (w.missing p) run₁ := by
  rw [Workspace.isOverlong] at hp
  rw [collectFiles, Workspace.collected, Workspace.missing]
  cases hresolve : w.resolve p.toText with
  | error cause =>
    rw [hresolve] at hp
    cases cause with
    | nameTooLong => cases hp
    | _ => exact ⟨_, run_bind_ok (run_note run .error _) _, .logged run _ [p.toText]⟩
  | ok found =>
    obtain ⟨parts, item⟩ := found
    rw [hresolve] at hp
    cases item with
    | directory =>
      dsimp only at hp ⊢
      rw [hp]
      exact ⟨run, rfl, .refl run⟩
    | file content parse => exact ⟨run, rfl, .refl run⟩

/-- A path that is too long ends the run. -/
theorem run_collectFiles_overlong {p : PathName} (hp : w.isOverlong p = true) (run : Run) :
    (collectFiles w p).run.run run = (.error (.badPath .nameTooLong), run) := by
  rw [Workspace.isOverlong] at hp
  rw [collectFiles]
  cases hresolve : w.resolve p.toText with
  | error cause =>
    rw [hresolve] at hp
    rw [beq_iff_eq.mp hp]
    rfl
  | ok found =>
    obtain ⟨parts, item⟩ := found
    rw [hresolve] at hp
    cases item with
    | directory =>
      dsimp only at hp ⊢
      rw [hp]
      rfl
    | file content parse => cases hp

end Run

namespace Workspace

/-- The paths in front of the first one that is too long. -/
def reached (w : Workspace) (paths : List PathName) : List PathName :=
  paths.takeWhile fun p => !w.isOverlong p

/-- The files that paths stand for. -/
def filesOf (w : Workspace) (config : Config) (paths : List PathName) : List PathName :=
  paths.flatMap (w.collected config)

/-- The paths that lead nowhere and the files that fail, in the order in which the run comes
by them. -/
def failures (w : Workspace) (config : Config) (paths : List PathName) : List String :=
  paths.flatMap fun p => w.missing p ++ w.failing config (w.collected config p)

/-- How a run over paths ends: with a fault if one of them is too long. -/
def ending (w : Workspace) (paths : List PathName) : Except RunFault Unit :=
  if paths.any w.isOverlong then .error (.badPath .nameTooLong) else .ok ()

end Workspace

namespace Run

variable {w : Workspace}

/-- The files of one path are documented, be there failures among them or not. -/
theorem exists_run_processPath (hnames : w.HasPathNames) (htrees : w.HasLegibleTrees)
    {p : PathName} (hp : w.isOverlong p = false) (run : Run) :
    ∃ run₁, (collectFiles w p >>= processAllCollected w).run.run run = (.ok (), run₁) ∧
      run.LeadsTo (w.sources run.config (w.collected run.config p))
        (w.missing p ++ w.failing run.config (w.collected run.config p)) run₁ := by
  obtain ⟨run₁, hcollected, hleads₁⟩ := exists_run_collectFiles hp run
  have hfiles : ∀ f ∈ w.collected run.config p, '\x00' ∉ f.toText.toList := fun f =>
    Workspace.nul_notMem_of_mem_collected hnames
  obtain ⟨run₂, hprocessed, hleads₂⟩ := exists_run_processAllCollected htrees hfiles run₁
  rw [hleads₁.config fun s hs => absurd hs List.not_mem_nil] at hleads₂
  rw [run_bind_ok hcollected]
  exact ⟨run₂, hprocessed,
    hleads₁.trans hleads₂ fun s => Workspace.isLegible_of_mem_sources htrees⟩

/-- The paths are gone through up to the first one that is too long. -/
theorem exists_run_processEach (hnames : w.HasPathNames) (htrees : w.HasLegibleTrees)
    (paths : List PathName) (run : Run) :
    ∃ run₁, (processEach w paths).run.run run = (w.ending paths, run₁) ∧
      run.LeadsTo (w.sources run.config (w.filesOf run.config (w.reached paths)))
        (w.failures run.config (w.reached paths)) run₁ := by
  induction paths generalizing run with
  | nil => exact ⟨run, rfl, .refl run⟩
  | cons p rest ih =>
    have hstep : processEach w (p :: rest) =
        (collectFiles w p >>= processAllCollected w) >>= fun _ => processEach w rest := by
      rw [processEach, bind_assoc]
    rw [hstep]
    cases hp : w.isOverlong p with
    | true =>
      have hending : w.ending (p :: rest) = .error (.badPath .nameTooLong) :=
        if_pos (by rw [List.any_cons, hp, Bool.true_or])
      have hreached : w.reached (p :: rest) = [] :=
        List.takeWhile_cons_of_neg (by rw [hp]; exact Bool.noConfusion)
      have hcollect := run_bind_error (run_collectFiles_overlong hp run) (processAllCollected w)
      rw [hending, hreached, run_bind_error hcollect]
      exact ⟨run, rfl, .refl run⟩
    | false =>
      have hending : w.ending (p :: rest) = w.ending rest := by
        rw [Workspace.ending, List.any_cons, hp, Bool.false_or, Workspace.ending]
      have hreached : w.reached (p :: rest) = p :: w.reached rest :=
        List.takeWhile_cons_of_pos (by rw [hp]; rfl)
      obtain ⟨run₁, hrun₁, hleads₁⟩ := exists_run_processPath hnames htrees hp run
      obtain ⟨run₂, hrun₂, hleads₂⟩ := ih run₁
      rw [hleads₁.config fun s => Workspace.isLegible_of_mem_sources htrees] at hleads₂
      have hboth := hleads₁.trans hleads₂ fun s => Workspace.isLegible_of_mem_sources htrees
      rw [← Workspace.sources_append] at hboth
      rw [hending, hreached, run_bind_ok hrun₁]
      exact ⟨run₂, hrun₂, hboth⟩

/-- What a run over paths comes to: the last log entry changes nothing else. -/
theorem exists_run_processPaths (hnames : w.HasPathNames) (htrees : w.HasLegibleTrees)
    (paths : List PathName) (run : Run) :
    ∃ run₁, (processPaths w paths).run.run run = (w.ending paths, run₁) ∧
      run.LeadsTo (w.sources run.config (w.filesOf run.config (w.reached paths)))
        (w.failures run.config (w.reached paths)) run₁ := by
  obtain ⟨run₁, hrun₁, hleads⟩ := exists_run_processEach hnames htrees paths run
  rw [processPaths]
  cases hending : w.ending paths with
  | error fault =>
    rw [hending] at hrun₁
    rw [run_bind_error hrun₁]
    exact ⟨run₁, rfl, hleads⟩
  | ok done =>
    rw [hending] at hrun₁
    rw [run_bind_ok hrun₁, run_bind_ok (a := get) (x := run₁) rfl, run_note]
    obtain ⟨⟨hconfig, hstore, hfields, hprocessed⟩, hfailed⟩ := hleads
    exact ⟨_, rfl, ⟨hconfig, hstore, hfields, hprocessed⟩, hfailed⟩

/-- In front of other paths, one with too long a name ends the run before anything is
documented, and is not noted as failed. -/
theorem processPaths_longName {name : String} (hlong : 255 < name.utf8ByteSize)
    (hslash : '/' ∉ name.toList) (hnul : '\x00' ∉ name.toList) (paths : List PathName) (run : Run) :
    (processPaths w ({ parts := [name] } :: paths)).run.run run =
      (.error (.badPath .nameTooLong), run) := by
  have hcollect := run_collectFiles_overlong (w.isOverlong_of_longName hlong hslash hnul) run
  rw [processPaths, processEach, run_bind_error (run_bind_error hcollect _)]

/-! ### A directory with failing files -/

/-- A class without a body. -/
def emptyClassTree : Node :=
  ⟨"program", true, none, 0, 14, ⟨0, 0⟩, ⟨2, 0⟩, some "class Foo\nend\n", [
    ⟨"class", true, none, 0, 13, ⟨0, 0⟩, ⟨1, 3⟩, some "class Foo\nend", [
      ⟨"class", false, none, 0, 5, ⟨0, 0⟩, ⟨0, 5⟩, some "class", []⟩,
      ⟨"constant", true, some "name", 6, 9, ⟨0, 6⟩, ⟨0, 9⟩, some "Foo", []⟩,
      ⟨"end", false, none, 10, 13, ⟨1, 0⟩, ⟨1, 3⟩, some "end", []⟩]⟩]⟩

/-- A directory with a class, with bytes that are no text, with a text that is refused, with
more than twenty bytes, and with a file that is not asked for. -/
def mixedDirectory : Workspace where
  entries := [
    (["lib"], .directory),
    (["lib", "bytes.rb"], .file ⟨#[0xff]⟩ fun _ => .rejected),
    (["lib", "foo.rb"], .file "class Foo\nend\n".toByteArray fun _ => .tree emptyClassTree false),
    (["lib", "large.rb"], .file "class Foo::Bar::Baz\nend\n".toByteArray fun _ => .rejected),
    (["lib", "refused.rb"], .file "(".toByteArray fun _ => .rejected),
    (["lib", "notes.txt"], .file "".toByteArray fun _ => .rejected)]

/-- The directory, and a file that is not there. -/
def mixedPaths : List PathName := [PathName.ofText "lib", PathName.ofText "gone.rb"]

/-- The files of the directory, in their order. -/
def mixedFiles : List PathName :=
  ["lib/bytes.rb", "lib/foo.rb", "lib/large.rb", "lib/refused.rb"].map PathName.ofText

theorem collected_mixedDirectory :
    mixedDirectory.collected { maxFileSize := 20 } (PathName.ofText "lib") = mixedFiles := by
  have hsorted : mixedFiles.mergeSort PathName.le = mixedFiles :=
    List.mergeSort_of_pairwise (by decide +kernel)
  have hfound : ((mixedDirectory.filesIn ["lib"]).map (PathName.ofText "lib").append).filter
      (fun f => f.isSupported [".rb", ".rbi"]) = mixedFiles := by decide +kernel
  have hbelow : filesBelow mixedDirectory { maxFileSize := 20 } (PathName.ofText "lib") ["lib"] =
      mixedFiles := by
    rw [filesBelow, hfound, hsorted]
  exact hbelow

end Run

end RubyDoc
