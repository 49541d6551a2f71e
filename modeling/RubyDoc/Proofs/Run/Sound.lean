import RubyDoc.Proofs.Run.Constructors
import RubyDoc.Proofs.Walk.History
import RubyDoc.Proofs.Walk.Sound

/-!
# The store of a run is sound

A run of a fresh processor is given sources, files and paths, one after the other.
Whatever the trees of the sources are, the records pass through steps of walks only,
and these read nothing but the sources that are given. So every state on the way is one
that steps lead to from the fresh records. The store is sound in all of these states,
and no step takes a path away or moves it.
-/

namespace RubyDoc

/-- A source that a workspace has at a path: the file there is a text, and the text is parsed. -/
inductive Workspace.HasSource (w : Workspace) (p : PathName) : Source → Prop
  | intro {place : List String} {content : ByteArray} {parse : String → ParseOutcome}
      {text : String} {root : Node} {hasErrors : Bool}
      (hfile : w.resolve p.toText = .ok (place, .file content parse))
      (htext : Workspace.decodeLines content = .ok text)
      (htree : parse text = .tree root hasErrors) :
      HasSource w p (Source.ofTree root text p.toText hasErrors)

namespace Run

open RubyDoc.Action

variable {α β : Type} {given : Source → Prop}

/-- An action on a run takes its records by a history that reads only sources that are given. -/
def ReadsOnly (given : Source → Prop) (a : RunAction α) : Prop :=
  ∀ run : Run, run.records.ReadsTo given (a.run.run run).2.records

theorem readsOnly_pure (a : α) : ReadsOnly given (pure a) := fun run => .refl run.records

theorem readsOnly_throw (fault : RunFault) : ReadsOnly given (throw fault : RunAction α) :=
  fun run => .refl run.records

theorem readsOnly_get : ReadsOnly given (get : RunAction Run) := fun run => .refl run.records

/-- Which files were processed or failed is no part of the records. -/
theorem readsOnly_modify {f : Run → Run} (h : ∀ run, (f run).records = run.records) :
    ReadsOnly given (modify f : RunAction Unit) := by
  intro run
  have hkept : run.records.ReadsTo given (f run).records := by
    rw [h run]
    exact .refl run.records
  exact hkept

theorem ReadsOnly.bind {a : RunAction α} {f : α → RunAction β} (ha : ReadsOnly given a)
    (hf : ∀ x, ReadsOnly given (f x)) : ReadsOnly given (a >>= f) := by
  intro run
  have hfirst := ha run
  rw [ExceptT.run_bind, StateT.run_bind]
  cases h : a.run.run run with
  | mk result run' =>
    rw [h] at hfirst
    cases result with
    | error fault => exact hfirst
    | ok x => exact hfirst.trans (hf x run')

/-- A fault that is caught leaves what was done before it. -/
theorem readsOnly_tryCatch {a : RunAction α} {f : RunFault → RunAction α} (ha : ReadsOnly given a)
    (hf : ∀ fault, ReadsOnly given (f fault)) : ReadsOnly given (tryCatch a f) := by
  intro run
  have hfirst := ha run
  rw [run_tryCatch]
  cases h : a.run.run run with
  | mk result run' =>
    rw [h] at hfirst
    cases result with
    | ok x => exact hfirst
    | error fault => exact hfirst.trans (hf fault run')

/-- An action on the records leaves the run with the records that it comes to. -/
theorem records_act (action : Action α) (run : Run) :
    ((act action).run.run run).2.records = (runOn action run.records).2 := by
  rw [act, run_bind_ok (a := get) (x := run) rfl, runOn]
  cases action.run.run run.records with
  | mk result r => cases result <;> rfl

/-- An action on the records goes by steps as it does by itself. -/
theorem readsOnly_act {action : Action α} (h : Action.ReadsOnly given action) :
    ReadsOnly given (act action) := by
  intro run
  rw [records_act]
  exact h run.records

/-- A log entry is a step by itself. -/
theorem readsOnly_actionNote (level : Level) (channel : Channel) (message : String) :
    Action.ReadsOnly given (Action.note level channel message) := fun r =>
  .step r (d := .logged _) True.intro

theorem readsOnly_note (level : Level) (message : String) : ReadsOnly given (note level message) :=
  readsOnly_act (readsOnly_actionNote level .processor message)

section Inputs

/-- Documenting a source goes by steps that read it, whatever its tree is. -/
theorem readsOnly_processSource {text path : String} {outcome : ParseOutcome}
    (h : ∀ root hasErrors, outcome = .tree root hasErrors →
      given (Source.ofTree root text path hasErrors)) :
    ReadsOnly given (processSource text path outcome) := by
  unfold processSource
  cases outcome with
  | rejected => exact readsOnly_throw _
  | tree root hasErrors =>
    have hrest : ReadsOnly given (do
        let run ← get
        act (modify fun r => { r with overridden := [] })
        act (walkSource run.config (Source.ofTree root text path hasErrors))
        modify fun run : Run => { run with processed := run.processed ++ [path] }) := by
      have hstart : Action.ReadsOnly given (modify fun r => { r with overridden := [] }) :=
        readsOnly_of_run .source True.intro fun _ => rfl
      have hwalk := fun config => readsOnly_walkSource config (h root hasErrors rfl)
      refine readsOnly_get.bind fun run => ?_
      refine (readsOnly_act hstart).bind fun _ => ?_
      refine (readsOnly_act (hwalk run.config)).bind fun _ => ?_
      exact readsOnly_modify fun _ => rfl
    dsimp only
    split
    · exact (readsOnly_act (readsOnly_actionNote _ _ _)).bind fun _ => hrest
    · exact hrest

variable {w : Workspace}

theorem readsOnly_processFile {p : PathName} (h : ∀ source, w.HasSource p source → given source) :
    ReadsOnly given (processFile w p) := by
  unfold processFile
  dsimp only
  split
  · exact readsOnly_throw _
  · exact readsOnly_throw _
  · exact readsOnly_throw _
  · next content parse hfile =>
    refine readsOnly_get.bind fun run => ?_
    split
    · exact (readsOnly_note _ _).bind fun _ => readsOnly_pure _
    · split
      · exact readsOnly_throw _
      · next text htext =>
        refine (readsOnly_processSource fun root hasErrors htree => ?_).bind
          fun _ => readsOnly_pure _
        exact h _ ⟨hfile, htext, htree⟩

theorem readsOnly_processCollected {p : PathName}
    (h : ∀ source, w.HasSource p source → given source) :
    ReadsOnly given (processCollected w p) := by
  unfold processCollected
  refine readsOnly_tryCatch ((readsOnly_processFile h).bind fun _ => readsOnly_pure _) ?_
  intro fault
  have hnoted : ReadsOnly given (do
      note .error ("Failed to document " ++ p.toText ++ ": " ++ fault.message)
      modify fun run : Run => { run with failed := run.failed ++ [p.toText] }) :=
    (readsOnly_note _ _).bind fun _ => readsOnly_modify fun _ => rfl
  cases fault with
  | uncaught fault => exact readsOnly_throw _
  | badPath cause => exact readsOnly_throw _
  | unreadable path cause => exact hnoted
  | unparsed path => exact hnoted

theorem readsOnly_collectFiles (w : Workspace) (p : PathName) :
    ReadsOnly given (collectFiles w p) := by
  unfold collectFiles
  split
  · split
    · exact readsOnly_throw _
    · exact readsOnly_get.bind fun _ => readsOnly_pure _
  · exact readsOnly_pure _
  · exact readsOnly_throw _
  · refine (readsOnly_note _ _).bind fun _ => ?_
    exact (readsOnly_modify (by intro _; rfl)).bind fun _ => readsOnly_pure _

variable (h : ∀ p source, w.HasSource p source → given source)

include h

theorem readsOnly_processAllCollected (ps : List PathName) :
    ReadsOnly given (processAllCollected w ps) := by
  induction ps with
  | nil => exact readsOnly_pure _
  | cons p rest ih => exact (readsOnly_processCollected (h p)).bind fun _ => ih

theorem readsOnly_processEach (ps : List PathName) : ReadsOnly given (processEach w ps) := by
  induction ps with
  | nil => exact readsOnly_pure _
  | cons p rest ih =>
    exact (readsOnly_collectFiles w p).bind fun files =>
      (readsOnly_processAllCollected h files).bind fun _ => ih

/-- Documenting files and directories goes by steps that read sources of the workspace. -/
theorem readsOnly_processPaths (ps : List PathName) : ReadsOnly given (processPaths w ps) :=
  (readsOnly_processEach h ps).bind fun _ => readsOnly_get.bind fun _ => readsOnly_note _ _

end Inputs

theorem readsOnly_finish : ReadsOnly given finish := by
  have hwarn : ∀ homes, ReadsOnly given (warnUnsynthesised homes) := by
    intro homes
    induction homes with
    | nil => exact readsOnly_pure _
    | cons home rest ih => exact (readsOnly_note _ _).bind fun _ => ih
  exact readsOnly_get.bind fun run => (hwarn _).bind fun _ => readsOnly_pure _

/-- A run of a fresh processor, after what it was given in turn. -/
inductive IsGiven (config : Config) : Run → Prop
  /-- Nothing was given yet. -/
  | start : IsGiven config (start config none)
  /-- A source was given, with what parsing it came to. -/
  | source {run : Run} (h : IsGiven config run) (text path : String) (outcome : ParseOutcome) :
      IsGiven config ((processSource text path outcome).run.run run).2
  /-- A file was given. -/
  | file {run : Run} (h : IsGiven config run) (w : Workspace) (p : PathName) :
      IsGiven config ((processFile w p).run.run run).2
  /-- Files and directories were given. -/
  | paths {run : Run} (h : IsGiven config run) (w : Workspace) (ps : List PathName) :
      IsGiven config ((processPaths w ps).run.run run).2
  /-- The run was finished. -/
  | finish {run : Run} (h : IsGiven config run) : IsGiven config ((finish.run.run run).2)

/-- A run of a fresh processor that is given only some sources, by themselves or in the files of
workspaces. -/
inductive IsGivenOnly (config : Config) (given : Source → Prop) : Run → Prop
  /-- Nothing was given yet. -/
  | start : IsGivenOnly config given (start config none)
  /-- A source was given, with what parsing it came to. -/
  | source {run : Run} (h : IsGivenOnly config given run) {text path : String}
      {outcome : ParseOutcome} (hgiven : ∀ root hasErrors, outcome = .tree root hasErrors →
        given (Source.ofTree root text path hasErrors)) :
      IsGivenOnly config given ((processSource text path outcome).run.run run).2
  /-- A file was given. -/
  | file {run : Run} (h : IsGivenOnly config given run) {w : Workspace} {p : PathName}
      (hgiven : ∀ source, w.HasSource p source → given source) :
      IsGivenOnly config given ((processFile w p).run.run run).2
  /-- Files and directories were given. -/
  | paths {run : Run} (h : IsGivenOnly config given run) {w : Workspace} (ps : List PathName)
      (hgiven : ∀ p source, w.HasSource p source → given source) :
      IsGivenOnly config given ((processPaths w ps).run.run run).2
  /-- The run was finished. -/
  | finish {run : Run} (h : IsGivenOnly config given run) :
      IsGivenOnly config given ((finish.run.run run).2)

/-- Every run is given sources of some kind. -/
theorem IsGiven.isGivenOnly {config : Config} {run : Run} (h : IsGiven config run) :
    IsGivenOnly config (fun _ => True) run := by
  induction h with
  | start => exact .start
  | source _ text path outcome ih => exact ih.source fun _ _ _ => trivial
  | file _ w p ih => exact ih.file fun _ _ => trivial
  | paths _ w ps ih => exact ih.paths ps fun _ _ _ => trivial
  | finish _ ih => exact ih.finish

/-- A run comes to its records by a history that reads only the sources that it is given. -/
theorem IsGivenOnly.readsTo {config : Config} {given : Source → Prop} {run : Run}
    (h : IsGivenOnly config given run) :
    (Run.start config none).records.ReadsTo given run.records := by
  induction h with
  | start => exact .refl _
  | source _ hgiven ih => exact ih.trans (readsOnly_processSource hgiven _)
  | file _ hgiven ih => exact ih.trans (readsOnly_processFile hgiven _)
  | paths _ ps hgiven ih => exact ih.trans (readsOnly_processPaths hgiven ps _)
  | finish _ ih => exact ih.trans (readsOnly_finish _)

/-- Records that a run of a fresh processor comes by: steps lead to them from the fresh
records. -/
def Reaches (config : Config) (r : Records) : Prop :=
  Relation.ReflTransGen Handled (start config none).records r

/-- The states that a run comes by are those that histories lead to. -/
theorem reaches_iff {config : Config} {r : Records} :
    Reaches config r ↔ ∃ history, (start config none).records.after history = r :=
  reflTransGen_handled_iff

/-- Whatever a run is given, it comes to records by steps of walks. -/
theorem IsGiven.reaches {config : Config} {run : Run} (h : IsGiven config run) :
    Reaches config run.records := by
  obtain ⟨history, hrecords, -⟩ := h.isGivenOnly.readsTo
  exact reaches_iff.mpr ⟨history, hrecords⟩

/-- The fresh store is sound: it has a root without members. -/
theorem isSound_start (config : Config) : (start config none).records.store.IsSound := by
  refine ⟨isKeyed_start config, fun path e m hfind hm => ?_⟩
  have hroot : e = Entity.newRoot := by
    have hmem := Store.mem_entries_of_find? hfind
    exact congrArg Prod.snd (List.mem_singleton.mp hmem)
  rw [hroot] at hm
  rw [← Option.some.inj hm]
  exact Members.isRegistered_empty

/-- The store is sound in every state that a run comes by. -/
theorem isSound_of_reaches {config : Config} {r : Records} (h : Reaches config r) :
    r.store.IsSound := by
  induction h with
  | refl => exact isSound_start config
  | tail _ hstep ih => exact ih.changes (hstep.changes ih.isKeyed)

/-- **The store is sound at all times.** Every run of a fresh processor, over any trees,
passes through states that steps lead to from the fresh records. In each of them the
store is sound: entities stand under their paths; the children of namespaces and the
readers and writers in their tables are registered, no child twice, so that the
children of a namespace are found. And the paths before a step come first, in their
order, among the paths after it. -/
theorem reaches_and_isSound (config : Config) :
    (∀ run, IsGiven config run → Reaches config run.records) ∧
    ∀ r, Reaches config r →
      r.store.IsSound ∧
      (∀ path e m, r.store.find? path = some e → e.members? = some m →
        ∃ children, r.store.childrenOf path = .ok children ∧
          children.map Entity.path = m.children) ∧
      ∀ r', Handled r r' → r.store.paths <+: r'.store.paths := by
  refine ⟨fun run h => h.reaches, fun r h => ?_⟩
  have hsound := isSound_of_reaches h
  refine ⟨hsound, fun path e m hfind hm => hsound.childrenOf hfind hm, fun r' hstep => ?_⟩
  exact (hstep.changes hsound.isKeyed).paths_isPrefix

/-- After a text that declares a class and its field, the class is found among the members
of its placeholder and has its reader and its constructor for members; opening a module
puts the path of that behind the others. -/
theorem isSound_dottedText :
    IsGiven {} ((start {} none).document dottedText) ∧
    ((start {} none).document dottedText).records.store.IsSound ∧
    (∃ children,
      ((start {} none).document dottedText).records.store.childrenOf "Foo.bar" = .ok children ∧
        children.map Entity.path = ["Foo.bar::Baz"]) ∧
    (∃ children,
      ((start {} none).document dottedText).records.store.childrenOf "Foo.bar::Baz" =
          .ok children ∧
        children.map Entity.path = ["Foo.bar::Baz#x", "Foo.bar::Baz#initialize"]) ∧
    ((start {} none).document dottedText).records.store.paths <+:
      (runOn (openModule emptyContext dottedTree "Foo")
        ((start {} none).document dottedText).records).2.store.paths := by
  have hgiven : IsGiven {} ((start {} none).document dottedText) :=
    .source .start dottedText.text dottedText.path dottedText.outcome
  obtain ⟨hreaches, hstates⟩ := reaches_and_isSound {}
  obtain ⟨hsound, hchildren, hsteps⟩ := hstates _ (hreaches _ hgiven)
  have houter : ((((start {} none).document dottedText).records.store.find? "Foo.bar").bind
      Entity.members?).map Members.children = some ["Foo.bar::Baz"] := by decide +kernel
  have hinner : ((((start {} none).document dottedText).records.store.find? "Foo.bar::Baz").bind
      Entity.members?).map Members.children =
        some ["Foo.bar::Baz#x", "Foo.bar::Baz#initialize"] := by decide +kernel
  obtain ⟨m, hm, hlisted⟩ := Option.map_eq_some_iff.mp houter
  obtain ⟨e, hfind, hm⟩ := Option.bind_eq_some_iff.mp hm
  obtain ⟨m', hm', hlisted'⟩ := Option.map_eq_some_iff.mp hinner
  obtain ⟨e', hfind', hm'⟩ := Option.bind_eq_some_iff.mp hm'
  rw [← hlisted, ← hlisted']
  exact ⟨hgiven, hsound, hchildren _ e m hfind hm, hchildren _ e' m' hfind' hm',
    hsteps _ (.openModule emptyContext dottedTree "Foo" _)⟩

end Run

end RubyDoc
