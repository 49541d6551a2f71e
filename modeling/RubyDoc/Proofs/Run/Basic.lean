import RubyDoc.Proofs.Result
import RubyDoc.Proofs.Walk.Documentable
import RubyDoc.Run

/-!
# Runs over several sources

A source that parses into a tree is documented as a run of the events of its tree,
with no docstrings given to nodes yet; one that does not parse changes nothing. So
documenting sources one after the other is a row of such runs. Which files were
processed or failed is not tracked, and the log is not either.
-/

namespace RubyDoc

open RubyDoc.Action

/-- A source as a run is given it: a text, the path recorded for it, and what parsing
it came to. -/
structure SourceText where
  /-- The text. -/
  text : String
  /-- The path. -/
  path : String
  /-- What parsing the text came to. -/
  outcome : ParseOutcome

namespace SourceText

/-- The source that a text parses into. -/
def source? (s : SourceText) : Option Source :=
  match s.outcome with
  | .rejected => none
  | .tree root hasErrors => some (.ofTree root s.text s.path hasErrors)

/-- Whether the tree of a text, if it has one, can be documented. -/
def IsDocumentable (s : SourceText) : Prop := ∀ source ∈ s.source?, source.root.IsDocumentable

instance (s : SourceText) : Decidable s.IsDocumentable :=
  inferInstanceAs (Decidable (∀ source ∈ s.source?, source.root.IsDocumentable))

/-- The comments of a source with a legible tree are legible. -/
theorem hasLegibleComments_of_source? {s : SourceText} {source : Source}
    (hs : s.source? = some source) (hroot : source.root.IsLegible) : source.HasLegibleComments := by
  rw [source?] at hs
  split at hs
  · cases hs
  · next root hasErrors _ =>
    rw [← Option.some.inj hs] at hroot ⊢
    exact Source.hasLegibleComments_ofTree hroot s.text s.path hasErrors

/-- The comments of a source that can be documented are legible. -/
theorem hasLegibleComments {s : SourceText} (h : s.IsDocumentable) {source : Source}
    (hs : s.source? = some source) : source.HasLegibleComments :=
  hasLegibleComments_of_source? hs (h source hs).legible

end SourceText

namespace Run

section Steps

variable {α : Type} {run : Run}

/-- An action on the records that gives a result leaves the rest of the run. -/
theorem run_act_ok {action : Action α} {x : α} {r : Records}
    (h : runOn action run.records = (.ok x, r)) :
    (act action).run.run run = (.ok x, { run with records := r }) := by
  rw [runOn] at h
  rw [act, run_bind_ok (a := get) (x := run) rfl, h]
  rfl

/-- An action on the records that ends in a fault leaves the rest of the run. -/
theorem run_act_error {action : Action α} {fault : Fault} {r : Records}
    (h : runOn action run.records = (.error fault, r)) :
    (act action).run.run run = (.error (.uncaught fault), { run with records := r }) := by
  rw [runOn] at h
  rw [act, run_bind_ok (a := get) (x := run) rfl, h]
  rfl

end Steps

/-- A run after a source was given to it. -/
def document (run : Run) (s : SourceText) : Run :=
  ((processSource s.text s.path s.outcome).run.run run).2

/-- A run after some sources were given to it, one after the other. -/
def documentAll (run : Run) (sources : List SourceText) : Run := sources.foldl document run

/-- A source that does not parse changes nothing. -/
theorem document_of_rejected {run : Run} {s : SourceText} (h : s.source? = none) :
    run.document s = run := by
  rw [SourceText.source?] at h
  split at h
  · next hrejected =>
    rw [document, hrejected]
    rfl
  · cases h

end Run

/-- Records of sources that are documented one after the other. The docstrings given to
nodes hold for one source only. -/
inductive RunsAll (config : Config) : List Source → Records → Records → Prop
  /-- No source is left. -/
  | done {r : Records} : RunsAll config [] r r
  /-- The first source is documented, and then the others. -/
  | next {source : Source} {sources : List Source} {r r₁ r₂ : Records}
      (h : Runs source config source.root.events { r with overridden := [] } r₁)
      (hrest : RunsAll config sources r₁ r₂) : RunsAll config (source :: sources) r r₂

namespace Run

/-- Go through a source whose nodes have not been given docstrings, and note its path. -/
def walkAfresh (source : Source) (path : String) : RunAction Unit := do
  let run ← get
  act (modify fun r => { r with overridden := [] })
  act (walkSource run.config source)
  modify fun run : Run => { run with processed := run.processed ++ [path] }

/-- A source that parses is gone through afresh. Before that there may be a warning. -/
theorem exists_run_processSource_eq (run : Run) {s : SourceText} {source : Source}
    (hs : s.source? = some source) :
    ∃ log, (processSource s.text s.path s.outcome).run.run run =
      (walkAfresh source s.path).run.run { run with records := { run.records with log } } := by
  rw [SourceText.source?] at hs
  split at hs
  · cases hs
  · next root hasErrors houtcome =>
    rw [houtcome, processSource]
    dsimp only
    rw [Option.some.inj hs]
    split
    · have hwarned := run_act_ok (runOn_note .warning .parser
        ("Syntax errors in " ++ s.path ++ ", documenting what could be parsed") run.records)
      rw [run_bind_ok hwarned]
      exact ⟨_, rfl⟩
    · exact ⟨run.records.log, rfl⟩

/-- Going through a source afresh does what the walk of its tree does. -/
theorem run_walkAfresh (source : Source) (path : String) (run : Run) :
    (walkAfresh source path).run.run run =
      match runOn (walkSource run.config source) { run.records with overridden := [] } with
      | (.ok _, r) => (.ok (), { run with records := r, processed := run.processed ++ [path] })
      | (.error fault, r) => (.error (.uncaught fault), { run with records := r }) := by
  rw [walkAfresh, run_bind_ok (a := get) (x := run) rfl,
    run_bind_ok (run_act_ok (runOn_modify _ _))]
  cases hwalk : runOn (walkSource run.config source) { run.records with overridden := [] } with
  | mk result r =>
    cases result with
    | error fault => rw [run_bind_error (run_act_error hwalk)]
    | ok _ =>
      rw [run_bind_ok (run_act_ok hwalk)]
      rfl

/-- A source leaves a run with the records that the walk of its tree comes to, be it with a
fault or without. Before the walk, the docstrings given to nodes are forgotten, and there
may be a warning. -/
theorem exists_document_eq (run : Run) {s : SourceText} {source : Source}
    (hs : s.source? = some source) :
    ∃ log processed, run.document s =
      { run with records := (runOn (walkSource run.config source)
                   { run.records with overridden := [], log }).2
                 processed } := by
  obtain ⟨log, hrun⟩ := run.exists_run_processSource_eq hs
  rw [document, hrun, run_walkAfresh]
  split
  · next r hwalk =>
    obtain rfl : _ = r := congrArg Prod.snd hwalk
    exact ⟨log, run.processed ++ [s.path], rfl⟩
  · next fault r hwalk =>
    obtain rfl : _ = r := congrArg Prod.snd hwalk
    exact ⟨log, run.processed, rfl⟩

/-- Documenting a source with a tree that can be documented is a run of its events. -/
theorem document_followed {run : Run} {s : SourceText} (h : s.IsDocumentable) {source : Source}
    (hs : s.source? = some source) (hk : run.records.store.IsKeyed)
    (hroot : run.records.store.shapeAt "" = some .namespace) :
    Runs source run.config source.root.events { run.records with overridden := [] }
        (run.document s).records ∧
      (run.document s).config = run.config ∧ (run.document s).records.store.IsKeyed ∧
        (run.document s).records.store.shapeAt "" = some .namespace := by
  obtain ⟨log, processed, hdocument⟩ := run.exists_document_eq hs
  obtain ⟨r, hwalk, hruns, hkeyed, hroot'⟩ := walkSource_followed (h source hs)
    (SourceText.hasLegibleComments h hs) run.config
    (r := { run.records with overridden := [], log }) hk hroot
  rw [hdocument, hwalk]
  have hlogged : ({ run.records with overridden := [] } : Records).ChangedBy []
      { run.records with overridden := [], log } := ⟨.refl hk, rfl, rfl⟩
  exact ⟨hruns.after hlogged, rfl, hkeyed, hroot'⟩

/-- Documenting sources with trees that can be documented is a row of runs of their
events. -/
theorem documentAll_followed {run : Run} {sources : List SourceText}
    (h : ∀ s ∈ sources, s.IsDocumentable) (hk : run.records.store.IsKeyed)
    (hroot : run.records.store.shapeAt "" = some .namespace) :
    RunsAll run.config (sources.filterMap SourceText.source?) run.records
      (run.documentAll sources).records := by
  induction sources generalizing run with
  | nil => exact .done
  | cons s sources ih =>
    obtain ⟨hs, hsources⟩ := List.forall_mem_cons.mp h
    rw [documentAll, List.foldl_cons]
    cases hsource : s.source? with
    | none =>
      rw [document_of_rejected hsource, List.filterMap_cons_none hsource]
      exact ih hsources hk hroot
    | some source =>
      obtain ⟨hruns, hconfig, hkeyed, hroot'⟩ := document_followed hs hsource hk hroot
      rw [List.filterMap_cons_some hsource]
      have hrest := ih hsources hkeyed hroot'
      rw [hconfig] at hrest
      exact .next hruns hrest

/-- A fresh run has its root under the empty path, and nothing else. -/
theorem find?_start (config : Config) (path : String) :
    (start config none).records.store.find? path =
      if path = "" then some Entity.newRoot else none := by
  have hentries : (start config none).records.store.find? path =
      [("", Entity.newRoot)].lookup path := rfl
  rw [hentries, List.lookup_cons]
  by_cases hp : path = ""
  · rw [if_pos hp, hp]
    rfl
  · rw [if_neg hp, beq_eq_false_iff_ne.mpr hp]
    rfl

theorem isKeyed_start (config : Config) : (start config none).records.store.IsKeyed := by
  refine Store.isKeyed_of_forall (by simp [Store.keys, start]) fun entry hentry => ?_
  rw [List.mem_singleton.mp hentry]
  rfl

theorem shapeAt_start (config : Config) :
    (start config none).records.store.shapeAt "" = some .namespace := rfl

end Run

end RubyDoc
