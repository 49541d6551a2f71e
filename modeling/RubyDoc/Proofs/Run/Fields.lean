import RubyDoc.Proofs.Run.Basic
import RubyDoc.Proofs.Walk.Events

/-!
# The fields of a run

Which fields a run has recorded for a namespace is told from the trees of its sources:
each field declaration that stands in a body of the namespace gives one record, and
the records stand in the order of the declarations. Nothing is lost, doubled, or
recorded for another namespace, however classes are nested or opened again. If repeated
fields are not allowed, the first of each name is left. What a record says of a
declaration is the subject of the module on field declarations.
-/

namespace RubyDoc

/-- The record of the field that a statement declares, if it declares one. -/
def Placed.record? (source : Source) (overridden : List (NodeKey × String)) (p : Placed) :
    Option FieldRecord :=
  p.node.fieldCall?.map fun call => source.declaredField overridden p.home p.node call.1 call.2

namespace Source

/-- The records of the fields that some statements declare, in their order. A signature
among them may give a docstring to a node after it. -/
def recordsOf (source : Source) : List (NodeKey × String) → List Placed → List FieldRecord
  | _, [] => []
  | overridden, p :: ps =>
    (p.record? source overridden).toList ++
      source.recordsOf (p.overridesAfter source overridden) ps

/-- The records of the fields that a source declares. -/
def fieldRecords (source : Source) : List FieldRecord := source.recordsOf [] source.root.placed

end Source

section Fields

variable {source : Source} {config : Config} {r r' : Records} {fs : List FieldRecord}
  {home : String}

/-- One step records the field of its statement. -/
theorem fieldsFor_step {p : Placed} (h : Step source config (.statement p) r r')
    (hfs : r.fields.fieldsFor home = config.kept (fs.filter fun f => f.home == home)) :
    r'.fields.fieldsFor home =
      config.kept
        ((fs ++ (p.record? source r.overridden).toList).filter fun f => f.home == home) := by
  rw [Step] at h
  rw [h.fields, Placed.fieldsAfter, Placed.record?]
  cases p.node.fieldCall? with
  | none =>
    rw [Option.map_none, Option.toList_none, List.append_nil]
    exact hfs
  | some call => exact fieldsFor_keep hfs _

/-- A run of events records the fields of its statements. -/
theorem fieldsFor_runs {es : List Event} (h : Runs source config es r r')
    (hfs : r.fields.fieldsFor home = config.kept (fs.filter fun f => f.home == home)) :
    r'.fields.fieldsFor home =
      config.kept ((fs ++ source.recordsOf r.overridden (es.filterMap Event.statement?)).filter
        fun f => f.home == home) := by
  induction h generalizing fs with
  | done hquiet =>
    rw [hquiet.fields, List.filterMap_nil, Source.recordsOf, List.append_nil]
    exact hfs
  | @next e es r r₀ r₁ r₂ hquiet hstep hrest ih =>
    rw [← hquiet.fields] at hfs
    cases e with
    | statement p =>
      have hoverridden : r₁.overridden = p.overridesAfter source r₀.overridden := by
        rw [Step] at hstep
        exact hstep.overridden
      have hnext := ih (fieldsFor_step hstep hfs)
      rw [hoverridden, hquiet.overridden, List.append_assoc] at hnext
      rw [Event.filterMap_statement, Source.recordsOf]
      exact hnext
    | closing path =>
      rw [Step] at hstep
      rw [← hstep.fields home] at hfs
      have hnext := ih hfs
      rw [hstep.overridden, hquiet.overridden] at hnext
      rw [Event.filterMap_closing]
      exact hnext

/-- Sources documented one after the other record the fields that they declare. -/
theorem fieldsFor_runsAll {sources : List Source} (h : RunsAll config sources r r')
    (hfs : r.fields.fieldsFor home = config.kept (fs.filter fun f => f.home == home)) :
    r'.fields.fieldsFor home =
      config.kept ((fs ++ sources.flatMap Source.fieldRecords).filter fun f => f.home == home) := by
  induction h generalizing fs with
  | done =>
    rw [List.flatMap_nil, List.append_nil]
    exact hfs
  | next hruns _ ih =>
    have hrest := ih (fieldsFor_runs hruns hfs)
    rw [Node.filterMap_events, List.append_assoc] at hrest
    rw [List.flatMap_cons]
    exact hrest

end Fields

/-- The names of the fields that a run keeps are pairwise distinct if it does not allow
repeated ones. -/
theorem Config.nodup_kept {config : Config} (h : config.allowDuplicateFields = false)
    (fs : List FieldRecord) : ((config.kept fs).map FieldRecord.name).Nodup := by
  rw [kept, h, if_neg Bool.false_ne_true]
  exact nodup_firstOfEachName fs

namespace Run

/-- **Fields are recorded once and for their own namespace.** After any sources that can
be documented, the fields of a namespace are the records of the field declarations in
its bodies, in order; if repeated fields are not allowed, the first of each name, and
then the names are pairwise distinct. -/
theorem fieldsFor_documentAll (config : Config) {sources : List SourceText}
    (h : ∀ s ∈ sources, s.IsDocumentable) (home : String) :
    ((start config none).documentAll sources).records.fields.fieldsFor home =
        config.kept (((sources.filterMap SourceText.source?).flatMap Source.fieldRecords).filter
          fun f => f.home == home) ∧
      (config.allowDuplicateFields = false →
        ((((start config none).documentAll sources).records.fields.fieldsFor home).map
          FieldRecord.name).Nodup) := by
  have hruns := documentAll_followed h (isKeyed_start config) (shapeAt_start config)
  have hnone : (start config none).records.fields.fieldsFor home =
      config.kept (([] : List FieldRecord).filter fun f => f.home == home) := by
    rw [List.filter_nil, Config.kept]
    split <;> rfl
  have hfields := fieldsFor_runsAll hruns hnone
  rw [List.nil_append] at hfields
  refine ⟨hfields, fun hallow => ?_⟩
  rw [hfields]
  exact Config.nodup_kept hallow _

end Run

/-- A class with a field, and a class inside it with a field of the same name; keywords
and punctuation are left out. -/
def nestedTree : Node :=
  ⟨"program", true, none, 0, 72, ⟨0, 0⟩, ⟨6, 0⟩,
    some "class Foo\n  const :x, Integer\n  class Bar\n    prop :x, String\n  end\nend\n", [
    ⟨"class", true, none, 0, 71, ⟨0, 0⟩, ⟨5, 3⟩,
      some "class Foo\n  const :x, Integer\n  class Bar\n    prop :x, String\n  end\nend", [
      ⟨"constant", true, some "name", 6, 9, ⟨0, 6⟩, ⟨0, 9⟩, some "Foo", []⟩,
      ⟨"body_statement", true, some "body", 12, 67, ⟨1, 2⟩, ⟨4, 5⟩,
        some "const :x, Integer\n  class Bar\n    prop :x, String\n  end", [
        ⟨"call", true, none, 12, 29, ⟨1, 2⟩, ⟨1, 19⟩, some "const :x, Integer", [
          ⟨"identifier", true, some "method", 12, 17, ⟨1, 2⟩, ⟨1, 7⟩, some "const", []⟩,
          ⟨"argument_list", true, some "arguments", 18, 29, ⟨1, 8⟩, ⟨1, 19⟩, some ":x, Integer", [
            ⟨"simple_symbol", true, none, 18, 20, ⟨1, 8⟩, ⟨1, 10⟩, some ":x", []⟩,
            ⟨"constant", true, none, 22, 29, ⟨1, 12⟩, ⟨1, 19⟩, some "Integer", []⟩]⟩]⟩,
        ⟨"class", true, none, 32, 67, ⟨2, 2⟩, ⟨4, 5⟩,
          some "class Bar\n    prop :x, String\n  end", [
          ⟨"constant", true, some "name", 38, 41, ⟨2, 8⟩, ⟨2, 11⟩, some "Bar", []⟩,
          ⟨"body_statement", true, some "body", 46, 61, ⟨3, 4⟩, ⟨3, 19⟩, some "prop :x, String", [
            ⟨"call", true, none, 46, 61, ⟨3, 4⟩, ⟨3, 19⟩, some "prop :x, String", [
              ⟨"identifier", true, some "method", 46, 50, ⟨3, 4⟩, ⟨3, 8⟩, some "prop", []⟩,
              ⟨"argument_list", true, some "arguments", 51, 61, ⟨3, 9⟩, ⟨3, 19⟩,
                some ":x, String", [
                ⟨"simple_symbol", true, none, 51, 53, ⟨3, 9⟩, ⟨3, 11⟩, some ":x", []⟩,
                ⟨"constant", true, none, 55, 61, ⟨3, 13⟩, ⟨3, 19⟩, some "String", []⟩]⟩]⟩]⟩]⟩]⟩]⟩]⟩

/-- The text of that tree. -/
def nestedText : SourceText :=
  { text := nestedTree.written, path := "(string)", outcome := .tree nestedTree false }

namespace Run

/-- A text with nested classes that is documented twice gives each class its own fields,
both times if repeated fields are allowed. -/
theorem fieldsFor_nestedText :
    nestedText.IsDocumentable ∧
    ((((start {} none).documentAll [nestedText, nestedText]).records.fields.fieldsFor "Foo").map
      fun f => (f.name, f.source)) = [("x", "const :x, Integer"), ("x", "const :x, Integer")] ∧
    ((((start { allowDuplicateFields := false } none).documentAll
      [nestedText, nestedText]).records.fields.fieldsFor "Foo::Bar").map
        fun f => (f.name, f.source)) = [("x", "prop :x, String")] := by
  have hdocumentable : nestedText.IsDocumentable := by decide +kernel
  have hall : ∀ s ∈ [nestedText, nestedText], s.IsDocumentable := by
    rw [List.forall_mem_cons, List.forall_mem_singleton]
    exact ⟨hdocumentable, hdocumentable⟩
  refine ⟨hdocumentable, ?_, ?_⟩
  · rw [(fieldsFor_documentAll {} hall "Foo").1]
    decide +kernel
  · rw [(fieldsFor_documentAll { allowDuplicateFields := false } hall "Foo::Bar").1]
    decide +kernel

end Run

end RubyDoc
