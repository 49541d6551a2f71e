import RubyDoc.Proofs.Run.Basic
import RubyDoc.Proofs.Walk.Events

/-!
# The constructors of a run

At the end of a run the constructor of a class has the fields of the class for its
parameters, or the class is listed. Two things are kept by every step: a constructor
that was counted is there, and its parameters fit, or its class closes later. What is
declared at the path of the constructor has to be declared by the class; another
namespace can have a method with the same path, and then the parameters can be others.
What the docstring of the constructor says is not claimed.
-/

namespace RubyDoc

/-- The keyword parameter that stands for a field. The default is the one that is
written, or else nil for a field that may be nil. -/
def FieldRecord.parameter (f : FieldRecord) : String × Option String :=
  (f.name ++ ":",
    (f.default.filter fun text => text != "").or
      (if "nil" ∈ f.types then some "nil" else none))

/-- A constructor has one parameter for each field, in the order of the fields. -/
theorem constructorParameters_eq (fields : List FieldRecord) :
    constructorParameters fields = fields.map FieldRecord.parameter := by
  rw [constructorParameters]
  refine List.map_congr_left fun f _ => ?_
  have hnil : f.isNilable = decide ("nil" ∈ f.types) := List.contains_eq_mem _ _
  rw [FieldRecord.parameter, hnil]
  cases f.default with
  | none => simp
  | some text =>
    by_cases ht : text = ""
    · simp [ht, Option.filter]
    · simp [ht, Option.filter]

/-- Closing classes at different paths makes different constructors. -/
theorem constructorPath_inj {path path' : String}
    (h : constructorPath path = constructorPath path') : path = path' := by
  rw [constructorPath, constructorPath, String.append_assoc, String.append_assoc] at h
  exact String.append_left_inj _ |>.mp h

namespace Placed

variable {p : Placed} {d : Declaration}

/-- What a statement declares is declared in its namespace. -/
theorem home_of_mem_declared (h : d ∈ p.declared) : d.home = p.home := by
  have hnamespaces : ∀ kind, d ∈ p.namespaces kind → d.home = p.home := by
    intro kind hd
    rw [namespaces] at hd
    split at hd
    · rcases List.mem_cons.mp hd with rfl | hd
      · rfl
      · obtain ⟨x, -, rfl⟩ := List.mem_map.mp hd
        rfl
    · cases hd
  have hassignment : ∀ n, d ∈ Declaration.ofAssignment p.home n → d.home = p.home := by
    intro n hd
    rw [Declaration.ofAssignment] at hd
    split at hd
    · rw [List.mem_singleton.mp hd]
    · cases hd
  rw [declared] at h
  split at h
  · exact hnamespaces _ h
  · exact hnamespaces _ h
  · obtain ⟨m, -, rfl⟩ := List.mem_map.mp h
    rfl
  · obtain ⟨m, -, rfl⟩ := List.mem_map.mp h
    rfl
  · exact hassignment _ h
  · obtain ⟨n, -, hd⟩ := List.mem_flatMap.mp h
    exact hassignment n hd
  · obtain ⟨m, -, rfl⟩ := List.mem_map.mp h
    rfl
  · cases h

end Placed

/-- Recording a field counts nothing. -/
theorem Config.mark_keep (config : Config) (l : Ledger) (f : FieldRecord) (home : String) :
    (config.keep l f).mark home = l.mark home := by
  rw [keep]
  split
  · rfl
  · exact Ledger.mark_append l f home

/-- Recording a field leaves the fields of other namespaces. -/
theorem Config.fieldsFor_keep_of_ne (config : Config) (l : Ledger) {f : FieldRecord} {home : String}
    (h : f.home ≠ home) : (config.keep l f).fieldsFor home = l.fieldsFor home := by
  rw [keep]
  split
  · rfl
  · rw [Ledger.fieldsFor_append, if_neg fun he => h he.symm]

/-- The state of a class between two events: what it is as to its constructor, with the
events that are left. -/
structure IsOnCourse (path : String) (es : List Event) (r : Records) : Prop where
  /-- A constructor that was counted is there. -/
  counted : 0 < r.fields.mark path → r.store.HasMethod (constructorPath path)
  /-- There are no fields, or more than were counted, or they are the parameters of the
  constructor; or else the class closes later. -/
  settled : r.fields.fieldsFor path = [] ∨
    r.fields.mark path < (r.fields.fieldsFor path).length ∨
    r.store.shapeAt (constructorPath path) =
      some (.method (constructorParameters (r.fields.fieldsFor path))) ∨
    .closing path ∈ es

section Course

variable {source : Source} {config : Config} {path : String} {es : List Event} {r r' : Records}

/-- Records with the same fields counted, and the same at the path of the constructor,
are on course alike. -/
theorem IsOnCourse.congr (h : IsOnCourse path es r)
    (hfields : r'.fields.fieldsFor path = r.fields.fieldsFor path)
    (hmark : r'.fields.mark path = r.fields.mark path)
    (hshape : r'.store.shapeAt (constructorPath path) = r.store.shapeAt (constructorPath path)) :
    IsOnCourse path es r' := by
  obtain ⟨hcounted, hsettled⟩ := h
  constructor
  · rw [hmark, Store.HasMethod, hshape]
    exact hcounted
  · rw [hfields, hmark, hshape]
    exact hsettled

/-- What happens to the log and to visibilities leaves a class on course. -/
theorem IsOnCourse.quiet (h : IsOnCourse path es r) (hquiet : r.ChangedBy [] r') :
    IsOnCourse path es r' := by
  have hshape := hquiet.store.shape (constructorPath path) fun d hd => absurd hd List.not_mem_nil
  refine h.congr ?_ ?_ hshape
  · rw [hquiet.fields]
  · rw [hquiet.fields]

/-- A class that is on course before an event that is not its closing is so without it. -/
theorem IsOnCourse.tail {e : Event} (h : IsOnCourse path (e :: es) r) (he : e ≠ .closing path) :
    IsOnCourse path es r := by
  refine ⟨h.counted, ?_⟩
  rcases h.settled with hempty | hmore | hparameters | hlater
  · exact .inl hempty
  · exact .inr (.inl hmore)
  · exact .inr (.inr (.inl hparameters))
  · exact .inr (.inr (.inr ((List.mem_cons.mp hlater).resolve_left he.symm)))

/-- What a statement declares at the path of the constructor of a class is a method of
the class. -/
def Placed.IsProper (path : String) (p : Placed) : Prop :=
  ∀ d ∈ p.declared, d.path = constructorPath path → d.home = path ∧ d.kind = .method

/-- A statement keeps a class on course. -/
theorem IsOnCourse.statement {p : Placed} (h : IsOnCourse path (.statement p :: es) r)
    (hproper : p.IsProper path) (hcloses : p.home = path → .closing path ∈ es)
    (hstep : Step source config (.statement p) r r') : IsOnCourse path es r' := by
  rw [Step] at hstep
  have hmark : r'.fields.mark path = r.fields.mark path := by
    rw [hstep.fields, Placed.fieldsAfter]
    cases p.node.fieldCall? with
    | none => rfl
    | some call => exact Config.mark_keep _ _ _ _
  by_cases hhome : p.home = path
  · -- In the body of the class the constructor may change, and the class closes later.
    refine ⟨fun hpos => ?_, .inr (.inr (.inr (hcloses hhome)))⟩
    rw [hmark] at hpos
    exact hstep.store.method _ (fun d hd hd' => (hproper d hd hd').2) (h.counted hpos)
  · have hfields : r'.fields.fieldsFor path = r.fields.fieldsFor path := by
      rw [hstep.fields, Placed.fieldsAfter]
      cases p.node.fieldCall? with
      | none => rfl
      | some call => exact Config.fieldsFor_keep_of_ne _ _ hhome
    have hshape := hstep.store.shape (constructorPath path) fun d hd hd' =>
      hhome ((Placed.home_of_mem_declared hd).symm.trans (hproper d hd hd').1)
    exact (h.congr hfields hmark hshape).tail Event.noConfusion

/-- The closing of a class brings the class on course. -/
theorem IsOnCourse.closing (h : IsOnCourse path (.closing path :: es) r)
    (hstep : IsClosed path r r') : IsOnCourse path es r' := by
  have hmethod : r.store.HasMethod (constructorPath path) →
      r'.store.HasMethod (constructorPath path) := by
    refine hstep.store.method _ fun d hd _ => ?_
    rw [List.mem_singleton.mp hd]
    rfl
  rcases hstep.constructor with hshape | ⟨hmark, hnone⟩
  · rw [← hstep.fields path] at hshape
    exact ⟨fun _ => ⟨_, hshape⟩, .inr (.inr (.inl hshape))⟩
  · rw [← hstep.fields path] at hnone
    refine ⟨fun hpos => hmethod (h.counted (hmark ▸ hpos)), ?_⟩
    rcases hnone with hempty | hmissing
    · exact .inl hempty
    · -- Without a constructor nothing was counted, so any field is one more.
      have hzero : r.fields.mark path = 0 := by
        refine Nat.eq_zero_of_not_pos fun hpos => hmissing (h.counted hpos)
      cases hf : r'.fields.fieldsFor path with
      | nil => exact .inl rfl
      | cons f fs =>
        refine .inr (.inl ?_)
        rw [hmark, hzero, List.length_cons]
        omega

/-- The closing of another class leaves a class on course. -/
theorem IsOnCourse.closing_of_ne {other : String} (hne : other ≠ path)
    (h : IsOnCourse path (.closing other :: es) r) (hstep : IsClosed other r r') :
    IsOnCourse path es r' := by
  have hshape : r'.store.shapeAt (constructorPath path) =
      r.store.shapeAt (constructorPath path) := by
    refine hstep.store.shape _ fun d hd he => hne ?_
    rw [List.mem_singleton.mp hd] at he
    exact constructorPath_inj he
  have hmark := hstep.mark path fun he => hne he.symm
  exact (h.congr (hstep.fields path) hmark hshape).tail fun he => hne (Event.closing.inj he)

/-- A run of events keeps a class on course. -/
theorem IsOnCourse.runs (hruns : Runs source config es r r')
    (hproper : ∀ p, .statement p ∈ es → p.IsProper path) (hcloses : Closes path es)
    (h : IsOnCourse path es r) : IsOnCourse path [] r' := by
  induction hruns with
  | done hquiet => exact h.quiet hquiet
  | @next e es r r₀ r₁ r₂ hquiet hstep hrest ih =>
    have h₀ := h.quiet hquiet
    have htail : ∀ p, .statement p ∈ es → p.IsProper path := fun p hp =>
      hproper p (List.mem_cons_of_mem _ hp)
    cases e with
    | statement p =>
      rw [Closes] at hcloses
      exact ih htail hcloses.2 (h₀.statement (hproper p List.mem_cons_self) hcloses.1 hstep)
    | closing other =>
      rw [Closes] at hcloses
      refine ih htail hcloses ?_
      by_cases hpath : other = path
      · subst hpath
        exact h₀.closing hstep
      · exact h₀.closing_of_ne hpath hstep

/-- Sources documented one after the other keep a class on course. -/
theorem IsOnCourse.runsAll {sources : List Source} (hruns : RunsAll config sources r r')
    (hproper : ∀ source ∈ sources, ∀ p ∈ source.root.placed, p.IsProper path)
    (hcloses : ∀ source ∈ sources, Closes path source.root.events) (h : IsOnCourse path [] r) :
    IsOnCourse path [] r' := by
  induction hruns with
  | done => exact h
  | @next source sources r r₁ r₂ hfirst hrest ih =>
    obtain ⟨hcounted, hsettled⟩ := h
    have hstart : IsOnCourse path source.root.events { r with overridden := [] } := by
      refine ⟨hcounted, ?_⟩
      rcases hsettled with hempty | hmore | hparameters | hlater
      · exact .inl hempty
      · exact .inr (.inl hmore)
      · exact .inr (.inr (.inl hparameters))
      · cases hlater
    have hnext : IsOnCourse path [] r₁ :=
      hstart.runs hfirst
        (fun p hp => hproper source List.mem_cons_self p (Node.mem_placed_of_mem_events hp))
        (hcloses source List.mem_cons_self)
    exact ih (fun s hs => hproper s (List.mem_cons_of_mem _ hs))
      (fun s hs => hcloses s (List.mem_cons_of_mem _ hs)) hnext

end Course

/-! ### Whole runs -/

/-- Whether two declarations of one path can stand beside each other. A placeholder gives
way to a class or module. -/
def DeclaredKind.agrees : DeclaredKind → DeclaredKind → Bool
  | .placeholder, .placeholder | .placeholder, .moduleSpace | .placeholder, .classSpace
  | .moduleSpace, .placeholder | .classSpace, .placeholder => true
  | kind, kind' => kind == kind'

/-- No path is declared with two kinds. -/
def OneKind (declared : List Declaration) : Prop :=
  ∀ d ∈ declared, ∀ d' ∈ declared, d.path = d'.path → d.kind.agrees d'.kind = true

instance (declared : List Declaration) : Decidable (OneKind declared) :=
  inferInstanceAs (Decidable (∀ d ∈ declared, ∀ d' ∈ declared, _ → _))

/-- What the statements of some sources declare. -/
def SourceText.declaredBy (sources : List SourceText) : List Declaration :=
  (sources.filterMap source?).flatMap fun source => source.root.placed.flatMap Placed.declared

/-- A module that a statement opens is declared by it. -/
theorem Placed.mem_declared_of_moduleBody {p : Placed} {path : String}
    (hf : Form.ofNode p.node = .moduleBody) (hopens : p.opens? = some path) :
    { home := p.home, path, kind := .moduleSpace } ∈ p.declared := by
  rw [declared, hf]
  exact mem_namespaces hopens _

/-- An entity with the shape of a method is one. -/
theorem Entity.exists_facts_of_shape {e : Entity} {parameters : List (String × Option String)}
    (h : e.shape = .method parameters) :
    ∃ facts, e.kind = .method facts ∧ facts.parameters = parameters := by
  rw [shape] at h
  split at h
  · cases h
  · cases h
  · cases h
  · cases h
  · next facts hkind => exact ⟨facts, hkind, Shape.method.inj h⟩

namespace Run

/-- Warning about namespaces makes log entries and nothing else. -/
theorem exists_run_warnUnsynthesised (homes : List String) (run : Run) :
    ∃ log, (warnUnsynthesised homes).run.run run = (.ok (), { run with records.log := log }) := by
  induction homes generalizing run with
  | nil => exact ⟨run.records.log, rfl⟩
  | cons home homes ih =>
    rw [warnUnsynthesised, note, run_bind_ok (run_act_ok (Action.runOn_note _ _ _ _))]
    exact ih _

/-- To finish a run lists the namespaces that have more fields than were counted, and makes log
entries. -/
theorem exists_run_finish (run : Run) :
    ∃ log, finish.run.run run =
      (.ok run.records.fields.unsynthesised, { run with records.log := log }) := by
  obtain ⟨log, hwarned⟩ := exists_run_warnUnsynthesised run.records.fields.unsynthesised run
  refine ⟨log, ?_⟩
  rw [finish, run_bind_ok (a := get) (x := run) rfl]
  dsimp only
  rw [run_bind_ok hwarned]
  rfl

/-- Whether a namespace is listed at the end of a run. -/
def Lists (run : Run) (path : String) : Prop :=
  ∃ listed, (finish.run.run run).1 = .ok listed ∧ path ∈ listed

/-- At the end the namespaces are listed that have more fields than were counted. -/
theorem lists_iff (run : Run) (path : String) :
    run.Lists path ↔ path ∈ run.records.fields.unsynthesised := by
  obtain ⟨log, hfinish⟩ := run.exists_run_finish
  rw [Lists, hfinish]
  constructor
  · rintro ⟨listed, hlisted, hmem⟩
    rwa [Except.ok.inj hlisted]
  · exact fun hmem => ⟨_, rfl, hmem⟩

/-- Whether a class has a constructor with one parameter for each field, in order. -/
def HasFittingConstructor (run : Run) (path : String) : Prop :=
  ∃ e facts, run.records.store.find? (constructorPath path) = some e ∧ e.kind = .method facts ∧
    facts.parameters = (run.records.fields.fieldsFor path).map FieldRecord.parameter

/-- **Constructors take the fields of their classes.** After any sources that can be
documented and declare no path with two kinds, a class with fields is listed at the end,
or it has a constructor with one parameter for each field, in order; if whatever is
declared at the path of the constructor is a method of the class. -/
theorem lists_or_hasFittingConstructor (config : Config) {sources : List SourceText}
    (h : ∀ s ∈ sources, s.IsDocumentable) (hone : OneKind (SourceText.declaredBy sources))
    {path : String}
    (hclass : ∃ d ∈ SourceText.declaredBy sources, d.path = path ∧ d.kind = .classSpace)
    (hown : ∀ d ∈ SourceText.declaredBy sources, d.path = constructorPath path →
      d.home = path ∧ d.kind = .method)
    (hfields : ((start config none).documentAll sources).records.fields.fieldsFor path ≠ []) :
    ((start config none).documentAll sources).Lists path ∨
      ((start config none).documentAll sources).HasFittingConstructor path := by
  have hruns := documentAll_followed h (isKeyed_start config) (shapeAt_start config)
  generalize hrun : (start config none).documentAll sources = run at hruns hfields ⊢
  obtain ⟨c, hc, hcpath, hckind⟩ := hclass
  have hdocumentable : ∀ source ∈ sources.filterMap SourceText.source?,
      source.root.IsDocumentable := by
    intro source hsource
    obtain ⟨s, hs, hmem⟩ := List.mem_filterMap.mp hsource
    exact h s hs source hmem
  have hne : path ≠ "" := by
    obtain ⟨source, hsource, hmem⟩ := List.mem_flatMap.mp hc
    obtain ⟨p, hp, hd⟩ := List.mem_flatMap.mp hmem
    exact hcpath ▸ ((hdocumentable source hsource).isSound hp).declared c hd
  have hdeclared : ∀ source ∈ sources.filterMap SourceText.source?, ∀ p ∈ source.root.placed,
      ∀ d ∈ p.declared, d ∈ SourceText.declaredBy sources := fun source hsource p hp d hd =>
    List.mem_flatMap.mpr ⟨source, hsource, List.mem_flatMap.mpr ⟨p, hp, hd⟩⟩
  have hcloses : ∀ source ∈ sources.filterMap SourceText.source?,
      Closes path source.root.events := by
    refine fun source hsource => Node.closes_events hne fun p hp hf hopens => ?_
    have hmodule := hdeclared source hsource p hp _ (Placed.mem_declared_of_moduleBody hf hopens)
    have hagrees := hone c hc _ hmodule hcpath
    rw [hckind] at hagrees
    exact absurd hagrees Bool.false_ne_true
  have hstart : IsOnCourse path [] (start config none).records :=
    ⟨fun hpos => absurd hpos (Nat.lt_irrefl 0), .inl rfl⟩
  have hend := hstart.runsAll hruns
    (fun source hsource p hp d hd => hown d (hdeclared source hsource p hp d hd)) hcloses
  rcases hend.settled with hempty | hmore | hparameters | hlater
  · exact absurd hempty hfields
  · exact .inl ((lists_iff run path).mpr (Ledger.mem_unsynthesised hmore))
  · obtain ⟨e, hfind, hshape⟩ := Option.map_eq_some_iff.mp hparameters
    obtain ⟨facts, hkind, hfacts⟩ := Entity.exists_facts_of_shape hshape
    rw [constructorParameters_eq] at hfacts
    exact .inr ⟨e, facts, hfind, hkind, hfacts⟩
  · cases hlater

end Run

/-- A class with a field and a path that looks like a method of another class. -/
def dottedTree : Node :=
  ⟨"program", true, none, 0, 34, ⟨0, 0⟩, ⟨3, 0⟩, some "class Foo.bar::Baz\n  const :x\nend\n", [
    ⟨"class", true, none, 0, 33, ⟨0, 0⟩, ⟨2, 3⟩, some "class Foo.bar::Baz\n  const :x\nend", [
      ⟨"class", false, none, 0, 5, ⟨0, 0⟩, ⟨0, 5⟩, some "class", []⟩,
      ⟨"scope_resolution", true, some "name", 6, 18, ⟨0, 6⟩, ⟨0, 18⟩, some "Foo.bar::Baz", [
        ⟨"call", true, some "scope", 6, 13, ⟨0, 6⟩, ⟨0, 13⟩, some "Foo.bar", [
          ⟨"constant", true, some "receiver", 6, 9, ⟨0, 6⟩, ⟨0, 9⟩, some "Foo", []⟩,
          ⟨".", false, some "operator", 9, 10, ⟨0, 9⟩, ⟨0, 10⟩, some ".", []⟩,
          ⟨"identifier", true, some "method", 10, 13, ⟨0, 10⟩, ⟨0, 13⟩, some "bar", []⟩]⟩,
        ⟨"::", false, none, 13, 15, ⟨0, 13⟩, ⟨0, 15⟩, some "::", []⟩,
        ⟨"constant", true, some "name", 15, 18, ⟨0, 15⟩, ⟨0, 18⟩, some "Baz", []⟩]⟩,
      ⟨"body_statement", true, some "body", 21, 29, ⟨1, 2⟩, ⟨1, 10⟩, some "const :x", [
        ⟨"call", true, none, 21, 29, ⟨1, 2⟩, ⟨1, 10⟩, some "const :x", [
          ⟨"identifier", true, some "method", 21, 26, ⟨1, 2⟩, ⟨1, 7⟩, some "const", []⟩,
          ⟨"argument_list", true, some "arguments", 27, 29, ⟨1, 8⟩, ⟨1, 10⟩, some ":x", [
            ⟨"simple_symbol", true, none, 27, 29, ⟨1, 8⟩, ⟨1, 10⟩, some ":x", []⟩]⟩]⟩]⟩,
      ⟨"end", false, none, 30, 33, ⟨2, 0⟩, ⟨2, 3⟩, some "end", []⟩]⟩]⟩

/-- The text of that tree. -/
def dottedText : SourceText :=
  { text := dottedTree.written, path := "(string)", outcome := .tree dottedTree false }

/-- Another class, with a reader on the class itself. The path of the reader is that of
the constructor above. -/
def collidingTree : Node :=
  ⟨"program", true, none, 0, 74, ⟨0, 0⟩, ⟨5, 0⟩,
    some "class Foo\n  class << self\n    attr_reader \"bar::Baz#initialize\"\n  end\nend\n", [
    ⟨"class", true, none, 0, 73, ⟨0, 0⟩, ⟨4, 3⟩,
      some "class Foo\n  class << self\n    attr_reader \"bar::Baz#initialize\"\n  end\nend", [
      ⟨"class", false, none, 0, 5, ⟨0, 0⟩, ⟨0, 5⟩, some "class", []⟩,
      ⟨"constant", true, some "name", 6, 9, ⟨0, 6⟩, ⟨0, 9⟩, some "Foo", []⟩,
      ⟨"body_statement", true, some "body", 12, 69, ⟨1, 2⟩, ⟨3, 5⟩,
        some "class << self\n    attr_reader \"bar::Baz#initialize\"\n  end", [
        ⟨"singleton_class", true, none, 12, 69, ⟨1, 2⟩, ⟨3, 5⟩,
          some "class << self\n    attr_reader \"bar::Baz#initialize\"\n  end", [
          ⟨"class", false, none, 12, 17, ⟨1, 2⟩, ⟨1, 7⟩, some "class", []⟩,
          ⟨"<<", false, none, 18, 20, ⟨1, 8⟩, ⟨1, 10⟩, some "<<", []⟩,
          ⟨"self", true, some "value", 21, 25, ⟨1, 11⟩, ⟨1, 15⟩, some "self", []⟩,
          ⟨"body_statement", true, some "body", 30, 63, ⟨2, 4⟩, ⟨2, 37⟩,
            some "attr_reader \"bar::Baz#initialize\"", [
            ⟨"call", true, none, 30, 63, ⟨2, 4⟩, ⟨2, 37⟩,
              some "attr_reader \"bar::Baz#initialize\"", [
              ⟨"identifier", true, some "method", 30, 41, ⟨2, 4⟩, ⟨2, 15⟩, some "attr_reader", []⟩,
              ⟨"argument_list", true, some "arguments", 42, 63, ⟨2, 16⟩, ⟨2, 37⟩,
                some "\"bar::Baz#initialize\"", [
                ⟨"string", true, none, 42, 63, ⟨2, 16⟩, ⟨2, 37⟩, some "\"bar::Baz#initialize\"", [
                  ⟨"\"", false, none, 42, 43, ⟨2, 16⟩, ⟨2, 17⟩, some "\"", []⟩,
                  ⟨"string_content", true, none, 43, 62, ⟨2, 17⟩, ⟨2, 36⟩,
                    some "bar::Baz#initialize", []⟩,
                  ⟨"\"", false, none, 62, 63, ⟨2, 36⟩, ⟨2, 37⟩, some "\"", []⟩]⟩]⟩]⟩]⟩,
          ⟨"end", false, none, 66, 69, ⟨3, 2⟩, ⟨3, 5⟩, some "end", []⟩]⟩]⟩,
      ⟨"end", false, none, 70, 73, ⟨4, 0⟩, ⟨4, 3⟩, some "end", []⟩]⟩]⟩

/-- The text of that tree. -/
def collidingText : SourceText :=
  { text := collidingTree.written, path := "(string)", outcome := .tree collidingTree false }

namespace Run

/-- A class that is documented by itself has its field for a parameter. -/
theorem hasFittingConstructor_dottedText :
    ((start {} none).documentAll [dottedText]).HasFittingConstructor "Foo.bar::Baz" ∧
      (((start {} none).documentAll [dottedText]).records.fields.fieldsFor "Foo.bar::Baz").map
        FieldRecord.parameter = [("x:", none)] := by
  have hfields : (((start {} none).documentAll [dottedText]).records.fields.fieldsFor
      "Foo.bar::Baz").map FieldRecord.parameter = [("x:", none)] := by decide +kernel
  have hnone : ((start {} none).documentAll [dottedText]).records.fields.unsynthesised = [] := by
    decide +kernel
  have hdocumentable : ∀ s ∈ [dottedText], s.IsDocumentable := by decide +kernel
  have hone : OneKind (SourceText.declaredBy [dottedText]) := by decide +kernel
  have hclass : ∃ d ∈ SourceText.declaredBy [dottedText],
      d.path = "Foo.bar::Baz" ∧ d.kind = .classSpace := by decide +kernel
  have hends := lists_or_hasFittingConstructor {} hdocumentable hone hclass (by decide +kernel)
    fun hempty => by
      rw [hempty] at hfields
      cases hfields
  rw [lists_iff, hnone] at hends
  exact ⟨hends.resolve_left List.not_mem_nil, hfields⟩

/-- A reader of another class takes the place of a constructor, without the parameters.
The class is not listed. -/
theorem not_hasFittingConstructor_collidingText :
    (∀ s ∈ [dottedText, collidingText], s.IsDocumentable) ∧
    OneKind (SourceText.declaredBy [dottedText, collidingText]) ∧
    (∃ d ∈ SourceText.declaredBy [dottedText, collidingText],
      d.path = "Foo.bar::Baz" ∧ d.kind = .classSpace) ∧
    ((start {} none).documentAll [dottedText, collidingText]).records.fields.fieldsFor
      "Foo.bar::Baz" ≠ [] ∧
    ¬ ((start {} none).documentAll [dottedText, collidingText]).Lists "Foo.bar::Baz" ∧
    ¬ ((start {} none).documentAll [dottedText, collidingText]).HasFittingConstructor
      "Foo.bar::Baz" := by
  have hfields : (((start {} none).documentAll [dottedText, collidingText]).records.fields.fieldsFor
      "Foo.bar::Baz").map FieldRecord.parameter = [("x:", none)] := by decide +kernel
  have hnone : ((start {} none).documentAll
      [dottedText, collidingText]).records.fields.unsynthesised = [] := by decide +kernel
  have hshape : ((start {} none).documentAll [dottedText, collidingText]).records.store.shapeAt
      (constructorPath "Foo.bar::Baz") = some (.method []) := by decide +kernel
  refine ⟨by decide +kernel, by decide +kernel, by decide +kernel, ?_, ?_, ?_⟩
  · intro hempty
    rw [hempty] at hfields
    cases hfields
  · rw [lists_iff, hnone]
    exact List.not_mem_nil
  · rintro ⟨e, facts, hfind, hkind, hparameters⟩
    rw [Store.shapeAt, hfind, Option.map_some, Entity.shape, hkind] at hshape
    rw [hfields] at hparameters
    have hnil := Shape.method.inj (Option.some.inj hshape)
    rw [hnil] at hparameters
    cases hparameters

end Run

end RubyDoc
