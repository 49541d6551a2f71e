import RubyDoc.Proofs.Walk.Closing
import RubyDoc.Proofs.Walk.Fields
import RubyDoc.Proofs.Walk.Namespaces
import RubyDoc.Proofs.Walk.Signature

/-!
# Walks as runs of steps

What happens when statements are documented, as a list of events: statements are
read one after the other, and the body of a class closes behind the statements in
it. The list is told from the tree alone. A step says what one event does to the
records, and a run is a row of steps. Between two steps the log may grow and
visibilities may change.
-/

namespace RubyDoc

open RubyDoc.Action ObjectPath

/-- What happens in a walk. -/
inductive Event where
  /-- A statement is read, up to the statements inside it. -/
  | statement (p : Placed)
  /-- The body of a class at a path closes. -/
  | closing (path : String)

namespace Placed

/-- The class or module that a statement opens, and the placeholders on the way. -/
def namespaces (p : Placed) (kind : DeclaredKind) : List Declaration :=
  match p.opens? with
  | some path =>
    { home := p.home, path, kind } ::
      (lineage (split path).1).map fun x => { home := p.home, path := x, kind := .placeholder }
  | none => []

theorem mem_namespaces {p : Placed} {path : String} (h : p.opens? = some path)
    (kind : DeclaredKind) : { home := p.home, path, kind } ∈ p.namespaces kind := by
  rw [namespaces, h]
  exact List.mem_cons_self

theorem declaresLineage_namespaces {p : Placed} {path : String} (h : p.opens? = some path)
    (kind : DeclaredKind) : DeclaresLineage (p.namespaces kind) (split path).1 := by
  intro x hx
  refine ⟨{ home := p.home, path := x, kind := .placeholder }, ?_, rfl, DeclaredKind.noConfusion⟩
  rw [namespaces, h]
  exact List.mem_cons_of_mem _ (List.mem_map_of_mem hx)

/-- What a statement declares by itself, the statements inside it left out. -/
def declared (p : Placed) : List Declaration :=
  match Form.ofNode p.node with
  | .classBody => p.namespaces .classSpace
  | .moduleBody => p.namespaces .moduleSpace
  | .method => (p.node.definedMethod? p.scope).toList.map fun m => .ofMethod p.home m.1 m.2
  | .accessors read write =>
    (Node.definedAccessors read write p.node.positionalArguments).map fun name =>
      .ofMethod p.home name p.scope
  | .constant => Declaration.ofAssignment p.home p.node
  | .enumValues block => (enumValues block).flatMap (Declaration.ofAssignment p.home)
  | .field _ => p.node.usableName?.toList.map fun name => .ofMethod p.home name p.scope
  | _ => []

/-- The event behind the statements inside a statement: the body of a class closes. -/
def closings (p : Placed) : List Event :=
  match Form.ofNode p.node with
  | .classBody => p.opens?.toList.map .closing
  | _ => []

/-- The events of a statement and of the statements inside it. -/
def events (p : Placed) : List Event :=
  .statement p :: (p.nested.attach.flatMap fun q => q.1.events) ++ p.closings
termination_by p.node.weight
decreasing_by exact weight_lt_of_mem_nested q.2

theorem events_eq (p : Placed) :
    p.events = .statement p :: (p.nested.flatMap events ++ p.closings) := by
  rw [events, List.cons_append]
  congr 2
  rw [List.flatMap_def, List.flatMap_def, List.attach_map_val]

/-- The fields after a statement: that of a field declaration is recorded if the run
keeps it. -/
def fieldsAfter (source : Source) (config : Config) (p : Placed) (r : Records) : Ledger :=
  match p.node.fieldCall? with
  | some (isProp, name) =>
    config.keep r.fields (source.declaredField r.overridden p.home p.node isProp name)
  | none => r.fields

/-- The docstrings that nodes have been given after a statement. -/
def overridesAfter (source : Source) (p : Placed) (overridden : List (NodeKey × String)) :
    List (NodeKey × String) :=
  match Form.ofNode p.node with
  | .signature block => source.overridesAfter overridden p.site block
  | _ => overridden

end Placed

/-- The event of a statement and the statements in its body, in order. -/
def Node.events (root : Node) : List Event := root.topLevel.flatMap Placed.events

/-- What one event does to the records of a run. -/
def Step (source : Source) (config : Config) : Event → Records → Records → Prop
  | .statement p, r, r' =>
    ({ r with fields := p.fieldsAfter source config r
              overridden := p.overridesAfter source r.overridden } : Records).ChangedBy p.declared r'
  | .closing path, r, r' => IsClosed path r r'

/-- Events that happen to the records of a run one after the other. -/
inductive Runs (source : Source) (config : Config) : List Event → Records → Records → Prop
  /-- Nothing happens any more. -/
  | done {r r' : Records} (h : r.ChangedBy [] r') : Runs source config [] r r'
  /-- The first event happens, and then the others. -/
  | next {e : Event} {es : List Event} {r r₀ r₁ r₂ : Records} (h : r.ChangedBy [] r₀)
      (hstep : Step source config e r₀ r₁) (hrest : Runs source config es r₁ r₂) :
      Runs source config (e :: es) r r₂

namespace Runs

variable {source : Source} {config : Config} {es es' : List Event} {r r' r'' : Records}

/-- What happens to the log and to visibilities before a run belongs to the run. -/
theorem after (h : r.ChangedBy [] r') (h' : Runs source config es r' r'') :
    Runs source config es r r'' := by
  cases h' with
  | done hq => exact .done (h.trans hq)
  | next hq hstep hrest => exact .next (h.trans hq) hstep hrest

/-- One run after another is a run of all their events. -/
theorem append (h : Runs source config es r r') (h' : Runs source config es' r' r'') :
    Runs source config (es ++ es') r r'' := by
  induction h with
  | done hq => exact h'.after hq
  | next hq hstep _ ih => exact .next hq hstep (ih h')

/-- A single event. -/
theorem single {e : Event} (hk : r.store.IsKeyed) (h : Step source config e r r')
    (hk' : r'.store.IsKeyed) : Runs source config [e] r r' :=
  .next (.refl hk) h (.done (.refl hk'))

end Runs

end RubyDoc
