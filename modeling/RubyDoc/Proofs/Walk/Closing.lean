import RubyDoc.Proofs.Field
import RubyDoc.Proofs.Walk.Constructor
import RubyDoc.Proofs.Walk.Declaration
import RubyDoc.Walk.Basic

/-!
# The end of a class

When the body of a class closes, its constructor has the fields for its parameters,
or else nothing is counted as made: there are no fields, or there is no constructor
and none could be registered. Closing always succeeds, and declares nothing but the
constructor. What the docstring of the constructor becomes is said beside.
-/

namespace RubyDoc

open RubyDoc.Action

/-- The constructor that the closing of a class declares. -/
def Declaration.ofConstructor (path : String) : Declaration :=
  { home := path, path := constructorPath path, kind := .method }

/-- Records after the body of a class was closed. -/
structure IsClosed (path : String) (r r' : Records) : Prop where
  /-- Only the constructor is declared. -/
  store : Store.ChangedBy [.ofConstructor path] r.store r'.store
  /-- No node is given a docstring. -/
  overridden : r'.overridden = r.overridden
  /-- No field is recorded. -/
  fields : ∀ home, r'.fields.fieldsFor home = r.fields.fieldsFor home
  /-- No other constructor is made. -/
  mark : ∀ home, home ≠ path → r'.fields.mark home = r.fields.mark home
  /-- The constructor has the fields for its parameters; or nothing was counted, as
  there are no fields, or no constructor yet. -/
  constructor : r'.store.shapeAt (constructorPath path) =
      some (.method (constructorParameters (r.fields.fieldsFor path))) ∨
    r'.fields.mark path = r.fields.mark path ∧
      (r.fields.fieldsFor path = [] ∨ ¬ r.store.HasMethod (constructorPath path))

section Close

variable (c : Context) (n : Node) (path classPath : String) {r : Records} (hk : r.store.IsKeyed)

/-- A revised method has the fields for its parameters. -/
theorem shape_revised (fields : List FieldRecord) {e : Entity} (h : e.isMethod = true) :
    (c.revised n fields e).shape = .method (constructorParameters fields) := by
  obtain ⟨name, home, docstring, source, file, line, kind⟩ := e
  cases kind with
  | method facts => unfold Context.revised; cases file <;> rfl
  | root m => cases h
  | moduleSpace m => cases h
  | classSpace m superclass => cases h
  | constant value => cases h

/-- Without fields, closing a class changes nothing. -/
theorem runOn_synthesise_of_no_fields (hf : r.fields.fieldsFor path = []) :
    runOn (synthesiseConstructor c n path classPath) r = (.ok (), r) := by
  unfold synthesiseConstructor
  rw [runOn_bind_ok (runOn_get r), hf]
  rfl

include hk

/-- A constructor that was made has the fields for its parameters. -/
theorem isClosed_of_isSynthesised {r' : Records} (h : IsSynthesised c n path r r') :
    IsClosed path r r' := by
  obtain ⟨hmethod, -⟩ := constructorAt_spec hk path
  have hshape : r'.store.shapeAt (constructorPath path) =
      some (.method (constructorParameters (r.fields.fieldsFor path))) := by
    have hrevised := shape_revised c n (r.fields.fieldsFor path) hmethod
    rw [Store.shapeAt, h.find?, if_pos rfl, Option.map_some, Entity.shape_docstring,
      Records.revisedMethod, hrevised]
  have hother : ∀ p, p ≠ constructorPath path → r'.store.shapeAt p = r.store.shapeAt p := by
    intro p hp
    rw [Store.shapeAt, h.find?, if_neg hp, Store.shapeAt]
    split
    · rw [Option.map_map]
      congr 1
      funext e
      exact Entity.shape_mapMembers e _
    · rfl
  refine ⟨⟨h.isKeyed hk, fun p hp => ?_, fun p _ hm => ?_⟩, h.overridden, fun home => ?_,
    fun home hne => ?_, .inl hshape⟩
  · exact hother p fun he => hp (.ofConstructor path) (List.mem_singleton_self _) he.symm
  · by_cases hp : p = constructorPath path
    · exact ⟨_, hp ▸ hshape⟩
    · rw [Store.HasMethod, hother p hp]
      exact hm
  · rw [h.fields, Ledger.fieldsFor_markSynthesised]
  · rw [h.fields, Ledger.mark_markSynthesised, if_neg hne]

/-- A constructor that could not be registered has the fields for its parameters if
it is there, and none are counted. -/
theorem isClosed_revisedStore :
    IsClosed path r { r with store := r.revisedStore c n path } := by
  obtain ⟨hmethod, hpath⟩ := constructorAt_spec hk path
  have hrevise : ∀ e : Entity, e.isMethod = true →
      (c.revised n (r.fields.fieldsFor path) e).path = e.path ∧
        (c.revised n (r.fields.fieldsFor path) e).isMethod = true := by
    intro e he
    obtain ⟨hp, -, -, hm⟩ := revised_same c n (r.fields.fieldsFor path) e
    exact ⟨hp, hm.trans he⟩
  have hstore : Store.ChangedBy [.ofConstructor path] r.store (r.revisedStore c n path) := by
    rw [Records.revisedStore, hpath]
    exact Store.changedBy_editMethod_of_mem hk (d := .ofConstructor path)
      (List.mem_singleton_self _) hrevise
  refine ⟨hstore, rfl, fun _ => rfl, fun _ _ => rfl, ?_⟩
  by_cases hm : r.store.HasMethod (constructorPath path)
  · obtain ⟨parameters, hshape⟩ := hm
    obtain ⟨e, he, hs⟩ := Option.map_eq_some_iff.mp hshape
    have hem : e.isMethod = true := (Entity.isMethod_iff e).mpr ⟨parameters, hs⟩
    left
    dsimp only
    rw [Store.shapeAt, Records.revisedStore, hpath, Store.find?_editMethod, if_pos rfl, he,
      Option.map_some, if_pos hem, Option.map_some, shape_revised c n _ hem]
  · exact .inr ⟨rfl, .inr hm⟩

/-- Closing a class always succeeds. -/
theorem closeClass_ok :
    ∃ r', runOn (c.closeClass n path classPath) r = (.ok (), r') ∧ IsClosed path r r' := by
  rw [Context.closeClass, runOn_guarded]
  by_cases hf : r.fields.fieldsFor path = []
  · rw [runOn_synthesise_of_no_fields c n path classPath hf]
    exact ⟨r, rfl, .refl hk, rfl, fun _ => rfl, fun _ _ => rfl, .inr ⟨rfl, .inl hf⟩⟩
  · by_cases hhome : HasConstructorHome r.store path
    · obtain ⟨r', hrun, hs⟩ := synthesise_ok c n path classPath hk hf hhome
      rw [hrun]
      exact ⟨r', rfl, isClosed_of_isSynthesised c n path hk hs⟩
    · obtain ⟨fault, hrun⟩ := synthesise_error c n path classPath hk hf hhome
      obtain ⟨hstore, hoverridden, hfields, hmark, hconstructor⟩ :=
        isClosed_revisedStore c n path hk
      rw [hrun]
      exact ⟨_, rfl, hstore, hoverridden, hfields, hmark, hconstructor⟩

end Close

end RubyDoc
