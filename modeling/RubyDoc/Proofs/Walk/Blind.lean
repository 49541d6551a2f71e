import RubyDoc.Proofs.Walk.Rules
import RubyDoc.Proofs.Walk.Signature

/-!
# Walks do not look at the log

What a rule does to the store and the fields is told from the store, the fields, the
docstrings given to nodes and the source. The log is written and never read, so
whatever was logged before, a walk comes to the same records but for the log.
-/

namespace RubyDoc

open RubyDoc.Action

/-- Records that are the same but for the log. -/
structure Records.SameButLog (r r' : Records) : Prop where
  /-- The stores are the same. -/
  store : r.store = r'.store
  /-- The fields are the same. -/
  fields : r.fields = r'.fields
  /-- The docstrings given to nodes are the same. -/
  overridden : r.overridden = r'.overridden

namespace Action

variable {α β : Type}

/-- An action gives the same result and comes to the same records, whatever was logged. -/
def IsBlind (a : Action α) : Prop :=
  ∀ ⦃r r' : Records⦄, r.SameButLog r' →
    (runOn a r).1 = (runOn a r').1 ∧ (runOn a r).2.SameButLog (runOn a r').2

theorem isBlind_pure (a : α) : IsBlind (pure a) := fun _ _ h => ⟨rfl, h⟩

theorem isBlind_throw (fault : Fault) : IsBlind (throw fault : Action α) := fun _ _ h => ⟨rfl, h⟩

theorem isBlind_ofExcept (result : Except Fault α) : IsBlind (ofExcept result) := by
  intro r r' h
  rw [runOn_ofExcept, runOn_ofExcept]
  exact ⟨rfl, h⟩

theorem isBlind_note (level : Level) (channel : Channel) (message : String) :
    IsBlind (note level channel message) :=
  fun _ _ h => ⟨rfl, h.store, h.fields, h.overridden⟩

theorem isBlind_modify {f : Records → Records}
    (hf : ∀ ⦃r r' : Records⦄, r.SameButLog r' → (f r).SameButLog (f r')) : IsBlind (modify f) :=
  fun _ _ h => ⟨rfl, hf h⟩

theorem isBlind_changeStore (f : Store → Store) : IsBlind (changeStore f) :=
  isBlind_modify fun _ _ h => ⟨congrArg f h.store, h.fields, h.overridden⟩

/-- Actions one after the other are blind if each of them is. -/
theorem IsBlind.bind {a : Action α} {f : α → Action β} (ha : IsBlind a)
    (hf : ∀ x, IsBlind (f x)) : IsBlind (a >>= f) := by
  intro r r' h
  obtain ⟨hresult, hrecords⟩ := ha h
  rw [runOn_bind, runOn_bind]
  cases hr : runOn a r with
  | mk result r₁ =>
    cases hr' : runOn a r' with
    | mk result' r₁' =>
      rw [hr, hr'] at hresult hrecords
      dsimp only at hresult hrecords
      subst hresult
      cases result with
      | ok x => exact hf x hrecords
      | error fault => exact ⟨rfl, hrecords⟩

/-- An action that reads records other than the log is blind if what follows is. -/
theorem isBlind_get_bind {f : Records → Action β}
    (hsame : ∀ ⦃r r' : Records⦄, r.SameButLog r' → f r = f r') (hf : ∀ r, IsBlind (f r)) :
    IsBlind (get >>= f) := by
  intro r r' h
  rw [runOn_bind_ok (runOn_get r), runOn_bind_ok (runOn_get r'), hsame h]
  exact hf r' h

theorem isBlind_inStore (f : Store → α) : IsBlind (inStore f) :=
  isBlind_get_bind (fun _ _ h => by rw [h.store]) fun _ => isBlind_pure _

theorem isBlind_revise (method : Entity) (f : Entity → Entity) : IsBlind (revise method f) :=
  (isBlind_changeStore _).bind fun _ => isBlind_pure _

/-- Taking over a steady reading is blind. -/
theorem isBlind_ofReading {reading : Reading α} (h : Reading.IsSteady reading) :
    IsBlind (ofReading reading) := by
  intro r r' hsame
  rw [runOn_ofReading, runOn_ofReading]
  exact ⟨h r.log r'.log, hsame.store, hsame.fields, hsame.overridden⟩

theorem isBlind_register (e : Entity) (known : Bool) : IsBlind (register e known) := by
  unfold register
  refine isBlind_get_bind (fun r r' h => by rw [h.store]) fun r => ?_
  refine (isBlind_ofExcept _).bind fun attached => ?_
  dsimp only
  split
  · exact (isBlind_note _ _ _).bind fun _ => isBlind_changeStore _
  · exact isBlind_changeStore _

/-- A fault that is caught is one log entry more. -/
theorem IsBlind.guarded {a : Action Unit} (ha : IsBlind a) (channel : Channel) (message : String) :
    IsBlind (guarded channel message a) := by
  intro r r' h
  obtain ⟨hresult, hrecords⟩ := ha h
  rw [runOn_guarded, runOn_guarded]
  cases hr : runOn a r with
  | mk result r₁ =>
    cases hr' : runOn a r' with
    | mk result' r₁' =>
      rw [hr, hr'] at hresult hrecords
      dsimp only at hresult hrecords
      subst hresult
      cases result with
      | ok _ => exact ⟨rfl, hrecords⟩
      | error fault => exact ⟨rfl, hrecords.store, hrecords.fields, hrecords.overridden⟩

/-- Making placeholders for missing namespaces is blind. -/
theorem isBlind_ensureNamespace (path : String) : IsBlind (ensureNamespace path) := by
  induction hn : path.length using Nat.strongRecOn generalizing path with
  | ind n ih =>
    rw [ensureNamespace]
    refine (isBlind_inStore _).bind fun found => ?_
    split
    · exact isBlind_pure _
    · split
      · exact isBlind_throw _
      · next hne =>
        refine (ih _ (hn ▸ ObjectPath.length_split_fst path hne) _ rfl).bind fun _ => ?_
        exact (isBlind_note _ _ _).bind fun _ => (isBlind_register _ _).bind fun _ => isBlind_pure _

end Action

/-! ### What is read -/

theorem isBlind_docstringOf (c : Context) (n : Node) : IsBlind (c.docstringOf n) := by
  unfold Context.docstringOf
  exact isBlind_get_bind (fun _ _ h => by rw [h.overridden]) fun _ => isBlind_ofExcept _

theorem isBlind_read (n : Node) : IsBlind n.read := isBlind_ofExcept _

theorem isBlind_map_read {α : Type} (f : String → α) (n : Node) : IsBlind (f <$> n.read) := by
  rw [map_eq_pure_bind]
  exact (isBlind_read n).bind fun _ => isBlind_pure _

theorem isBlind_handleAt (path : String) : IsBlind (handleAt path) := isBlind_inStore _

/-- Putting an attribute into the table is blind, be there a table or not. -/
theorem isBlind_putAttribute (c : Context) (name : String) (slots : Slots) :
    IsBlind (c.putAttribute name slots) := by
  unfold Context.putAttribute
  dsimp only
  split
  · exact (isBlind_throw _).bind fun _ => isBlind_changeStore _
  · exact isBlind_changeStore _

/-! ### Methods, accessors and visibility -/

theorem isBlind_defineMethod (c : Context) (n : Node) (name : String) (scope : Scope) :
    IsBlind (defineMethod c n name scope) := by
  unfold defineMethod
  refine (isBlind_inStore _).bind fun known => (isBlind_inStore _).bind fun method => ?_
  refine (isBlind_docstringOf c n).bind fun docstring => (isBlind_revise _ _).bind fun method => ?_
  refine (isBlind_read n).bind fun source => (isBlind_revise _ _).bind fun method => ?_
  refine (isBlind_ofExcept _).bind fun parameters => (isBlind_revise _ _).bind fun method => ?_
  exact isBlind_register method known

theorem isBlind_processMethod (c : Context) (n : Node) : IsBlind (processMethod c n) := by
  have hdefine : ∀ (nameNode : Node) (scope : Scope),
      IsBlind (do defineMethod c n (← nameNode.read) scope) := fun nameNode scope =>
    (isBlind_read nameNode).bind fun name => isBlind_defineMethod c n name scope
  unfold processMethod
  split
  · next nameNode _ =>
    split
    · refine (isBlind_ofExcept _).bind fun receiver => ?_
      split
      · exact hdefine nameNode .onClass
      · exact isBlind_note _ _ _
    · exact hdefine nameNode c.scope
  · exact isBlind_pure _

theorem isBlind_defineAccessors (c : Context) (n : Node) (docstring source : String)
    (read write : Bool) (name : String) :
    IsBlind (defineAccessors c n docstring source read write name) := by
  have hoptional : ∀ (wanted : Bool) (e : Entity) (a : Action Unit), IsBlind a →
      IsBlind (if wanted then Action.register e >>= fun _ => a else a) := by
    intro wanted e a ha
    split
    · exact (isBlind_register e false).bind fun _ => ha
    · exact ha
  unfold defineAccessors
  exact hoptional read _ _ (hoptional write _ _ (isBlind_putAttribute c name _))

theorem isBlind_defineAccessorsOfAll (c : Context) (n : Node) (docstring source : String)
    (read write : Bool) (arguments : List Node) :
    IsBlind (defineAccessorsOfAll c n docstring source read write arguments) := by
  induction arguments with
  | nil => exact isBlind_pure _
  | cons argument rest ih =>
    rw [defineAccessorsOfAll]
    dsimp only
    split
    · refine (isBlind_ofExcept _).bind fun name => ?_
      exact (isBlind_defineAccessors c n docstring source read write name).bind fun _ => ih
    · exact ih

theorem isBlind_processAccessors (c : Context) (n : Node) (read write : Bool) :
    IsBlind (processAccessors c n read write) := by
  unfold processAccessors
  refine (isBlind_docstringOf c n).bind fun docstring => (isBlind_read n).bind fun source => ?_
  exact isBlind_defineAccessorsOfAll c n docstring source read write n.positionalArguments

theorem isBlind_setVisibility (c : Context) (name : String) (visibility : Visibility) :
    IsBlind (setVisibility c name visibility) := by
  unfold setVisibility
  refine (isBlind_inStore _).bind fun known => ?_
  split
  · exact isBlind_changeStore _
  · exact isBlind_note _ _ _

/-! ### Constants and enumerations -/

theorem isBlind_registerConstant (c : Context) (n left right : Node) :
    IsBlind (registerConstant c n left right) := by
  unfold registerConstant
  refine (isBlind_read left).bind fun name => (isBlind_docstringOf c n).bind fun docstring => ?_
  refine (isBlind_read n).bind fun source => (isBlind_read right).bind fun value => ?_
  exact (isBlind_register _ _).bind fun _ => isBlind_pure _

theorem isBlind_processConstant (c : Context) (n : Node) : IsBlind (processConstant c n) := by
  unfold processConstant
  split
  · exact (isBlind_registerConstant c n _ _).bind fun _ => isBlind_pure _
  · exact isBlind_pure _

theorem isBlind_registerValues (c : Context) (ns : List Node) : IsBlind (registerValues c ns) := by
  induction ns with
  | nil => exact isBlind_pure _
  | cons n rest ih =>
    rw [registerValues]
    split
    · refine (isBlind_registerConstant c n _ _).bind fun constant => ?_
      exact (isBlind_note _ _ _).bind fun _ => ih
    · exact ih

theorem isBlind_processEnum (c : Context) (block : Site) : IsBlind (processEnum c block) :=
  (isBlind_ofExcept _).bind fun ns => isBlind_registerValues c ns

/-! ### Fields -/

theorem isBlind_readRecord (c : Context) (n : Node) (name : String) (types : List String)
    (options : Keywords) (isMutable : Bool) :
    IsBlind (c.readRecord n name types options isMutable) := by
  unfold Context.readRecord
  refine (isBlind_docstringOf c n).bind fun doc => (isBlind_read n).bind fun source => ?_
  cases options.lookup "default" with
  | none => exact isBlind_pure _
  | some value => exact (isBlind_map_read some value).bind fun _ => isBlind_pure _

theorem isBlind_readField (c : Context) (n : Node) (form : FieldForm) (isProp : Bool)
    (name : String) : IsBlind (readField c n form isProp name) := by
  unfold readField
  refine (isBlind_ofExcept _).bind fun typeNode => ?_
  refine (isBlind_ofReading (TypeExpr.isSteady_convertOptional typeNode)).bind fun types => ?_
  refine (isBlind_ofExcept _).bind fun options => ?_
  cases isProp with
  | false => exact isBlind_readRecord c n name types options _
  | true =>
    rw [if_pos rfl]
    cases options.lookup "immutable" with
    | none => exact isBlind_readRecord c n name types options _
    | some value =>
      refine (isBlind_map_read _ value).bind fun immutable => ?_
      exact isBlind_readRecord c n name types options _

theorem isBlind_defineField (c : Context) (n : Node) (form : FieldForm) (f : FieldRecord) :
    IsBlind (defineField c n form f) := by
  have happend : IsBlind (modify fun r : Records => { r with fields := r.fields.append f }) :=
    isBlind_modify fun _ _ h => ⟨h.store, by rw [h.fields], h.overridden⟩
  unfold defineField
  refine happend.bind fun _ => (isBlind_register _ _).bind fun _ => ?_
  exact (isBlind_putAttribute c f.name _).bind fun _ => isBlind_note _ _ _

theorem isBlind_processField (c : Context) (n : Node) (isProp : Bool) :
    IsBlind (processField c n isProp) := by
  unfold processField
  refine (isBlind_ofExcept _).bind fun form => (isBlind_ofExcept _).bind fun found => ?_
  cases found with
  | none => exact isBlind_note _ _ _
  | some name =>
    refine (isBlind_readField c n form isProp name).bind fun f => ?_
    refine isBlind_get_bind (fun _ _ h => by rw [h.fields]) fun r => ?_
    split
    · split
      · exact (isBlind_note _ _ _).bind fun _ => isBlind_defineField c n form f
      · exact isBlind_note _ _ _
    · exact isBlind_defineField c n form f

/-! ### Signatures -/

theorem isBlind_firstNonEmpty {asks : List (Action String)} (h : ∀ ask ∈ asks, IsBlind ask) :
    IsBlind (firstNonEmpty asks) := by
  induction asks with
  | nil => exact isBlind_pure _
  | cons ask rest ih =>
    obtain ⟨hask, hrest⟩ := List.forall_mem_cons.mp h
    cases rest with
    | nil => exact hask
    | cons next others =>
      refine hask.bind fun text => ?_
      split
      · exact ih hrest
      · exact isBlind_pure _

theorem isBlind_updateDocstring (c : Context) (target : Node) (docstring : String) :
    IsBlind (updateDocstring c target docstring) := by
  unfold updateDocstring
  split
  · split
    · exact (isBlind_read _).bind fun name => isBlind_changeStore _
    · exact isBlind_pure _
  · exact isBlind_pure _

theorem isBlind_processSignature (c : Context) (s block : Site) :
    IsBlind (processSignature c s block) := by
  unfold processSignature
  split
  · split
    · exact isBlind_note _ _ _
    · exact isBlind_throw _
  · next following target _ =>
    have hraw : IsBlind (firstNonEmpty [c.docstringOf s.node, c.docstringOf following.node,
        c.docstringOf target.node]) := by
      refine isBlind_firstNonEmpty fun ask hask => ?_
      simp only [List.mem_cons, List.not_mem_nil, or_false] at hask
      rcases hask with rfl | rfl | rfl
      · exact isBlind_docstringOf c s.node
      · exact isBlind_docstringOf c following.node
      · exact isBlind_docstringOf c target.node
    refine hraw.bind fun raw => (isBlind_ofReading (isSteady_applySignature _ _)).bind fun signed => ?_
    refine IsBlind.bind ?_ fun _ => isBlind_updateDocstring c target.node _
    exact isBlind_modify fun _ _ h => ⟨h.store, h.fields, by rw [h.overridden]⟩

/-! ### Classes and modules -/

theorem isBlind_openClass (c : Context) (n : Node) (path : String) :
    IsBlind (openClass c n path) := by
  unfold openClass
  refine (isBlind_ensureNamespace _).bind fun _ => (isBlind_ofExcept _).bind fun superclass => ?_
  refine (isBlind_docstringOf c n).bind fun docstring => (isBlind_inStore _).bind fun existing => ?_
  have hnoted : IsBlind (do
      Action.note .debug .namespaces ("Processing class " ++ path)
      return path) := (isBlind_note _ _ _).bind fun _ => isBlind_pure _
  split
  · exact (isBlind_changeStore _).bind fun _ => hnoted
  · refine (isBlind_register _ _).bind fun _ => ?_
    exact (isBlind_note _ _ _).bind fun _ => isBlind_pure _

theorem isBlind_openModule (c : Context) (n : Node) (path : String) :
    IsBlind (openModule c n path) := by
  unfold openModule
  refine (isBlind_ensureNamespace _).bind fun _ => (isBlind_inStore _).bind fun existing => ?_
  split
  · split
    · refine (isBlind_docstringOf c n).bind fun docstring => ?_
      exact (isBlind_changeStore _).bind fun _ => isBlind_pure _
    · exact isBlind_pure _
  · refine (isBlind_docstringOf c n).bind fun docstring => ?_
    exact (isBlind_register _ _).bind fun _ => isBlind_pure _

theorem isBlind_synthesiseConstructor (c : Context) (n : Node) (path classPath : String) :
    IsBlind (synthesiseConstructor c n path classPath) := by
  unfold synthesiseConstructor
  refine isBlind_get_bind (fun _ _ h => by rw [h.fields]) fun r => ?_
  dsimp only
  split
  · refine (isBlind_inStore _).bind fun known => (isBlind_inStore _).bind fun method => ?_
    refine (isBlind_revise _ _).bind fun method' => (isBlind_register _ _).bind fun _ => ?_
    refine (isBlind_revise _ _).bind fun _ => IsBlind.bind ?_ fun _ => isBlind_note _ _ _
    exact isBlind_modify fun _ _ h => ⟨h.store, by rw [h.fields], h.overridden⟩
  · exact isBlind_pure _

theorem isBlind_closeClass (c : Context) (n : Node) (path classPath : String) :
    IsBlind (c.closeClass n path classPath) :=
  (isBlind_synthesiseConstructor c n path classPath).guarded _ _

/-! ### Walks -/

mutual

/-- Going through one statement is blind. -/
theorem isBlind_walk (c : Context) : (s : Statement) → IsBlind (walk c s)
  | .plain _ => isBlind_pure ()
  | .illegible _ => isBlind_throw _
  | .keyword _ _ => isBlind_pure ()
  | .signature s block => (isBlind_processSignature c s block).guarded _ _
  | .restriction _ visibility arguments =>
    (isBlind_walkArguments c visibility { c with visibility } arguments).guarded _ _
  | .classBody s body => by
    refine IsBlind.guarded ?_ _ _
    refine (isBlind_ofExcept _).bind fun path => ?_
    refine (isBlind_openClass c s.node path).bind fun classPath => ?_
    refine (isBlind_handleAt classPath).bind fun handle => ?_
    refine (isBlind_walkAll (c.inside handle) body).bind fun _ => ?_
    exact isBlind_closeClass c s.node path classPath
  | .moduleBody s body => by
    refine IsBlind.guarded ?_ _ _
    refine (isBlind_ofExcept _).bind fun path => ?_
    refine (isBlind_openModule c s.node path).bind fun modulePath => ?_
    refine (isBlind_handleAt modulePath).bind fun handle => ?_
    exact isBlind_walkAll (c.inside handle) body
  | .singletonBody _ body => (isBlind_walkAll (c.inside c.home .onClass) body).guarded _ _
  | .method s => (isBlind_processMethod c s.node).guarded _ _
  | .accessors s read write => (isBlind_processAccessors c s.node read write).guarded _ _
  | .constant s => (isBlind_processConstant c s.node).guarded _ _
  | .enumValues _ block => (isBlind_processEnum c block).guarded _ _
  | .field s isProp => (isBlind_processField c s.node isProp).guarded _ _

/-- Going through the statements of a body is blind. -/
theorem isBlind_walkAll (c : Context) : (body : List Statement) → IsBlind (walkAll c body)
  | [] => isBlind_pure ()
  | statement :: rest =>
    (isBlind_walk c statement).bind fun _ =>
      isBlind_walkAll { c with visibility := statement.visibilityAfter c.visibility } rest

/-- Going through the arguments of a visibility call is blind. -/
theorem isBlind_walkArguments (c : Context) (visibility : Visibility) (inner : Context) :
    (arguments : List Statement) → IsBlind (walkArguments c visibility inner arguments)
  | [] => isBlind_pure ()
  | argument :: rest => by
    have hrest := isBlind_walkArguments c visibility
      { inner with visibility := argument.visibilityAfter inner.visibility } rest
    rw [walkArguments]
    dsimp only
    split
    · refine (isBlind_ofExcept _).bind fun name => ?_
      exact (isBlind_setVisibility c name visibility).bind fun _ => hrest
    · exact (isBlind_walk inner argument).bind fun _ => hrest

end

/-- **Walks are blind.** A source is documented in the same way whatever was logged before. -/
theorem isBlind_walkSource (config : Config) (source : Source) :
    IsBlind (walkSource config source) := isBlind_walkAll _ _

end RubyDoc
