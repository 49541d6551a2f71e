import RubyDoc.Proofs.Walk.Rules

/-!
# Visibilities and tables

Every rule changes the store by edits: something is registered, an entity is edited in place,
or an attribute is put into a table. Which visibilities methods get by that, and which
attributes are put in, is followed for each rule, whatever source it reads and whether it
gives a result or ends in a fault half-way. What is declared plays no part here.
-/

namespace RubyDoc

open RubyDoc.Action ObjectPath

/-! ### Actions that go by steps -/

namespace Action

variable {α β σ : Type} {view : Records → σ} {Step : σ → σ → Prop}

/-- An action that goes by steps, as far as they are seen of the records. -/
def GoesBy (view : Records → σ) (Step : σ → σ → Prop) (a : Action α) : Prop :=
  ∀ r : Records, Relation.ReflTransGen Step (view r) (view (runOn a r).2)

theorem goesBy_of_eq {a : Action α} (h : ∀ r, view (runOn a r).2 = view r) :
    GoesBy view Step a := by
  intro r
  rw [h]

theorem goesBy_single {a : Action α} (h : ∀ r, Step (view r) (view (runOn a r).2)) :
    GoesBy view Step a := fun r => .single (h r)

theorem GoesBy.bind {a : Action α} {f : α → Action β} (ha : GoesBy view Step a)
    (hf : ∀ x, MayGive a x → GoesBy view Step (f x)) : GoesBy view Step (a >>= f) := by
  intro r
  have hfirst := ha r
  rw [runOn_bind]
  cases h : runOn a r with
  | mk result r' =>
    rw [h] at hfirst
    cases result with
    | error fault => exact hfirst
    | ok x => exact hfirst.trans (hf x ⟨r, by rw [h]⟩ r')

/-- A fault that is caught is one log entry more. -/
theorem GoesBy.guarded {a : Action Unit} (ha : GoesBy view Step a)
    (hlog : ∀ r log, Relation.ReflTransGen Step (view r) (view { r with log }))
    (channel : Channel) (message : String) : GoesBy view Step (guarded channel message a) := by
  intro r
  have hfirst := ha r
  rw [runOn_guarded]
  cases h : runOn a r with
  | mk result r' =>
    rw [h] at hfirst
    cases result with
    | ok _ => exact hfirst
    | error fault => exact hfirst.trans (hlog r' _)

/-- More steps allow more. -/
theorem GoesBy.mono {Step' : σ → σ → Prop} {a : Action α} (ha : GoesBy view Step a)
    (h : ∀ x y, Step x y → Step' x y) : GoesBy view Step' a := fun r =>
  Relation.ReflTransGen.mono h _ _ (ha r)

/-- What leaves the store goes by no step of it. -/
theorem IsQuiet.goesBy {Step : Store → Store → Prop} {a : Action α} (h : IsQuiet a) :
    GoesBy Records.store Step a := goesBy_of_eq h.store

end Action

/-! ### Edits -/

/-- The visibility of a method. -/
def Entity.visibility? (e : Entity) : Option Visibility := e.facts?.map MethodFacts.visibility

/-- One edit of the store. `V` says which visibility what is registered may have, or what is
edited may get, there being none if it is no method. `T` says which attributes may be put into
the tables of which namespaces. -/
inductive Store.Edit (V : Option Visibility → Prop) (T : Handle → Scope → String → Prop) :
    Store → Store → Prop
  /-- Something is registered. -/
  | register {s s' : Store} {e : Entity} (he : V e.visibility?) (ha : s.attach e = .ok s') :
    Edit V T s s'
  /-- What stands at a path is edited in place, and may get another visibility. -/
  | modify (s : Store) (path : String) {f : Entity → Entity} (hf : ∀ e, Entity.IsEdited e (f e))
    (hv : ∀ e, (f e).visibility? = e.visibility? ∨ V (f e).visibility?) :
    Edit V T s (s.modify path f)
  /-- An attribute is put into a table. -/
  | put (s : Store) {handle : Handle} {scope : Scope} {name : String}
    (h : T handle scope name) (slots : Slots) :
    Edit V T s (s.editMembers handle fun m => m.putAttribute scope name slots)

variable {V : Option Visibility → Prop} {T : Handle → Scope → String → Prop}

/-- An action that goes by edits of the store. -/
abbrev Action.Edits {α : Type} (V : Option Visibility → Prop) (T : Handle → Scope → String → Prop)
    (a : Action α) : Prop :=
  Action.GoesBy Records.store (Store.Edit V T) a

namespace Entity

/-- What keeps the kind of an entity keeps its visibility. -/
theorem visibility?_of_kind {e e' : Entity} (h : e'.kind = e.kind) :
    e'.visibility? = e.visibility? := by
  rw [visibility?, facts?, h, visibility?, facts?]

theorem IsEdited.isMethod {e e' : Entity} (h : e.IsEdited e') (he : e.isMethod = true) :
    e'.isMethod = true := by
  rw [isMethod_iff_name] at he ⊢
  rw [h.kind, he]

/-- The visibility of a method whose facts are changed is the one that the change gives. -/
theorem visibility?_mapFacts {f : MethodFacts → MethodFacts} {visibility : Visibility}
    (hf : ∀ facts, (f facts).visibility = visibility) {e : Entity} (he : e.isMethod = true) :
    (e.mapFacts f).visibility? = some visibility := by
  obtain ⟨name, home, docstring, source, file, line, kind⟩ := e
  cases kind with
  | method facts => exact congrArg some (hf facts)
  | root m => cases he
  | moduleSpace m => cases he
  | classSpace m superclass => cases he
  | constant value => cases he

/-- Opening a class again leaves the visibility of what stands in its place. -/
theorem visibility?_reopenClass (superclass : Option String) (docstring : String) (e : Entity) :
    (reopenClass superclass docstring e).visibility? = e.visibility? := by
  have hfilled : (if e.docstring == "" then { e with docstring } else e : Entity).kind = e.kind := by
    split <;> rfl
  rw [reopenClass, ← visibility?_of_kind hfilled]
  generalize (if e.docstring == "" then { e with docstring } else e : Entity) = filled
  split
  · next m known hkind =>
    split
    · rw [visibility?, facts?, visibility?, facts?, hkind]
    · rfl
  · rfl

end Entity

namespace Node

/-- The names of the attributes that an accessor macro is for, as far as they can be read. -/
def accessed (arguments : List Node) : List String :=
  (arguments.filter fun a => nameKinds.contains a.kind).filterMap fun a => a.symbolName.toOption

theorem accessed_cons (a : Node) (rest : List Node) :
    accessed (a :: rest) =
      (if nameKinds.contains a.kind then a.symbolName.toOption.toList else []) ++ accessed rest := by
  rw [accessed, List.filter_cons]
  split
  · rw [List.filterMap_cons]
    cases a.symbolName <;> rfl
  · rfl

/-- The names behind the first argument are among all. -/
theorem mem_accessed_cons (a : Node) {rest : List Node} {name : String}
    (h : name ∈ accessed rest) : name ∈ accessed (a :: rest) := by
  rw [accessed_cons]
  exact List.mem_append_right _ h

/-- The name of the first argument is among all. -/
theorem mem_accessed_of_name {a : Node} (rest : List Node)
    (hkind : nameKinds.contains a.kind = true) {name : String} (hname : a.symbolName = .ok name) :
    name ∈ accessed (a :: rest) := by
  rw [accessed_cons, if_pos hkind, hname]
  exact List.mem_cons_self

end Node

namespace Action

theorem edits_register {e : Entity} (he : V e.visibility?) (known : Bool) :
    Edits V T (register e known) := by
  intro r
  rw [runOn_register]
  cases ha : r.store.attach e with
  | error fault => exact .refl
  | ok s => exact .single (.register he ha)

theorem edits_modify (path : String) {f : Entity → Entity} (hf : ∀ e, Entity.IsEdited e (f e))
    (hv : ∀ e, (f e).visibility? = e.visibility? ∨ V (f e).visibility?) :
    Edits V T (changeStore fun s => s.modify path f) :=
  goesBy_single fun r => .modify r.store path hf hv

theorem edits_editMethod (path : String) {f : Entity → Entity} (hf : ∀ e, Entity.IsEdited e (f e))
    (hv : ∀ e, e.isMethod = true → (f e).visibility? = e.visibility? ∨ V (f e).visibility?) :
    Edits V T (changeStore fun s => s.editMethod path f) := by
  refine edits_modify path (Entity.isEdited_of_method hf) fun e => ?_
  split
  · next he => exact hv e he
  · exact .inl rfl

theorem edits_revise (method : Entity) {f : Entity → Entity} (hf : ∀ e, Entity.IsEdited e (f e))
    (hv : ∀ e, e.isMethod = true → (f e).visibility? = e.visibility? ∨ V (f e).visibility?) :
    Edits V T (revise method f) :=
  GoesBy.bind (edits_editMethod method.path hf hv) fun _ _ => (isQuiet_pure _).goesBy

theorem eq_of_mayGive_ofExcept {α : Type} {result : Except Fault α} {x : α}
    (h : MayGive (ofExcept result) x) : result = .ok x := by
  obtain ⟨r, hr⟩ := h
  rwa [runOn_ofExcept] at hr

theorem eq_of_mayGive_revise {e e' : Entity} {f : Entity → Entity} (h : MayGive (revise e f) e') :
    e' = f e := by
  obtain ⟨r, hr⟩ := h
  rw [runOn_revise] at hr
  exact (Except.ok.inj hr).symm

/-- What is found to be defined is a method. -/
theorem isMethod_of_mayGive_findOrNewMethod {home name : String} {scope : Scope} {e : Entity}
    (h : MayGive (inStore fun s => s.findOrNewMethod home name scope) e) : e.isMethod = true := by
  obtain ⟨r, hr⟩ := h
  rw [runOn_inStore] at hr
  rw [← Except.ok.inj hr, Store.findOrNewMethod, Store.method?]
  cases r.store.find? (Entity.newMethod home name scope).path with
  | none => rfl
  | some known =>
    dsimp only
    split
    · next hknown => exact hknown
    · rfl

/-- Records other than the store may be changed. -/
theorem edits_modifyRecords {f : Records → Records} (h : ∀ r, (f r).store = r.store) :
    Edits V T (modify f) := goesBy_of_eq h

end Action

section Rules

variable (c : Context) (n : Node)

/-- Putting an attribute into the table of the context. -/
theorem edits_putAttribute {name : String} (slots : Slots) (hT : T c.home c.scope name) :
    Edits V T (c.putAttribute name slots) := by
  have hput : Edits V T
      (changeStore fun s => s.editMembers c.home fun m => m.putAttribute c.scope name slots) :=
    goesBy_single fun r => .put r.store hT slots
  unfold Context.putAttribute
  dsimp only
  split
  · exact (isQuiet_throw _).goesBy.bind fun _ _ => hput
  · exact hput

/-! ### Methods -/

/-- What a definition makes of the facts of its method. -/
def Context.defined (parameters : List (String × Option String)) (e : Entity) : Entity :=
  c.declaredAt n (e.mapFacts fun f =>
    { f with parameters, visibility := c.visibility, explicit := some true })

theorem Context.visibility?_defined (parameters : List (String × Option String)) {e : Entity}
    (he : e.isMethod = true) : (c.defined n parameters e).visibility? = some c.visibility :=
  Entity.visibility?_mapFacts (f := fun f =>
    { f with parameters, visibility := c.visibility, explicit := some true }) (fun _ => rfl) he

/-- A method that is defined gets the visibility of the context. -/
theorem edits_defineMethod (name : String) (scope : Scope) (hv : V (some c.visibility)) :
    Edits V T (defineMethod c n name scope) := by
  unfold defineMethod
  refine (isQuiet_inStore _).goesBy.bind fun known _ =>
    (isQuiet_inStore _).goesBy.bind fun method hmethod => ?_
  have hfirst := isMethod_of_mayGive_findOrNewMethod hmethod
  refine (isQuiet_docstringOf c n).goesBy.bind fun docstring _ => ?_
  have hdocstring := fun e => Entity.IsEdited.docstring e docstring
  refine GoesBy.bind (edits_revise method hdocstring fun _ _ => .inl rfl) fun documented h => ?_
  have hsecond := eq_of_mayGive_revise h ▸ (hdocstring method).isMethod hfirst
  refine (isQuiet_read n).goesBy.bind fun source _ => ?_
  have hsource := fun e => Entity.IsEdited.source e (some source)
  refine GoesBy.bind (edits_revise documented hsource fun _ _ => .inl rfl) fun sourced h => ?_
  have hthird := eq_of_mayGive_revise h ▸ (hsource documented).isMethod hsecond
  refine (isQuiet_ofExcept _).goesBy.bind fun parameters _ => ?_
  have hgiven : ∀ e : Entity, e.isMethod = true → V (c.defined n parameters e).visibility? :=
    fun e he => (c.visibility?_defined n parameters he).symm ▸ hv
  refine GoesBy.bind (edits_revise sourced (fun e => .trans (.mapFacts (by intro _; rfl) e)
    (.declaredAt c n _)) fun e he => .inr (hgiven e he)) fun revised h => ?_
  rw [eq_of_mayGive_revise h]
  exact edits_register (hgiven sourced hthird) known

/-- So does one that a definition defines. -/
theorem edits_processMethod (hv : V (some c.visibility)) : Edits V T (processMethod c n) := by
  unfold processMethod
  split
  · split
    · refine (isQuiet_ofExcept _).goesBy.bind fun receiver _ => ?_
      split
      · exact (isQuiet_read _).goesBy.bind fun name _ => edits_defineMethod c n name .onClass hv
      · exact (isQuiet_note _ _ _).goesBy
    · exact (isQuiet_read _).goesBy.bind fun name _ => edits_defineMethod c n name c.scope hv
  · exact (isQuiet_pure _).goesBy

/-- Accessors get the visibility of the context, and only their attribute is put in. -/
theorem edits_defineAccessors (docstring source : String) (read write : Bool) (name : String)
    (hv : V (some c.visibility)) (hT : T c.home c.scope name) :
    Edits V T (defineAccessors c n docstring source read write name) := by
  have hregister : ∀ name docstring parameters, Edits V T
      (register (c.declaredAt n (accessorMethod c name docstring source parameters))) := by
    exact fun name docstring parameters => edits_register hv false
  unfold defineAccessors
  dsimp only
  cases read with
  | false =>
    cases write with
    | false => exact edits_putAttribute c _ hT
    | true => exact (hregister _ _ _).bind fun _ _ => edits_putAttribute c _ hT
  | true =>
    cases write with
    | false => exact (hregister _ _ _).bind fun _ _ => edits_putAttribute c _ hT
    | true =>
      exact (hregister _ _ _).bind fun _ _ => (hregister _ _ _).bind fun _ _ =>
        edits_putAttribute c _ hT

/-- So do those of all attributes of a macro. -/
theorem edits_defineAccessorsOfAll (docstring source : String) (read write : Bool)
    (hv : V (some c.visibility)) {arguments : List Node}
    (hT : ∀ name ∈ Node.accessed arguments, T c.home c.scope name) :
    Edits V T (defineAccessorsOfAll c n docstring source read write arguments) := by
  induction arguments with
  | nil => exact (isQuiet_pure _).goesBy
  | cons a rest ih =>
    have hrest : Edits V T (defineAccessorsOfAll c n docstring source read write rest) :=
      ih fun name h => hT name (Node.mem_accessed_cons a h)
    rw [defineAccessorsOfAll]
    dsimp only
    split
    · next hkind =>
      refine (isQuiet_ofExcept _).goesBy.bind fun name hname => GoesBy.bind ?_ fun _ _ => hrest
      refine edits_defineAccessors c n docstring source read write name hv (hT name ?_)
      exact Node.mem_accessed_of_name rest hkind (eq_of_mayGive_ofExcept hname)
    · exact hrest

theorem edits_processAccessors (read write : Bool) (hv : V (some c.visibility))
    (hT : ∀ name ∈ Node.accessed n.positionalArguments, T c.home c.scope name) :
    Edits V T (processAccessors c n read write) := by
  unfold processAccessors
  refine (isQuiet_docstringOf c n).goesBy.bind fun docstring _ => ?_
  refine (isQuiet_read n).goesBy.bind fun source _ => ?_
  exact edits_defineAccessorsOfAll c n docstring source read write hv hT

/-- A visibility call gives methods its visibility and no other. -/
theorem edits_setVisibility (name : String) {visibility : Visibility} (hv : V (some visibility)) :
    Edits V T (setVisibility c name visibility) := by
  unfold setVisibility
  refine (isQuiet_inStore _).goesBy.bind fun known _ => ?_
  split
  · refine edits_editMethod _ (.mapFacts (by intro _; rfl)) fun e he => .inr ?_
    rwa [Entity.visibility?_mapFacts (f := fun f => { f with visibility }) (fun _ => rfl) he]
  · exact (isQuiet_note _ _ _).goesBy

/-! ### Fields -/

/-- The reader of a field gets the visibility of the context, and only the field is put in. -/
theorem edits_defineField (form : FieldForm) (f : FieldRecord) (hv : V (some c.visibility))
    (hT : T c.home c.scope f.name) : Edits V T (defineField c n form f) := by
  unfold defineField
  refine GoesBy.bind (edits_modifyRecords fun _ => rfl) fun _ _ => ?_
  dsimp only
  exact GoesBy.bind (edits_register hv false) fun _ _ =>
    (edits_putAttribute c _ hT).bind fun _ _ => (isQuiet_note _ _ _).goesBy

theorem edits_processField (isProp : Bool) (hv : V (some c.visibility))
    (hT : ∀ name ∈ n.usableName?, T c.home c.scope name) :
    Edits V T (processField c n isProp) := by
  unfold processField
  refine (isQuiet_ofExcept _).goesBy.bind fun form _ =>
    (isQuiet_ofExcept _).goesBy.bind fun name? hname => ?_
  cases name? with
  | none => exact (isQuiet_note _ _ _).goesBy
  | some name =>
    have husable : name ∈ n.usableName? := by
      rw [Node.usableName?, eq_of_mayGive_ofExcept hname]
      rfl
    refine (isQuiet_readField c n form isProp name).goesBy.bind fun f hf => ?_
    have hdefine : Edits V T (defineField c n form f) := by
      refine edits_defineField c n form f hv ?_
      rw [(of_mayGive_readField hf).2]
      exact hT name husable
    refine isQuiet_get.goesBy.bind fun r _ => ?_
    split
    · split
      · exact (isQuiet_note _ _ _).goesBy.bind fun _ _ => hdefine
      · exact (isQuiet_note _ _ _).goesBy
    · exact hdefine

/-! ### What gives no visibility -/

/-- A constant has no visibility. -/
theorem edits_registerConstant (hv : V none) (left right : Node) :
    Edits V T (registerConstant c n left right) := by
  unfold registerConstant
  refine (isQuiet_read left).goesBy.bind fun name _ => ?_
  refine (isQuiet_docstringOf c n).goesBy.bind fun docstring _ => ?_
  refine (isQuiet_read n).goesBy.bind fun source _ => ?_
  refine (isQuiet_read right).goesBy.bind fun value _ => ?_
  exact GoesBy.bind (edits_register hv false) fun _ _ => (isQuiet_pure _).goesBy

theorem edits_processConstant (hv : V none) : Edits V T (processConstant c n) := by
  unfold processConstant
  split
  · exact (edits_registerConstant c n hv _ _).bind fun _ _ => (isQuiet_pure _).goesBy
  · exact (isQuiet_pure _).goesBy

theorem edits_registerValues (hv : V none) (ns : List Node) : Edits V T (registerValues c ns) := by
  induction ns with
  | nil => exact (isQuiet_pure _).goesBy
  | cons n rest ih =>
    rw [registerValues]
    split
    · exact (edits_registerConstant c n hv _ _).bind fun _ _ =>
        (isQuiet_note _ _ _).goesBy.bind fun _ _ => ih
    · exact ih

theorem edits_processEnum (hv : V none) (block : Site) : Edits V T (processEnum c block) :=
  (isQuiet_ofExcept _).goesBy.bind fun ns _ => edits_registerValues c hv ns

/-- A signature leaves the visibility of the method that it is about. -/
theorem edits_updateDocstring (target : Node) (docstring : String) :
    Edits V T (updateDocstring c target docstring) := by
  unfold updateDocstring
  split
  · split
    · refine (isQuiet_read _).goesBy.bind fun name _ => ?_
      refine edits_editMethod _ (fun e => ?_) fun e _ => .inl ?_
      · split
        · exact .docstring e docstring
        · exact .refl e
      · split <;> rfl
    · exact (isQuiet_pure _).goesBy
  · exact (isQuiet_pure _).goesBy

theorem edits_processSignature (site block : Site) : Edits V T (processSignature c site block) := by
  unfold processSignature
  split
  · split
    · exact (isQuiet_note _ _ _).goesBy
    · exact (isQuiet_throw _).goesBy
  · next following target _ =>
    have hraw := isQuiet_firstDocstring c [site.node, following.node, target.node]
    refine hraw.goesBy.bind fun raw _ => ?_
    dsimp only
    refine (isQuiet_ofReading _).goesBy.bind fun signed _ => ?_
    refine GoesBy.bind (edits_modifyRecords fun _ => rfl) fun _ _ => ?_
    exact edits_updateDocstring c target.node _

/-! ### Namespaces -/

/-- A namespace has no visibility, and neither have the placeholders on the way to it. -/
theorem edits_ensureNamespace (hv : V none) (path : String) : Edits V T (ensureNamespace path) := by
  induction hn : path.length using Nat.strongRecOn generalizing path with
  | ind n ih =>
    rw [ensureNamespace]
    refine (isQuiet_inStore _).goesBy.bind fun found _ => ?_
    split
    · exact (isQuiet_pure _).goesBy
    · split
      · exact (isQuiet_throw _).goesBy
      · next hne =>
        refine GoesBy.bind (ih _ (hn ▸ length_split_fst path hne) _ rfl) fun _ _ => ?_
        refine (isQuiet_note _ _ _).goesBy.bind fun _ _ => ?_
        exact GoesBy.bind (edits_register hv false) fun _ _ => (isQuiet_pure _).goesBy

theorem edits_openClass (hv : V none) (path : String) : Edits V T (openClass c n path) := by
  unfold openClass
  dsimp only
  refine (edits_ensureNamespace hv _).bind fun _ _ => ?_
  refine (isQuiet_ofExcept _).goesBy.bind fun superclass _ => ?_
  refine (isQuiet_docstringOf c n).goesBy.bind fun docstring _ => ?_
  refine (isQuiet_inStore _).goesBy.bind fun existing _ => ?_
  have hnoted : ∀ opened : String, Edits V T (do
      note .debug .namespaces ("Processing class " ++ path)
      return opened) := fun opened =>
    (isQuiet_note _ _ _).goesBy.bind fun _ _ => (isQuiet_pure _).goesBy
  split
  · refine GoesBy.bind (edits_modify path (.reopenClass superclass docstring) fun e => .inl ?_)
      fun _ _ => (isQuiet_pure _).goesBy.bind fun opened _ => hnoted opened
    exact Entity.visibility?_reopenClass superclass docstring e
  · exact GoesBy.bind (edits_register hv false) fun _ _ =>
      (isQuiet_pure _).goesBy.bind fun opened _ => hnoted opened

theorem edits_openModule (hv : V none) (path : String) : Edits V T (openModule c n path) := by
  unfold openModule
  dsimp only
  refine (edits_ensureNamespace hv _).bind fun _ _ => ?_
  refine (isQuiet_inStore _).goesBy.bind fun existing _ => ?_
  split
  · split
    · refine (isQuiet_docstringOf c n).goesBy.bind fun docstring _ => ?_
      refine GoesBy.bind (edits_modify path (fun e => .docstring e docstring) fun e => .inl rfl)
        fun _ _ => (isQuiet_pure _).goesBy
    · exact (isQuiet_pure _).goesBy
  · refine (isQuiet_docstringOf c n).goesBy.bind fun docstring _ => ?_
    exact GoesBy.bind (edits_register hv false) fun _ _ => (isQuiet_pure _).goesBy

/-- A constructor that is made of fields keeps its visibility, or has that of everyone. -/
theorem edits_closeClass (path classPath : String) (hv : ∀ v, V v) :
    Edits V T (c.closeClass n path classPath) := by
  refine GoesBy.guarded ?_ (fun r log => .refl) _ _
  unfold synthesiseConstructor
  refine isQuiet_get.goesBy.bind fun r _ => ?_
  dsimp only
  split
  · refine (isQuiet_inStore _).goesBy.bind fun known _ =>
      (isQuiet_inStore _).goesBy.bind fun method _ => ?_
    have hrevised := fun e => Entity.IsEdited.revised c n (r.fields.fieldsFor path) e
    refine GoesBy.bind (edits_revise method hrevised fun e _ => .inr (hv _)) fun revised _ => ?_
    refine GoesBy.bind (edits_register (hv _) known) fun _ _ => ?_
    refine GoesBy.bind (edits_revise revised (fun e => .docstring e _) fun e _ => .inr (hv _))
      fun _ _ => ?_
    exact GoesBy.bind (edits_modifyRecords fun _ => rfl) fun _ _ => (isQuiet_note _ _ _).goesBy
  · exact (isQuiet_pure _).goesBy

end Rules

end RubyDoc
