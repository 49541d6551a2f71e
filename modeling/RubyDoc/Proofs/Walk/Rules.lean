import RubyDoc.Proofs.Walk.Change
import RubyDoc.Proofs.Walk.Handlers
import RubyDoc.Proofs.Walk.Closing
import RubyDoc.Walk.Basic

/-!
# What each rule changes

Every rule changes the store step by step, registering no more than its statement
declares. Nothing is assumed of the source: a rule that ends in a fault has taken
the first of its steps. Reading texts, comments and types leaves the store.
-/

namespace RubyDoc

open RubyDoc.Action ObjectPath

/-! ### Edits -/

namespace Entity.IsEdited

variable {e e' e'' : Entity}

theorem trans (h : e.IsEdited e') (h' : e'.IsEdited e'') : e.IsEdited e'' :=
  ⟨h'.path.trans h.path, h'.home.trans h.home, h'.members.trans h.members, h'.kind.trans h.kind⟩

theorem docstring (e : Entity) (docstring : String) : e.IsEdited { e with docstring } :=
  ⟨rfl, rfl, rfl, rfl⟩

theorem source (e : Entity) (source : Option String) : e.IsEdited { e with source } :=
  ⟨rfl, rfl, rfl, rfl⟩

theorem declaredAt (c : Context) (n : Node) (e : Entity) : e.IsEdited (c.declaredAt n e) :=
  ⟨rfl, rfl, rfl, rfl⟩

/-- What is special to a method may change, but for its scope. -/
theorem mapFacts {f : MethodFacts → MethodFacts} (hf : ∀ facts, (f facts).scope = facts.scope)
    (e : Entity) : e.IsEdited (e.mapFacts f) := by
  obtain ⟨name, home, docstring, source, file, line, kind⟩ := e
  cases kind with
  | method facts =>
    refine ⟨?_, rfl, rfl, rfl⟩
    rw [Entity.mapFacts, Entity.path, Entity.path]
    dsimp only
    rw [hf]
  | root m => exact .refl _
  | moduleSpace m => exact .refl _
  | classSpace m superclass => exact .refl _
  | constant value => exact .refl _

/-- Opening a class again edits it. -/
theorem reopenClass (superclass : Option String) (docstring : String) (e : Entity) :
    e.IsEdited (reopenClass superclass docstring e) := by
  have hfilled : e.IsEdited (if e.docstring == "" then { e with docstring } else e) := by
    split
    · exact .docstring e docstring
    · exact .refl e
  refine hfilled.trans ?_
  rw [RubyDoc.reopenClass]
  generalize (if e.docstring == "" then { e with docstring } else e : Entity) = filled
  obtain ⟨name, home, known, source, file, line, kind⟩ := filled
  cases kind with
  | classSpace m s =>
    dsimp only
    split
    · exact ⟨rfl, rfl, rfl, rfl⟩
    · exact .refl _
  | root m => exact .refl _
  | moduleSpace m => exact .refl _
  | constant value => exact .refl _
  | method facts => exact .refl _

/-- Giving a constructor its parameters edits it. -/
theorem revised (c : Context) (n : Node) (fields : List FieldRecord) (e : Entity) :
    e.IsEdited (c.revised n fields e) := by
  have hfacts : e.IsEdited (e.mapFacts fun f =>
      { f with parameters := constructorParameters fields
               explicit := some (f.explicit.getD false) }) := .mapFacts (by intro _; rfl) e
  unfold Context.revised
  dsimp only
  refine hfacts.trans ?_
  generalize Entity.mapFacts _ e = edited
  split
  · exact .trans (.source edited _) (.declaredAt c n _)
  · exact .source edited _

end Entity.IsEdited

namespace Store.IsMethodFor

variable {s : Store} {d : Declaration} {e : Entity}

/-- A method that is revised, in hand and in the store alike, is still for its
declaration. -/
theorem revise (h : s.IsMethodFor d e) {f : Entity → Entity} (hf : ∀ e, Entity.IsEdited e (f e)) :
    (s.editMethod e.path f).IsMethodFor d (f e) := by
  have hmethod : ∀ e : Entity, e.isMethod = true → (f e).isMethod = true := by
    intro e he
    rw [Entity.isMethod_iff_name] at he ⊢
    rw [(hf e).kind, he]
  refine ⟨hmethod e h.isMethod, (hf e).path.trans h.path, ?_⟩
  rw [(hf e).home, (hf e).path]
  refine h.home.imp_right fun ⟨known, hfind, hknown, hhome⟩ => ⟨f known, ?_, hmethod known hknown, ?_⟩
  · rw [find?_editMethod, if_pos rfl, hfind, Option.map_some, if_pos hknown]
  · rw [(hf known).home, hhome]

/-- The method with an identity is for the declaration of that identity. -/
theorem findOrNewMethod (hk : s.IsKeyed) (home name : String) (scope : Scope) :
    s.IsMethodFor (.ofMethod home name scope) (s.findOrNewMethod home name scope) := by
  obtain ⟨hmethod, hpath⟩ := findOrNewMethod_spec hk home name scope
  refine ⟨hmethod, hpath, ?_⟩
  rw [hpath]
  rw [Store.findOrNewMethod, method?] at hmethod ⊢
  cases hf : s.find? (Entity.newMethod home name scope).path with
  | none => exact .inl rfl
  | some e =>
    dsimp only
    split
    · next hm => exact .inr ⟨e, rfl, hm, rfl⟩
    · exact .inl rfl

end Store.IsMethodFor

/-- A new method may be registered where it is declared. -/
theorem Store.Registers.newMethod {D : Declaration → Prop} {s : Store} {e : Entity}
    {facts : MethodFacts} (hkind : e.kind = .method facts)
    (hd : D (.ofMethod e.home e.name facts.scope)) : s.Registers D e := by
  obtain ⟨name, home, docstring, source, file, line, kind⟩ := e
  subst hkind
  exact .method hd rfl ⟨rfl, rfl, .inl rfl⟩

/-! ### Reading -/

theorem isQuiet_docstringOf (c : Context) (n : Node) : IsQuiet (c.docstringOf n) :=
  isQuiet_get.bind fun _ => isQuiet_ofExcept _

theorem isQuiet_read (n : Node) : IsQuiet n.read := isQuiet_ofExcept _

variable {D : Declaration → Prop} {s : Store}

/-- Putting in an attribute whose reader and writer are registered is one change. -/
theorem changesFrom_putAttribute (c : Context) (name : String) {slots : Slots}
    (hslots : ∀ path, slots.Names path → path ∈ s.keys) :
    ChangesFrom D s (c.putAttribute name slots) := by
  have hput : ChangesFrom D s
      (changeStore fun s => s.editMembers c.home fun m => m.putAttribute c.scope name slots) := by
    intro r hr
    rw [runOn_changeStore]
    dsimp only
    rw [hr]
    exact .single (.slots s c.home c.scope name hslots)
  unfold Context.putAttribute
  dsimp only
  split
  · exact (isQuiet_throw _).changesFrom_bind fun _ _ => hput
  · exact hput

/-! ### Methods -/

/-- A method definition registers its method. -/
theorem changesFrom_defineMethod (c : Context) (n : Node) (name : String) (scope : Scope)
    (hd : D (.ofMethod c.home.path name scope)) (hk : s.IsKeyed) :
    ChangesFrom D s (defineMethod c n name scope) := by
  unfold defineMethod
  refine changesFrom_inStore_bind (changesFrom_inStore_bind ?_)
  have hmethod := Store.IsMethodFor.findOrNewMethod hk c.home.path name scope
  generalize s.findOrNewMethod c.home.path name scope = m at hmethod
  refine (isQuiet_docstringOf c n).changesFrom_bind fun docstring _ => ?_
  have hdocstring : ∀ e : Entity, e.IsEdited { e with docstring } := fun e => .docstring e docstring
  refine changesFrom_revise_bind hdocstring ?_
  refine (isQuiet_read n).changesFrom_bind fun source _ => ?_
  have hsource : ∀ e : Entity, e.IsEdited { e with source := some source } := fun e => .source e _
  refine changesFrom_revise_bind hsource (changesFrom_ofExcept_bind fun parameters _ => ?_)
  have hfacts : ∀ e : Entity, e.IsEdited (c.declaredAt n (e.mapFacts fun f =>
      { f with parameters, visibility := c.visibility, explicit := some true })) := fun e =>
    .trans (.mapFacts (by intro _; rfl) e) (.declaredAt c n _)
  refine changesFrom_revise_bind hfacts (changesFrom_register ?_ _)
  exact .method hd rfl (((hmethod.revise hdocstring).revise hsource).revise hfacts)

/-- A definition registers the method that it defines. -/
theorem changesFrom_processMethod (c : Context) (n : Node)
    (hd : ∀ m ∈ n.definedMethod? c.scope, D (.ofMethod c.home.path m.1 m.2)) (hk : s.IsKeyed) :
    ChangesFrom D s (processMethod c n) := by
  unfold processMethod
  split
  · next nameNode hname =>
    split
    · next hkind =>
      refine changesFrom_ofExcept_bind fun receiver hreceiver => ?_
      split
      · next hself =>
        refine changesFrom_ofExcept_bind fun name hn => ?_
        refine changesFrom_defineMethod c n name .onClass (hd (name, .onClass) ?_) hk
        rw [eq_of_beq hself] at hreceiver
        exact Node.definedMethod?_onClass c.scope hname hkind hreceiver (Node.written_of_legible hn)
      · exact (isQuiet_note _ _ _).changesFrom
    · next hkind =>
      refine changesFrom_ofExcept_bind fun name hn => ?_
      refine changesFrom_defineMethod c n name c.scope (hd (name, c.scope) ?_) hk
      rw [Node.definedMethod?, hname, Option.bind_some, if_neg hkind, Node.written_of_legible hn]
      rfl
  · exact (isQuiet_pure _).changesFrom

/-- The accessors of one attribute are registered, and named in the table. -/
theorem changesFrom_defineAccessors (c : Context) (n : Node) (docstring source : String)
    (read write : Bool) (name : String)
    (hd : ∀ m ∈ Node.accessorsNamed read write name, D (.ofMethod c.home.path m c.scope)) :
    ChangesFrom D s (defineAccessors c n docstring source read write name) := by
  have hregisters : ∀ (s : Store) (m docstring : String) (parameters : List (String × Option String)),
      m ∈ Node.accessorsNamed read write name →
        s.Registers D (c.declaredAt n (accessorMethod c m docstring source parameters)) :=
    fun s m docstring parameters hm => .newMethod rfl (hd m hm)
  unfold defineAccessors
  dsimp only
  have hreader := fun s => hregisters s name
    (if docstring == "" then readerText (c.config.codeSpan name) else docstring) []
  have hwriter := fun s => hregisters s (name ++ "=") ("Sets the attribute " ++
    c.config.codeSpan name ++ "\n@param value the value to set the attribute " ++
    c.config.codeSpan name ++ " to.") [("value", none)]
  generalize c.declaredAt n (accessorMethod c name _ source []) = reader at hreader ⊢
  generalize c.declaredAt n (accessorMethod c (name ++ "=") _ source _) = writer at hwriter ⊢
  cases read with
  | false =>
    cases write with
    | false =>
      refine changesFrom_putAttribute c name fun path hpath => ?_
      rcases hpath with h | h <;> cases h
    | true =>
      refine changesFrom_register_bind (hwriter s (by simp [Node.accessorsNamed])) _ fun s₁ h₁ => ?_
      refine changesFrom_putAttribute c name fun path hpath => ?_
      rcases hpath with h | h
      · cases h
      · rw [← Option.some.inj h]
        exact Store.mem_keys_attach h₁
  | true =>
    refine changesFrom_register_bind (hreader s (by simp [Node.accessorsNamed])) _ fun s₁ h₁ => ?_
    have hread := Store.mem_keys_attach h₁
    cases write with
    | false =>
      refine changesFrom_putAttribute c name fun path hpath => ?_
      rcases hpath with h | h
      · rwa [← Option.some.inj h]
      · cases h
    | true =>
      have hregister := hwriter s₁ (by simp [Node.accessorsNamed])
      refine changesFrom_register_bind hregister _ fun s₂ h₂ => ?_
      have hkept := (Store.Change.register hregister h₂).keys_isPrefix.mem hread
      refine changesFrom_putAttribute c name fun path hpath => ?_
      rcases hpath with h | h
      · rwa [← Option.some.inj h]
      · rw [← Option.some.inj h]
        exact Store.mem_keys_attach h₂

/-- The accessors of all attributes of a macro are registered. -/
theorem changesFrom_defineAccessorsOfAll (c : Context) (n : Node) (docstring source : String)
    (read write : Bool) (arguments : List Node)
    (hd : ∀ m ∈ Node.definedAccessors read write arguments,
      D (.ofMethod c.home.path m c.scope)) :
    ChangesFrom D s (defineAccessorsOfAll c n docstring source read write arguments) := by
  induction arguments generalizing s with
  | nil => exact (isQuiet_pure _).changesFrom
  | cons a rest ih =>
    have hrest : ∀ s, ChangesFrom D s
        (defineAccessorsOfAll c n docstring source read write rest) := fun s =>
      ih fun m hm => hd m (Node.mem_definedAccessors_cons a hm)
    rw [defineAccessorsOfAll]
    dsimp only
    split
    · next hkind =>
      refine changesFrom_ofExcept_bind fun name hname => ?_
      refine ChangesFrom.bind ?_ fun _ s' _ => hrest s'
      refine changesFrom_defineAccessors c n docstring source read write name fun m hm => hd m ?_
      exact Node.mem_definedAccessors_of_name rest hkind hname hm
    · exact hrest s

/-- An accessor macro registers its accessors. -/
theorem changesFrom_processAccessors (c : Context) (n : Node) (read write : Bool)
    (hd : ∀ m ∈ Node.definedAccessors read write n.positionalArguments,
      D (.ofMethod c.home.path m c.scope)) :
    ChangesFrom D s (processAccessors c n read write) := by
  unfold processAccessors
  refine (isQuiet_docstringOf c n).changesFrom_bind fun docstring _ => ?_
  refine (isQuiet_read n).changesFrom_bind fun source _ => ?_
  exact changesFrom_defineAccessorsOfAll c n docstring source read write _ hd

/-- A visibility call edits the method that it names. -/
theorem changesFrom_setVisibility (c : Context) (name : String) (visibility : Visibility) :
    ChangesFrom D s (setVisibility c name visibility) := by
  unfold setVisibility
  refine changesFrom_inStore_bind ?_
  split
  · exact changesFrom_editMethod _ (.mapFacts (by intro _; rfl))
  · exact (isQuiet_note _ _ _).changesFrom

/-! ### Constants -/

/-- An assignment registers its constant. -/
theorem changesFrom_registerConstant (c : Context) (n left right : Node)
    (hd : D { home := c.home.path, path := join c.home.path left.written, kind := .constant }) :
    ChangesFrom D s (registerConstant c n left right) := by
  unfold registerConstant
  refine changesFrom_ofExcept_bind fun name hname => ?_
  rw [Node.written_of_legible hname] at hd
  refine (isQuiet_docstringOf c n).changesFrom_bind fun docstring _ => ?_
  refine (isQuiet_read n).changesFrom_bind fun source _ => ?_
  refine (isQuiet_read right).changesFrom_bind fun value _ => ?_
  refine ChangesFrom.bind (changesFrom_register ?_ _) fun _ _ _ => (isQuiet_pure _).changesFrom
  exact .constant hd rfl rfl rfl rfl

theorem changesFrom_processConstant (c : Context) (n : Node)
    (hd : ∀ d ∈ Declaration.ofAssignment c.home.path n, D d) :
    ChangesFrom D s (processConstant c n) := by
  unfold processConstant
  split
  · next left right ha =>
    refine ChangesFrom.bind ?_ fun _ _ _ => (isQuiet_pure _).changesFrom
    refine changesFrom_registerConstant c n left right (hd _ ?_)
    rw [Declaration.ofAssignment, ha]
    exact List.mem_cons_self
  · exact (isQuiet_pure _).changesFrom

/-- The values of an enumeration are registered one after the other. -/
theorem changesFrom_registerValues (c : Context) (ns : List Node)
    (hd : ∀ d ∈ ns.flatMap (Declaration.ofAssignment c.home.path), D d) :
    ChangesFrom D s (registerValues c ns) := by
  induction ns generalizing s with
  | nil => exact (isQuiet_pure _).changesFrom
  | cons n rest ih =>
    rw [List.flatMap_cons] at hd
    have hrest : ∀ s, ChangesFrom D s (registerValues c rest) := fun s =>
      ih fun d hm => hd d (List.mem_append_right _ hm)
    rw [registerValues]
    split
    · next left right ha =>
      refine ChangesFrom.bind ?_ fun constant s' _ =>
        (isQuiet_note _ _ _).changesFrom_bind fun _ _ => hrest s'
      refine changesFrom_registerConstant c n left right (hd _ (List.mem_append_left _ ?_))
      rw [Declaration.ofAssignment, ha]
      exact List.mem_cons_self
    · exact hrest s

/-- An enumeration registers its values. -/
theorem changesFrom_processEnum (c : Context) (block : Site)
    (hd : ∀ d ∈ (enumValues block).flatMap (Declaration.ofAssignment c.home.path), D d) :
    ChangesFrom D s (processEnum c block) := by
  unfold processEnum
  refine changesFrom_ofExcept_bind fun ns hns => changesFrom_registerValues c ns ?_
  rw [enumValues, hns] at hd
  exact hd

/-! ### Fields -/

/-- What is read of a field behind its types and options. -/
def Context.readRecord (c : Context) (n : Node) (name : String) (types : List String)
    (options : Keywords) (isMutable : Bool) : Action FieldRecord := do
  let doc ← c.docstringOf n
  let source ← n.read
  let default ← match options.lookup "default" with
    | some value => some <$> value.read
    | none => pure none
  return { home := c.home.path, name, types, doc, source, default, mutable := isMutable }

theorem isQuiet_map_read {α : Type} (f : String → α) (n : Node) : IsQuiet (f <$> n.read) := by
  rw [map_eq_pure_bind]
  exact (isQuiet_read n).bind fun _ => isQuiet_pure _

theorem isQuiet_readRecord (c : Context) (n : Node) (name : String) (types : List String)
    (options : Keywords) (isMutable : Bool) :
    IsQuiet (c.readRecord n name types options isMutable) := by
  unfold Context.readRecord
  refine (isQuiet_docstringOf c n).bind fun doc => (isQuiet_read n).bind fun source => ?_
  cases options.lookup "default" with
  | none => exact isQuiet_pure _
  | some value => exact (isQuiet_map_read some value).bind fun _ => isQuiet_pure _

theorem of_mayGive_readRecord {c : Context} {n : Node} {name : String} {types : List String}
    {options : Keywords} {isMutable : Bool} {f : FieldRecord}
    (h : MayGive (c.readRecord n name types options isMutable) f) :
    f.home = c.home.path ∧ f.name = name := by
  unfold Context.readRecord at h
  obtain ⟨doc, -, h⟩ := h.of_bind
  obtain ⟨source, -, h⟩ := h.of_bind
  cases hd : options.lookup "default" with
  | none =>
    rw [hd] at h
    rw [h.eq_of_pure]
    exact ⟨rfl, rfl⟩
  | some value =>
    rw [hd] at h
    obtain ⟨default, -, h⟩ := h.of_bind
    rw [h.eq_of_pure]
    exact ⟨rfl, rfl⟩

/-- Reading a field leaves the store. -/
theorem isQuiet_readField (c : Context) (n : Node) (form : FieldForm) (isProp : Bool)
    (name : String) : IsQuiet (readField c n form isProp name) := by
  unfold readField
  refine (isQuiet_ofExcept _).bind fun typeNode => (isQuiet_ofReading _).bind fun types => ?_
  refine (isQuiet_ofExcept _).bind fun options => ?_
  cases isProp with
  | false => exact isQuiet_readRecord c n name types options _
  | true =>
    rw [if_pos rfl]
    cases options.lookup "immutable" with
    | none => exact isQuiet_readRecord c n name types options _
    | some value =>
      refine (isQuiet_map_read _ value).bind fun immutable => ?_
      exact isQuiet_readRecord c n name types options _

/-- The field that is read belongs to the namespace, and has the name that was found. -/
theorem of_mayGive_readField {c : Context} {n : Node} {form : FieldForm} {isProp : Bool}
    {name : String} {f : FieldRecord} (h : MayGive (readField c n form isProp name) f) :
    f.home = c.home.path ∧ f.name = name := by
  unfold readField at h
  obtain ⟨typeNode, -, h⟩ := h.of_bind
  obtain ⟨types, -, h⟩ := h.of_bind
  obtain ⟨options, -, h⟩ := h.of_bind
  cases isProp with
  | false => exact of_mayGive_readRecord (c := c) (n := n) h
  | true =>
    rw [if_pos rfl] at h
    cases hi : options.lookup "immutable" with
    | none =>
      rw [hi] at h
      exact of_mayGive_readRecord (c := c) (n := n) h
    | some value =>
      rw [hi] at h
      obtain ⟨immutable, -, h⟩ := h.of_bind
      exact of_mayGive_readRecord (c := c) (n := n) h

/-- Recording a field registers its reader, and names it in the table. -/
theorem changesFrom_defineField (c : Context) (n : Node) (form : FieldForm) (f : FieldRecord)
    (hd : D (.ofMethod f.home f.name c.scope)) : ChangesFrom D s (defineField c n form f) := by
  unfold defineField
  refine changesFrom_modify_bind (by intro _; rfl) ?_
  dsimp only
  have hregisters : s.Registers D (c.declaredAt n
      { name := f.name, home := f.home, docstring := readerDocstring c.config f
        source := some f.source
        kind := .method { scope := c.scope, visibility := c.visibility } }) :=
    .newMethod rfl hd
  generalize c.declaredAt n _ = reader at hregisters ⊢
  refine changesFrom_register_bind hregisters _ fun s' h' => ?_
  have htaken := Store.mem_keys_attach h'
  refine ChangesFrom.bind (changesFrom_putAttribute c f.name fun path hpath => ?_) fun _ _ _ =>
    (isQuiet_note _ _ _).changesFrom
  rcases hpath with h | h
  · rwa [← Option.some.inj h]
  · dsimp only at h
    split at h
    · rwa [← Option.some.inj h]
    · cases h

/-- A field declaration registers its reader, if it has a usable name. -/
theorem changesFrom_processField (c : Context) (n : Node) (isProp : Bool)
    (hd : ∀ name ∈ n.usableName?, D (.ofMethod c.home.path name c.scope)) :
    ChangesFrom D s (processField c n isProp) := by
  unfold processField
  refine changesFrom_ofExcept_bind fun form _ => changesFrom_ofExcept_bind fun name? hname => ?_
  have husable : n.usableName? = name? := by
    rw [Node.usableName?, hname]
    rfl
  cases name? with
  | none => exact (isQuiet_note _ _ _).changesFrom
  | some name =>
    refine (isQuiet_readField c n form isProp name).changesFrom_bind fun f hf => ?_
    obtain ⟨hhome, hfield⟩ := of_mayGive_readField hf
    have hdefine : ChangesFrom D s (defineField c n form f) := by
      refine changesFrom_defineField c n form f ?_
      rw [hhome, hfield]
      exact hd name husable
    refine isQuiet_get.changesFrom_bind fun r _ => ?_
    split
    · split
      · exact (isQuiet_note _ _ _).changesFrom_bind fun _ _ => hdefine
      · exact (isQuiet_note _ _ _).changesFrom
    · exact hdefine

/-! ### Signatures -/

/-- Giving a registered method the docstring of its signature edits it. -/
theorem changesFrom_updateDocstring (c : Context) (target : Node) (docstring : String) :
    ChangesFrom D s (updateDocstring c target docstring) := by
  unfold updateDocstring
  split
  · split
    · refine (isQuiet_read _).changesFrom_bind fun name _ => ?_
      refine changesFrom_editMethod _ fun e => ?_
      split
      · exact .docstring e docstring
      · exact .refl e
    · exact (isQuiet_pure _).changesFrom
  · exact (isQuiet_pure _).changesFrom

/-- Finding the first text that is not empty leaves the store. -/
theorem isQuiet_firstNonEmpty {asks : List (Action String)} (h : ∀ ask ∈ asks, IsQuiet ask) :
    IsQuiet (firstNonEmpty asks) := by
  fun_induction firstNonEmpty asks with
  | case1 => exact isQuiet_pure _
  | case2 last => exact h last (List.mem_singleton_self _)
  | case3 ask rest _ ih =>
    refine (h ask List.mem_cons_self).bind fun text => ?_
    split
    · exact ih fun a ha => h a (List.mem_cons_of_mem _ ha)
    · exact isQuiet_pure _

/-- Finding the first docstring of some nodes leaves the store. -/
theorem isQuiet_firstDocstring (c : Context) (nodes : List Node) :
    IsQuiet (firstNonEmpty (nodes.map c.docstringOf)) :=
  isQuiet_firstNonEmpty (List.forall_mem_map.mpr fun n _ => isQuiet_docstringOf c n)

/-- A signature edits the method that it is about, if that is registered already. -/
theorem changesFrom_processSignature (c : Context) (site block : Site) :
    ChangesFrom D s (processSignature c site block) := by
  unfold processSignature
  split
  · split
    · exact (isQuiet_note _ _ _).changesFrom
    · exact (isQuiet_throw _).changesFrom
  · next following target _ =>
    have hraw := isQuiet_firstDocstring c [site.node, following.node, target.node]
    refine hraw.changesFrom_bind fun raw _ => ?_
    dsimp only
    refine (isQuiet_ofReading _).changesFrom_bind fun signed _ => ?_
    refine changesFrom_modify_bind (by intro _; rfl) ?_
    exact changesFrom_updateDocstring c target.node _

/-! ### Constructors -/

/-- Closing a class registers its constructor, if it has fields. -/
theorem changesFrom_closeClass (c : Context) (n : Node) (path classPath : String)
    (hd : D (.ofConstructor path)) (hk : s.IsKeyed) :
    ChangesFrom D s (c.closeClass n path classPath) := by
  refine ChangesFrom.guarded ?_ _ _
  unfold synthesiseConstructor
  refine isQuiet_get.changesFrom_bind fun r _ => ?_
  dsimp only
  split
  · refine changesFrom_inStore_bind (changesFrom_inStore_bind ?_)
    have hmethod := Store.IsMethodFor.findOrNewMethod hk path constructorName .onInstances
    generalize s.findOrNewMethod path constructorName .onInstances = m at hmethod ⊢
    have hrevised := fun e => Entity.IsEdited.revised c n (r.fields.fieldsFor path) e
    refine changesFrom_revise_bind hrevised ?_
    refine changesFrom_register_bind (.method hd rfl (hmethod.revise hrevised)) _ fun s' _ => ?_
    refine changesFrom_revise_bind (fun e => .docstring e _) ?_
    refine changesFrom_modify_bind (by intro _; rfl) ?_
    exact (isQuiet_note _ _ _).changesFrom
  · exact (isQuiet_pure _).changesFrom

end RubyDoc
