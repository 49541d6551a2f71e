import RubyDoc.Proofs.Walk.Constructor
import RubyDoc.Proofs.Walk.History
import RubyDoc.Proofs.Walk.Visibility

/-!
# Where methods come from

A method bears the file and the line of a definition: a method definition, an accessor macro
or a field, or the class that it is the constructor of. A step of a walk leaves the methods
the file and the line that they have, or gives them those of a definition that it reads,
whether it comes to its end or not. A signature gives a docstring to a method on the line of
its definition, whichever file that method bears.
-/

namespace RubyDoc

open RubyDoc.Action ObjectPath

/-- A definition of a method: the node that defines it, the source that the node is in, and
the path of the method. -/
structure Definition where
  /-- The source. -/
  source : Source
  /-- The node. -/
  node : Node
  /-- The path of the method. -/
  path : String

/-- The definition that a node gives of a method, where it is read in a context. -/
def Context.definition (c : Context) (n : Node) (name : String) (scope : Scope) : Definition :=
  ⟨c.source, n, (Entity.newMethod c.home.path name scope).path⟩

/-- A method that bears the file and the line of a definition. -/
structure Definition.Marks (x : Definition) (e : Entity) : Prop where
  /-- It is a method. -/
  isMethod : e.isMethod = true
  /-- It bears the file of the source. -/
  file : e.file = some x.source.path
  /-- It bears the line of the node. -/
  line : e.line = some (x.node.line : Int)

/-- An entity that keeps its file and its line, and does not become a method or cease to be
one. -/
structure Entity.KeepsMark (e e' : Entity) : Prop where
  /-- It stays a method. -/
  isMethod : e'.isMethod = e.isMethod
  /-- Its file stays. -/
  file : e'.file = e.file
  /-- Its line stays. -/
  line : e'.line = e.line

namespace Entity

theorem KeepsMark.refl (e : Entity) : e.KeepsMark e := ⟨rfl, rfl, rfl⟩

theorem KeepsMark.trans {e e' e'' : Entity} (h : e.KeepsMark e') (h' : e'.KeepsMark e'') :
    e.KeepsMark e'' :=
  ⟨h'.isMethod.trans h.isMethod, h'.file.trans h.file, h'.line.trans h.line⟩

theorem keepsMark_mapMembers (f : Members → Members) (e : Entity) :
    e.KeepsMark (e.mapMembers f) := ⟨isMethod_mapMembers f e, rfl, rfl⟩

theorem IsEdited.isMethod_eq {e e' : Entity} (h : e.IsEdited e') : e'.isMethod = e.isMethod := by
  rw [Bool.eq_iff_iff, isMethod_iff_name, isMethod_iff_name, h.kind]

end Entity

/-- A method that keeps its file and its line keeps those of its definition. -/
theorem Definition.Marks.keeps {x : Definition} {e e' : Entity} (h : x.Marks e)
    (hkeeps : e.KeepsMark e') : x.Marks e' :=
  ⟨hkeeps.isMethod.trans h.isMethod, hkeeps.file.trans h.file, hkeeps.line.trans h.line⟩

/-! ### Stores -/

/-- A store is left with methods that keep the file and the line of what stood at their paths,
and with methods that bear those of definitions. -/
structure Store.Credits (D : Definition → Prop) (s s' : Store) : Prop where
  /-- Entities stay under their paths. -/
  isKeyed : s.IsKeyed → s'.IsKeyed
  /-- A method comes from what stood at its path, or from a definition of it. -/
  method : ∀ path e', s'.find? path = some e' → e'.isMethod = true →
    (∃ e, s.find? path = some e ∧ e.KeepsMark e') ∨ ∃ x, D x ∧ x.path = path ∧ x.Marks e'

namespace Store

variable {D : Definition → Prop} {s s' s'' : Store}

theorem Credits.refl (s : Store) : s.Credits D s :=
  ⟨id, fun _ e' hfind _ => .inl ⟨e', hfind, .refl e'⟩⟩

theorem Credits.trans (h : s.Credits D s') (h' : s'.Credits D s'') : s.Credits D s'' := by
  refine ⟨h'.isKeyed ∘ h.isKeyed, fun path e'' hfind hmethod => ?_⟩
  rcases h'.method path e'' hfind hmethod with ⟨e', hfind', hkeeps⟩ | hdefined
  · rcases h.method path e' hfind' (hkeeps.isMethod.symm.trans hmethod) with
      ⟨e, hfirst, hkept⟩ | ⟨x, hx, hpath, hmarks⟩
    · exact .inl ⟨e, hfirst, hkept.trans hkeeps⟩
    · exact .inr ⟨x, hx, hpath, hmarks.keeps hkeeps⟩
  · exact .inr hdefined

/-- What is found after registering is what was registered, or what stood there before. -/
theorem exists_of_find?_attach {e e' : Entity} (ha : s.attach e = .ok s') {path : String}
    (h : s'.find? path = some e') :
    ∃ e₁, e₁.KeepsMark e' ∧ (path = e.path ∧ e₁ = e ∨ s.find? path = some e₁) := by
  obtain ⟨home, m, -, -, rfl⟩ := (attach_eq_ok_iff s s' e).mp ha
  rw [find?_editMembers_eq] at h
  obtain ⟨e₁, hplaced, rfl⟩ := Option.map_eq_some_iff.mp h
  have hkeeps : e₁.KeepsMark (if path = (m.handle e.home).path ∧ isMeant (m.handle e.home) e₁
      then e₁.mapMembers fun m => m.adopt e.path else e₁) := by
    split
    · exact Entity.keepsMark_mapMembers _ e₁
    · exact .refl e₁
  rw [find?_placed] at hplaced
  split at hplaced
  · next hpath =>
    rw [← Option.some.inj hplaced] at hkeeps ⊢
    exact ⟨e, (Entity.keepsMark_mapMembers _ e).trans hkeeps, .inl ⟨hpath, rfl⟩⟩
  · exact ⟨e₁, hkeeps, .inr hplaced⟩

theorem credits_attach {e : Entity}
    (he : e.isMethod = true → ∃ x, D x ∧ x.path = e.path ∧ x.Marks e) (ha : s.attach e = .ok s') :
    s.Credits D s' := by
  refine ⟨fun hk => hk.attach ha, fun path e' hfind hmethod => ?_⟩
  obtain ⟨e₁, hkeeps, ⟨rfl, rfl⟩ | hbefore⟩ := exists_of_find?_attach ha hfind
  · obtain ⟨x, hx, hpath, hmarks⟩ := he (hkeeps.isMethod.symm.trans hmethod)
    exact .inr ⟨x, hx, hpath, hmarks.keeps hkeeps⟩
  · exact .inl ⟨e₁, hbefore, hkeeps⟩

theorem credits_modify {path : String} {f : Entity → Entity} (hf : ∀ e, Entity.IsEdited e (f e))
    (hmark : ∀ e, e.isMethod = true →
      e.KeepsMark (f e) ∨ ∃ x, D x ∧ x.path = path ∧ x.Marks (f e)) :
    s.Credits D (s.modify path f) := by
  refine ⟨fun hk => hk.modify fun e => (hf e).path, fun p e' hfind hmethod => ?_⟩
  rw [find?_modify] at hfind
  split at hfind
  · next hp =>
    obtain ⟨e, hbefore, rfl⟩ := Option.map_eq_some_iff.mp hfind
    rcases hmark e ((hf e).isMethod_eq.symm.trans hmethod) with hkeeps | ⟨x, hx, hpath, hmarks⟩
    · exact .inl ⟨e, hbefore, hkeeps⟩
    · exact .inr ⟨x, hx, hpath.trans hp.symm, hmarks⟩
  · exact .inl ⟨e', hfind, .refl e'⟩

theorem credits_editMethod {path : String} {f : Entity → Entity}
    (hf : ∀ e, Entity.IsEdited e (f e))
    (hmark : ∀ e, e.isMethod = true →
      e.KeepsMark (f e) ∨ ∃ x, D x ∧ x.path = path ∧ x.Marks (f e)) :
    s.Credits D (s.editMethod path f) := by
  refine credits_modify (Entity.isEdited_of_method hf) fun e he => ?_
  rw [if_pos he]
  exact hmark e he

theorem credits_editMembers (handle : Handle) (f : Members → Members) :
    s.Credits D (s.editMembers handle f) := by
  refine ⟨fun hk => hk.editMembers handle f, fun path e' hfind _ => ?_⟩
  rw [find?_editMembers_eq] at hfind
  obtain ⟨e, hbefore, rfl⟩ := Option.map_eq_some_iff.mp hfind
  refine .inl ⟨e, hbefore, ?_⟩
  split
  · exact Entity.keepsMark_mapMembers f e
  · exact .refl e

end Store

/-! ### Actions -/

namespace Action

variable {α β : Type} {D : Definition → Prop}

/-- An action that credits the methods it gives a file and a line to definitions. -/
def Credits (D : Definition → Prop) (a : Action α) : Prop :=
  ∀ r : Records, r.store.IsKeyed → r.store.Credits D (runOn a r).2.store

theorem IsQuiet.credits {a : Action α} (h : IsQuiet a) : Credits D a := fun r _ => by
  rw [h.store r]
  exact .refl r.store

theorem Credits.bind {a : Action α} {f : α → Action β} (ha : Credits D a)
    (hf : ∀ x, MayGive a x → Credits D (f x)) : Credits D (a >>= f) := by
  intro r hk
  have hfirst := ha r hk
  rw [runOn_bind]
  cases h : runOn a r with
  | mk result r' =>
    rw [h] at hfirst
    cases result with
    | error fault => exact hfirst
    | ok x => exact hfirst.trans (hf x ⟨r, by rw [h]⟩ r' (hfirst.isKeyed hk))

/-- A fault that is caught leaves what was changed before it. -/
theorem Credits.guarded {a : Action Unit} (ha : Credits D a) (channel : Channel)
    (message : String) : Credits D (guarded channel message a) := by
  intro r hk
  have hfirst := ha r hk
  rw [runOn_guarded]
  cases h : runOn a r with
  | mk result r' =>
    rw [h] at hfirst
    cases result <;> exact hfirst

theorem credits_register {e : Entity}
    (he : e.isMethod = true → ∃ x, D x ∧ x.path = e.path ∧ x.Marks e) (known : Bool) :
    Credits D (register e known) := by
  intro r _
  rw [runOn_register]
  cases ha : r.store.attach e with
  | error fault => exact .refl r.store
  | ok s => exact Store.credits_attach he ha

/-- What is no method needs no definition. -/
theorem credits_register_other {e : Entity} (he : e.isMethod = false) (known : Bool) :
    Credits D (register e known) :=
  credits_register (fun hmethod => absurd (he.symm.trans hmethod) Bool.false_ne_true) known

theorem credits_revise {method : Entity} {f : Entity → Entity}
    (hf : ∀ e, Entity.IsEdited e (f e))
    (hmark : ∀ e, e.isMethod = true →
      e.KeepsMark (f e) ∨ ∃ x, D x ∧ x.path = method.path ∧ x.Marks (f e)) :
    Credits D (revise method f) := fun _ _ => Store.credits_editMethod hf hmark

/-- What follows an action that leaves the store finds the store as it was. -/
theorem IsQuiet.store_bind {a : Action α} {f : α → Action β} (ha : IsQuiet a)
    {P : Store → Prop} {r : Records} (hsame : P r.store)
    (hf : ∀ x r', MayGive a x → r'.store = r.store → P (runOn (f x) r').2.store) :
    P (runOn (a >>= f) r).2.store := by
  have hfirst := ha.store r
  rw [runOn_bind]
  cases h : runOn a r with
  | mk result r' =>
    rw [h] at hfirst
    cases result with
    | error fault => exact hfirst.symm ▸ hsame
    | ok x => exact hf x r' ⟨r, by rw [h]⟩ hfirst

/-- Records other than the store may be changed. -/
theorem credits_modifyRecords {f : Records → Records} (h : ∀ r, (f r).store = r.store) :
    Credits D (modify f) := fun r _ => by
  rw [runOn_modify, h]
  exact .refl r.store

end Action

section Rules

variable {D : Definition → Prop} (c : Context) (n : Node)

theorem credits_putAttribute (name : String) (slots : Slots) :
    Credits D (c.putAttribute name slots) := by
  have hput : Credits D
      (changeStore fun s => s.editMembers c.home fun m => m.putAttribute c.scope name slots) :=
    fun r _ => Store.credits_editMembers _ _
  unfold Context.putAttribute
  dsimp only
  split
  · exact (isQuiet_throw _).credits.bind fun _ _ => hput
  · exact hput

/-! ### Methods -/

/-- A method that is defined comes from its definition. -/
theorem credits_defineMethod {name : String} {scope : Scope} (hD : D (c.definition n name scope)) :
    Credits D (defineMethod c n name scope) := by
  intro r hk
  obtain ⟨hmethod, hpath⟩ := Store.findOrNewMethod_spec hk c.home.path name scope
  unfold defineMethod
  rw [runOn_bind_ok (runOn_inStore _ r), runOn_bind_ok (runOn_inStore _ r)]
  generalize (r.store.method? c.home.path name scope).isSome = known
  generalize r.store.findOrNewMethod c.home.path name scope = method at hmethod hpath ⊢
  refine (isQuiet_docstringOf c n).credits.bind (fun docstring _ => ?_) r hk
  have hdocstring := fun e => Entity.IsEdited.docstring e docstring
  refine (credits_revise hdocstring fun e _ => .inl ⟨rfl, rfl, rfl⟩).bind fun documented h => ?_
  have hsecond := eq_of_mayGive_revise h ▸ hdocstring method
  refine (isQuiet_read n).credits.bind fun source _ => ?_
  have hsource := fun e => Entity.IsEdited.source e (some source)
  refine (credits_revise hsource fun e _ => .inl ⟨rfl, rfl, rfl⟩).bind fun sourced h => ?_
  have hthird := hsecond.trans (eq_of_mayGive_revise h ▸ hsource documented)
  refine (isQuiet_ofExcept _).credits.bind fun parameters _ => ?_
  have hdefined : ∀ e : Entity, e.IsEdited (c.defined n parameters e) := fun e =>
    .trans (.mapFacts (by intro _; rfl) e) (.declaredAt c n _)
  have hmarks : ∀ e : Entity, e.isMethod = true →
      (c.definition n name scope).Marks (c.defined n parameters e) := fun e he =>
    ⟨(hdefined e).isMethod he, rfl, rfl⟩
  have hsourced : (c.definition n name scope).path = sourced.path :=
    hpath.symm.trans hthird.path.symm
  refine (credits_revise hdefined fun e he => .inr ⟨_, hD, hsourced, hmarks e he⟩).bind
    fun revised h => ?_
  have hrevised : revised = c.defined n parameters sourced := eq_of_mayGive_revise h
  refine credits_register (fun _ => ⟨_, hD, ?_, ?_⟩) known
  · rw [hrevised, (hdefined sourced).path, hsourced]
  · rw [hrevised]
    exact hmarks sourced (hthird.isMethod hmethod)

theorem credits_processMethod
    (hD : ∀ m ∈ n.definedMethod? c.scope, D (c.definition n m.1 m.2)) :
    Credits D (processMethod c n) := by
  unfold processMethod
  split
  · next nameNode hname =>
    split
    · next hkind =>
      refine (isQuiet_ofExcept _).credits.bind fun receiver hreceiver => ?_
      have hread := eq_of_mayGive_ofExcept hreceiver
      split
      · next hself =>
        refine (isQuiet_read _).credits.bind fun name hn => ?_
        refine credits_defineMethod c n (hD (name, .onClass) ?_)
        rw [eq_of_beq hself] at hread
        exact Node.definedMethod?_onClass c.scope hname hkind hread
          (Node.written_of_legible (eq_of_mayGive_ofExcept hn))
      · exact (isQuiet_note _ _ _).credits
    · next hkind =>
      refine (isQuiet_read _).credits.bind fun name hn => ?_
      refine credits_defineMethod c n (hD (name, c.scope) ?_)
      rw [Node.definedMethod?, hname, Option.bind_some, if_neg hkind,
        Node.written_of_legible (eq_of_mayGive_ofExcept hn)]
      rfl
  · exact (isQuiet_pure _).credits

/-- Accessors come from their macro. -/
theorem credits_defineAccessors (docstring source : String) (read write : Bool) (name : String)
    (hD : ∀ m ∈ Node.accessorsNamed read write name, D (c.definition n m c.scope)) :
    Credits D (defineAccessors c n docstring source read write name) := by
  have hregister : ∀ m ∈ Node.accessorsNamed read write name, ∀ docstring parameters,
      Credits D (register (c.declaredAt n (accessorMethod c m docstring source parameters))) :=
    fun m hm _ _ => credits_register (fun _ => ⟨_, hD m hm, rfl, rfl, rfl, rfl⟩) false
  have hput : ∀ slots, Credits D (c.putAttribute name slots) := credits_putAttribute c name
  unfold defineAccessors
  dsimp only
  cases read with
  | false =>
    cases write with
    | false => exact hput _
    | true => exact (hregister _ (by simp [Node.accessorsNamed]) _ _).bind fun _ _ => hput _
  | true =>
    have hread := hregister name (by simp [Node.accessorsNamed])
    cases write with
    | false => exact (hread _ _).bind fun _ _ => hput _
    | true =>
      have hwrite := hregister (name ++ "=") (by simp [Node.accessorsNamed])
      exact (hread _ _).bind fun _ _ => (hwrite _ _).bind fun _ _ => hput _

theorem credits_defineAccessorsOfAll (docstring source : String) (read write : Bool)
    (arguments : List Node)
    (hD : ∀ m ∈ Node.definedAccessors read write arguments, D (c.definition n m c.scope)) :
    Credits D (defineAccessorsOfAll c n docstring source read write arguments) := by
  induction arguments with
  | nil => exact (isQuiet_pure _).credits
  | cons a rest ih =>
    have hrest : Credits D (defineAccessorsOfAll c n docstring source read write rest) :=
      ih fun m hm => hD m (Node.mem_definedAccessors_cons a hm)
    rw [defineAccessorsOfAll]
    dsimp only
    split
    · next hkind =>
      refine (isQuiet_ofExcept _).credits.bind fun name hname => Credits.bind ?_ fun _ _ => hrest
      refine credits_defineAccessors c n docstring source read write name fun m hm => hD m ?_
      exact Node.mem_definedAccessors_of_name rest hkind (eq_of_mayGive_ofExcept hname) hm
    · exact hrest

theorem credits_processAccessors (read write : Bool)
    (hD : ∀ m ∈ Node.definedAccessors read write n.positionalArguments,
      D (c.definition n m c.scope)) :
    Credits D (processAccessors c n read write) := by
  unfold processAccessors
  refine (isQuiet_docstringOf c n).credits.bind fun docstring _ => ?_
  refine (isQuiet_read n).credits.bind fun source _ => ?_
  exact credits_defineAccessorsOfAll c n docstring source read write _ hD

/-- Another visibility leaves a method the file and the line that it has. -/
theorem credits_setVisibility (name : String) (visibility : Visibility) :
    Credits D (setVisibility c name visibility) := by
  intro r _
  obtain ⟨log, hrun⟩ := exists_runOn_setVisibility c name visibility r
  rw [hrun]
  have hf : ∀ e : Entity, e.IsEdited (e.mapFacts fun f => { f with visibility }) :=
    .mapFacts (by intro _; rfl)
  refine Store.credits_editMethod hf fun e _ => .inl ⟨(hf e).isMethod_eq, ?_, ?_⟩
  all_goals
    rw [Entity.mapFacts]
    split <;> rfl

/-! ### Fields and constructors -/

theorem credits_defineField (form : FieldForm) {f : FieldRecord} (hhome : f.home = c.home.path)
    (hD : D (c.definition n f.name c.scope)) : Credits D (defineField c n form f) := by
  unfold defineField
  refine (credits_modifyRecords (by intro _; rfl)).bind fun _ _ => ?_
  dsimp only
  refine (credits_register (fun _ => ⟨_, hD, ?_, rfl, rfl, rfl⟩) false).bind fun _ _ => ?_
  · rw [Context.definition, ← hhome]
    rfl
  · exact (credits_putAttribute c _ _).bind fun _ _ => (isQuiet_note _ _ _).credits

/-- The reader of a field comes from the field. -/
theorem credits_processField (isProp : Bool)
    (hD : ∀ name ∈ n.usableName?, D (c.definition n name c.scope)) :
    Credits D (processField c n isProp) := by
  unfold processField
  refine (isQuiet_ofExcept _).credits.bind fun form _ =>
    (isQuiet_ofExcept _).credits.bind fun name? hname => ?_
  cases name? with
  | none => exact (isQuiet_note _ _ _).credits
  | some name =>
    have husable : name ∈ n.usableName? := by
      rw [Node.usableName?, eq_of_mayGive_ofExcept hname]
      rfl
    refine (isQuiet_readField c n form isProp name).credits.bind fun f hf => ?_
    obtain ⟨hhome, hfield⟩ := of_mayGive_readField hf
    have hdefine : Credits D (defineField c n form f) :=
      credits_defineField c n form hhome (hfield ▸ hD name husable)
    refine isQuiet_get.credits.bind fun r _ => ?_
    split
    · split
      · exact (isQuiet_note _ _ _).credits.bind fun _ _ => hdefine
      · exact (isQuiet_note _ _ _).credits
    · exact hdefine

/-- The method with an identity is the one that is found at its path, or a new one. -/
theorem Store.findOrNewMethod_cases (s : Store) (home name : String) (scope : Scope) :
    s.find? (Entity.newMethod home name scope).path = some (s.findOrNewMethod home name scope) ∨
      s.findOrNewMethod home name scope = Entity.newMethod home name scope := by
  rw [findOrNewMethod, method?]
  split
  · next e hfind =>
    split
    · exact .inl hfind
    · exact .inr rfl
  · exact .inr rfl

/-- A constructor that is revised keeps its file and its line if it has any, or else it gets
those of its class. -/
theorem keepsMark_or_marks_revised (fields : List FieldRecord) (path : String) {e : Entity}
    (he : e.isMethod = true) :
    e.KeepsMark (c.revised n fields e) ∨
      (⟨c.source, n, path⟩ : Definition).Marks (c.revised n fields e) := by
  obtain ⟨-, -, -, hmethod⟩ := revised_same c n fields e
  obtain ⟨name, home, docstring, source, file, line, kind⟩ := e
  cases kind with
  | method facts =>
    cases file with
    | none => exact .inr ⟨hmethod, rfl, rfl⟩
    | some file => exact .inl ⟨hmethod, rfl, rfl⟩
  | root | moduleSpace | classSpace | constant => cases he

/-- The constructor that a class is given keeps the file and the line of the method that stands
at its path, or it comes from the class. -/
theorem keepsMark_or_marks_revisedMethod {r : Records} (hk : r.store.IsKeyed) (path : String) :
    (∃ e, r.store.find? (constructorPath path) = some e ∧
        e.KeepsMark (r.revisedMethod c n path)) ∨
      (⟨c.source, n, constructorPath path⟩ : Definition).Marks (r.revisedMethod c n path) := by
  rcases r.store.findOrNewMethod_cases path constructorName .onInstances with hfound | hnew
  · exact (keepsMark_or_marks_revised c n (r.fields.fieldsFor path) (constructorPath path)
      (constructorAt_spec hk path).1).imp_left fun hkeeps => ⟨_, hfound, hkeeps⟩
  · rw [Records.revisedMethod, constructorAt, hnew]
    exact .inr ⟨rfl, rfl, rfl⟩

/-- The constructor of a class keeps the file and the line that it had, or it comes from the
class. -/
theorem credits_closeClass (path classPath : String) (hD : D ⟨c.source, n, constructorPath path⟩) :
    Credits D (c.closeClass n path classPath) := by
  refine Credits.guarded (fun r hk => ?_) _ _
  by_cases hf : r.fields.fieldsFor path = []
  · rw [runOn_synthesise_of_no_fields c n path classPath hf]
    exact .refl r.store
  by_cases hhome : HasConstructorHome r.store path
  · obtain ⟨r', hrun, hmade⟩ := synthesise_ok c n path classPath hk hf hhome
    rw [hrun]
    refine ⟨fun _ => hmade.isKeyed hk, fun p e' hfind _ => ?_⟩
    rw [hmade.find?] at hfind
    split at hfind
    · next hp =>
      have hkept : (r.revisedMethod c n path).KeepsMark e' := by
        rw [← Option.some.inj hfind]
        exact ⟨Entity.isMethod_docstring _ _, rfl, rfl⟩
      rw [hp]
      rcases keepsMark_or_marks_revisedMethod c n hk path with ⟨e, hfound, hkeeps⟩ | hmarks
      · exact .inl ⟨e, hfound, hkeeps.trans hkept⟩
      · exact .inr ⟨_, hD, rfl, hmarks.keeps hkept⟩
    · split at hfind
      · obtain ⟨e, hbefore, rfl⟩ := Option.map_eq_some_iff.mp hfind
        exact .inl ⟨e, hbefore, Entity.keepsMark_mapMembers _ e⟩
      · exact .inl ⟨e', hfind, .refl e'⟩
  · obtain ⟨fault, hrun⟩ := synthesise_error c n path classPath hk hf hhome
    rw [hrun]
    refine Store.credits_editMethod (fun e => .revised c n _ e) fun e he => ?_
    refine (keepsMark_or_marks_revised c n _ (constructorPath path) he).imp_right fun hmarks => ?_
    exact ⟨_, hD, (constructorAt_spec hk path).2.symm, hmarks⟩

/-! ### Constants and namespaces -/

theorem credits_registerConstant (left right : Node) :
    Credits D (registerConstant c n left right) := by
  unfold registerConstant
  refine (isQuiet_read left).credits.bind fun name _ => ?_
  refine (isQuiet_docstringOf c n).credits.bind fun docstring _ => ?_
  refine (isQuiet_read n).credits.bind fun source _ => ?_
  refine (isQuiet_read right).credits.bind fun value _ => ?_
  exact (credits_register_other rfl false).bind fun _ _ => (isQuiet_pure _).credits

theorem credits_processConstant : Credits D (processConstant c n) := by
  unfold processConstant
  split
  · exact (credits_registerConstant c n _ _).bind fun _ _ => (isQuiet_pure _).credits
  · exact (isQuiet_pure _).credits

theorem credits_registerValues (ns : List Node) : Credits D (registerValues c ns) := by
  induction ns with
  | nil => exact (isQuiet_pure _).credits
  | cons n rest ih =>
    rw [registerValues]
    split
    · exact (credits_registerConstant c n _ _).bind fun _ _ =>
        (isQuiet_note _ _ _).credits.bind fun _ _ => ih
    · exact ih

theorem credits_processEnum (block : Site) : Credits D (processEnum c block) :=
  (isQuiet_ofExcept _).credits.bind fun ns _ => credits_registerValues c ns

theorem credits_ensureNamespace (path : String) : Credits D (ensureNamespace path) := by
  induction hn : path.length using Nat.strongRecOn generalizing path with
  | ind n ih =>
    rw [ensureNamespace]
    refine (isQuiet_inStore _).credits.bind fun found _ => ?_
    split
    · exact (isQuiet_pure _).credits
    · split
      · exact (isQuiet_throw _).credits
      · next hne =>
        refine (ih _ (hn ▸ length_split_fst path hne) _ rfl).bind fun _ _ => ?_
        refine (isQuiet_note _ _ _).credits.bind fun _ _ => ?_
        exact (credits_register_other rfl false).bind fun _ _ => (isQuiet_pure _).credits

/-- Opening a class again leaves the file and the line of what stands in its place. -/
theorem keepsMark_reopenClass (superclass : Option String) (docstring : String) (e : Entity) :
    e.KeepsMark (reopenClass superclass docstring e) := by
  refine ⟨(Entity.IsEdited.reopenClass superclass docstring e).isMethod_eq, ?_, ?_⟩
  all_goals
    unfold reopenClass
    dsimp only
    split <;> split <;> (try split) <;> rfl

theorem credits_openClass (path : String) : Credits D (openClass c n path) := by
  unfold openClass
  dsimp only
  refine (credits_ensureNamespace _).bind fun _ _ => ?_
  refine (isQuiet_ofExcept _).credits.bind fun superclass _ => ?_
  refine (isQuiet_docstringOf c n).credits.bind fun docstring _ => ?_
  refine (isQuiet_inStore _).credits.bind fun existing _ => ?_
  have hnoted : ∀ opened : String, Credits D (do
      note .debug .namespaces ("Processing class " ++ path)
      return opened) := fun opened =>
    (isQuiet_note _ _ _).credits.bind fun _ _ => (isQuiet_pure _).credits
  split
  · have hreopened : Credits D
        (changeStore fun s => s.modify path (reopenClass superclass docstring)) := fun r _ =>
      Store.credits_modify (.reopenClass superclass docstring) fun e _ =>
        .inl (keepsMark_reopenClass superclass docstring e)
    exact hreopened.bind fun _ _ => (isQuiet_pure _).credits.bind fun opened _ => hnoted opened
  · exact (credits_register_other rfl false).bind fun _ _ =>
      (isQuiet_pure _).credits.bind fun opened _ => hnoted opened

theorem credits_openModule (path : String) : Credits D (openModule c n path) := by
  unfold openModule
  dsimp only
  refine (credits_ensureNamespace _).bind fun _ _ => ?_
  refine (isQuiet_inStore _).credits.bind fun existing _ => ?_
  split
  · split
    · refine (isQuiet_docstringOf c n).credits.bind fun docstring _ => ?_
      have hfilled : Credits D
          (changeStore fun s => s.modify path fun e => { e with docstring }) := fun r _ =>
        Store.credits_modify (fun e => .docstring e docstring) fun e _ => .inl ⟨rfl, rfl, rfl⟩
      exact hfilled.bind fun _ _ => (isQuiet_pure _).credits
    · exact (isQuiet_pure _).credits
  · refine (isQuiet_docstringOf c n).credits.bind fun docstring _ => ?_
    exact (credits_register_other rfl false).bind fun _ _ => (isQuiet_pure _).credits

/-! ### Signatures -/

/-- The path at which a signature looks up the method that a node defines. -/
def Context.signedPath? : Option String :=
  if Node.methodKinds.contains n.kind then
    (n.child? "name").map fun name => (Entity.newMethod c.home.path name.written
      (if n.kind == "singleton_method" then .onClass else c.scope)).path
  else none

/-- What a signature does to the method that it has looked up: on the line of the definition it
gets the docstring, whichever file it bears. -/
def Node.signed (n : Node) (docstring : String) (e : Entity) : Entity :=
  if e.line == some (n.line : Int) then { e with docstring } else e

/-- What a signature may make of the store: it stays, or the method at the path of the definition
after the signature is looked up. -/
inductive Context.Signs (c : Context) (site : Site) (s : Store) : Store → Prop
  /-- The store stays. -/
  | nothing : Signs c site s s
  /-- The method may get a docstring. -/
  | method {following target : Site} {docstring path : String}
    (htargets : signatureTargets site = .ok (following, target))
    (hpath : c.signedPath? target.node = some path) :
    Signs c site s (s.editMethod path (target.node.signed docstring))

theorem signs_updateDocstring {site following target : Site}
    (htargets : signatureTargets site = .ok (following, target)) (docstring : String)
    {r : Records} {s : Store} (hr : r.store = s) :
    c.Signs site s (runOn (updateDocstring c target.node docstring) r).2.store := by
  subst hr
  unfold updateDocstring
  split
  · next hkind =>
    split
    · next nameNode hname =>
      refine (isQuiet_ofExcept _).store_bind .nothing fun name r' hread hr' => ?_
      rw [← hr']
      refine .method htargets ?_
      rw [Context.signedPath?, if_pos hkind, hname, Option.map_some,
        Node.written_of_legible (eq_of_mayGive_ofExcept hread)]
    · exact .nothing
  · exact .nothing

/-- A signature leaves the store, but for the method at the path of the definition after it. -/
theorem signs_processSignature (site block : Site) (r : Records) :
    c.Signs site r.store (runOn (processSignature c site block) r).2.store := by
  unfold processSignature
  split
  · split
    · exact .nothing
    · exact .nothing
  · next following target htargets =>
    have hraw := isQuiet_firstDocstring c [site.node, following.node, target.node]
    refine hraw.store_bind .nothing fun raw r₁ _ hr₁ => ?_
    dsimp only
    rw [← hr₁]
    refine (isQuiet_ofReading _).store_bind .nothing fun signed r₂ _ hr₂ => ?_
    rw [runOn_bind_ok (runOn_modify _ r₂)]
    exact signs_updateDocstring c htargets _ hr₂

theorem credits_processSignature (site block : Site) :
    Credits D (processSignature c site block) := by
  intro r _
  have hsigns := signs_processSignature c site block r
  generalize (runOn (processSignature c site block) r).2.store = s at hsigns
  cases hsigns with
  | nothing => exact .refl r.store
  | method _ _ =>
    refine Store.credits_editMethod (fun e => ?_) fun e _ => .inl ?_
    all_goals
      rw [Node.signed]
      split
    · exact .docstring e _
    · exact .refl e
    · exact ⟨rfl, rfl, rfl⟩
    · exact .refl e

end Rules

/-! ### Steps -/

/-- The definitions of methods that a step reads. -/
def Deed.definitions : Deed → List Definition
  | .method c n => (n.definedMethod? c.scope).toList.map fun m => c.definition n m.1 m.2
  | .accessors c n read write =>
    (Node.definedAccessors read write n.positionalArguments).map fun m => c.definition n m c.scope
  | .field c n _ => n.usableName?.toList.map fun name => c.definition n name c.scope
  | .closeClass c n path _ => [⟨c.source, n, constructorPath path⟩]
  | _ => []

/-- A step leaves the methods the file and the line that they have, or gives them those of a
definition that it reads. -/
theorem Deed.credits (d : Deed) {r : Records} (hk : r.store.IsKeyed) :
    r.store.Credits (· ∈ d.definitions) (d.run r).store := by
  cases d with
  | method c n =>
    refine credits_processMethod c n (fun m hm => ?_) r hk
    exact List.mem_map.mpr ⟨m, Option.mem_toList.mpr hm, rfl⟩
  | accessors c n read write =>
    exact credits_processAccessors c n read write
      (fun m hm => List.mem_map.mpr ⟨m, hm, rfl⟩) r hk
  | constant c n => exact credits_processConstant c n r hk
  | enumValues c block => exact credits_processEnum c block r hk
  | field c n isProp =>
    refine credits_processField c n isProp (fun name hname => ?_) r hk
    exact List.mem_map.mpr ⟨name, Option.mem_toList.mpr hname, rfl⟩
  | signature c site block => exact credits_processSignature c site block r hk
  | visibility c name given => exact credits_setVisibility c name given r hk
  | openClass c n path => exact credits_openClass c n path r hk
  | openModule c n path => exact credits_openModule c n path r hk
  | closeClass c n path classPath =>
    exact credits_closeClass c n path classPath List.mem_cons_self r hk
  | logged log => exact .refl r.store
  | source => exact .refl r.store

end RubyDoc
