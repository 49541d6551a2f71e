import RubyDoc.Proofs.Walk.Visibility

/-!
# The visibility of what is defined

A definition that comes to its end leaves each of its methods registered with the visibility
of the context that it is read in: that of a definition itself, the readers and writers of an
accessor macro, and the reader of a field, unless the field is skipped for another one of its
name. What is registered later in the same definition may take the place of a method, but
has the same visibility.
-/

namespace RubyDoc

open RubyDoc.Action

/-- Whether a method of a visibility stands at a path. -/
def Store.HasVisible (s : Store) (path : String) (visibility : Visibility) : Prop :=
  ∃ e, s.find? path = some e ∧ e.visibility? = some visibility

theorem Entity.isMethod_of_visibility? {e : Entity} {visibility : Visibility}
    (h : e.visibility? = some visibility) : e.isMethod = true := by
  obtain ⟨facts, hfacts, -⟩ := Option.map_eq_some_iff.mp h
  rw [isMethod, hfacts, Option.isSome_some]

/-- The members of a namespace do not matter to its visibility. -/
theorem Entity.visibility?_mapMembers (f : Members → Members) (e : Entity) :
    (e.mapMembers f).visibility? = e.visibility? := by
  rw [visibility?, visibility?, facts?, facts?, mapMembers]
  cases e.kind <;> rfl

namespace Store

variable {V : Option Visibility → Prop} {T : Handle → Scope → String → Prop} {s s' : Store}
  {path : String} {visibility : Visibility}

theorem IsKeyed.edit (hk : s.IsKeyed) (h : Edit V T s s') : s'.IsKeyed := by
  cases h with
  | register _ ha => exact hk.attach ha
  | modify path hf _ => exact hk.modify fun e => (hf e).path
  | put _ _ => exact hk.editMembers _ _

theorem IsKeyed.edits (hk : s.IsKeyed) (h : Relation.ReflTransGen (Edit V T) s s') :
    s'.IsKeyed := by
  induction h with
  | refl => exact hk
  | tail _ hlast ih => exact ih.edit hlast

/-- A method that is registered stands at its path with its visibility. -/
theorem hasVisible_attach {e : Entity} (he : e.visibility? = some visibility)
    (ha : s.attach e = .ok s') : s'.HasVisible e.path visibility := by
  refine ⟨s.numbered e, ?_, ?_⟩
  · rw [find?_attach ha (Entity.path_ne_of_isMethod (Entity.isMethod_of_visibility? he)).1, if_pos rfl]
  · rw [numbered, Entity.visibility?_mapMembers, he]

/-- Edits that give that visibility only leave the method, or another one of it. -/
theorem HasVisible.edit (h : s.HasVisible path visibility)
    (hedit : Edit (· = some visibility) T s s') : s'.HasVisible path visibility := by
  obtain ⟨known, hfind, hknown⟩ := h
  cases hedit with
  | @register _ e he ha =>
    by_cases hp : path = e.path
    · rw [hp]
      exact hasVisible_attach he ha
    · rw [HasVisible, find?_attach ha (Entity.path_ne_of_isMethod (Entity.isMethod_of_visibility? he)).1,
        if_neg hp, hfind]
      split
      · exact ⟨_, rfl, (Entity.visibility?_mapMembers _ known).trans hknown⟩
      · exact ⟨known, rfl, hknown⟩
  | modify target hf hv =>
    rw [HasVisible, find?_modify, hfind]
    split
    · exact ⟨_, rfl, (hv known).elim (fun hsame => hsame.trans hknown) id⟩
    · exact ⟨known, rfl, hknown⟩
  | put hT slots =>
    rw [HasVisible, find?_editMembers_eq, hfind]
    refine ⟨_, rfl, ?_⟩
    dsimp only
    split
    · exact (Entity.visibility?_mapMembers _ known).trans hknown
    · exact hknown

theorem HasVisible.edits (h : s.HasVisible path visibility)
    (hedits : Relation.ReflTransGen (Edit (· = some visibility) T) s s') :
    s'.HasVisible path visibility := by
  induction hedits with
  | refl => exact h
  | tail _ hlast ih => exact ih.edit hlast

end Store

namespace Action

variable {α β : Type} {V : Option Visibility → Prop} {T : Handle → Scope → String → Prop}
  {path : String} {visibility : Visibility}

/-- An action that leaves a method of a visibility at a path, if it comes to its end. -/
def Shows (path : String) (visibility : Visibility) (a : Action α) : Prop :=
  ∀ r : Records, r.store.IsKeyed → ∀ x r', runOn a r = (.ok x, r') →
    r'.store.HasVisible path visibility

/-- What follows leaves the method if it gives that visibility only. -/
theorem Shows.bind {a : Action α} {f : α → Action β} (ha : Shows path visibility a)
    (hf : ∀ x, Edits (· = some visibility) T (f x)) : Shows path visibility (a >>= f) := by
  intro r hk y r'' h
  obtain ⟨x, r', hfirst, hsecond⟩ := exists_of_runOn_bind_ok h
  have hedits := hf x r'
  rw [hsecond] at hedits
  exact (ha r hk x r' hfirst).edits hedits

/-- The method may come after other edits. -/
theorem GoesBy.bind_shows {a : Action α} {f : α → Action β} (ha : Edits V T a)
    (hf : ∀ x, MayGive a x → Shows path visibility (f x)) : Shows path visibility (a >>= f) := by
  intro r hk y r'' h
  obtain ⟨x, r', hfirst, hsecond⟩ := exists_of_runOn_bind_ok h
  have hedits := ha r
  rw [hfirst] at hedits
  exact hf x ⟨r, by rw [hfirst]⟩ r' (hk.edits hedits) y r'' hsecond

theorem IsQuiet.bind_shows {a : Action α} {f : α → Action β} (ha : IsQuiet a)
    (hf : ∀ x, MayGive a x → Shows path visibility (f x)) : Shows path visibility (a >>= f) :=
  GoesBy.bind_shows (V := fun _ => False) (T := fun _ _ _ => False) ha.goesBy hf

theorem shows_register {e : Entity} (he : e.visibility? = some visibility) (known : Bool) :
    Shows e.path visibility (register e known) := by
  intro r _ x r' h
  rw [runOn_register] at h
  cases ha : r.store.attach e with
  | error fault =>
    rw [ha] at h
    cases h
  | ok s =>
    rw [ha, Prod.mk.injEq] at h
    rw [← h.2]
    exact Store.hasVisible_attach he ha

end Action

section Rules

variable (c : Context) (n : Node)

/-- A method that is defined stands at its path, found there before or not. -/
theorem shows_defineMethod (name : String) (scope : Scope) :
    Shows (Entity.newMethod c.home.path name scope).path c.visibility
      (defineMethod c n name scope) := by
  intro r hk x r' h
  obtain ⟨hmethod, hpath⟩ := Store.findOrNewMethod_spec hk c.home.path name scope
  unfold defineMethod at h
  rw [runOn_bind_ok (runOn_inStore _ r), runOn_bind_ok (runOn_inStore _ r)] at h
  generalize (r.store.method? c.home.path name scope).isSome = known at h
  generalize r.store.findOrNewMethod c.home.path name scope = method at hmethod hpath h
  revert x r' h
  refine (isQuiet_docstringOf c n).bind_shows (fun docstring _ => ?_) r hk
  have hdocstring := fun e => Entity.IsEdited.docstring e docstring
  refine GoesBy.bind_shows (V := fun _ => False) (T := fun _ _ _ => False)
    (edits_revise method hdocstring fun _ _ => .inl rfl) fun documented h => ?_
  have hsecond := eq_of_mayGive_revise h ▸ (hdocstring method).isMethod hmethod
  have hsecond' := eq_of_mayGive_revise h ▸ (hdocstring method).path
  refine (isQuiet_read n).bind_shows fun source _ => ?_
  have hsource := fun e => Entity.IsEdited.source e (some source)
  refine GoesBy.bind_shows (V := fun _ => False) (T := fun _ _ _ => False)
    (edits_revise documented hsource fun _ _ => .inl rfl) fun sourced h => ?_
  have hthird := eq_of_mayGive_revise h ▸ (hsource documented).isMethod hsecond
  have hthird' := eq_of_mayGive_revise h ▸ (hsource documented).path
  refine (isQuiet_ofExcept _).bind_shows fun parameters _ => ?_
  have hdefined : ∀ e : Entity, e.IsEdited (c.defined n parameters e) := fun e =>
    .trans (.mapFacts (by intro _; rfl) e) (.declaredAt c n _)
  refine GoesBy.bind_shows (V := (· = some c.visibility)) (T := fun _ _ _ => False)
    (edits_revise sourced hdefined fun e he => .inr (c.visibility?_defined n parameters he))
    fun revised h => ?_
  have hrevised : revised = c.defined n parameters sourced := eq_of_mayGive_revise h
  rw [← hpath, ← hsecond', ← hthird', ← (hdefined sourced).path, hrevised]
  exact shows_register (c.visibility?_defined n parameters hthird) known

/-- The method that a definition defines. -/
theorem shows_processMethod {m : String × Scope} (hm : m ∈ n.definedMethod? c.scope) :
    Shows (Entity.newMethod c.home.path m.1 m.2).path c.visibility (processMethod c n) := by
  rw [Node.definedMethod?] at hm
  unfold processMethod
  cases hname : n.child? "name" with
  | none =>
    rw [hname] at hm
    cases hm
  | some nameNode =>
    rw [hname, Option.bind_some] at hm
    dsimp only
    split at hm
    · next hkind =>
      rw [if_pos hkind]
      split at hm
      · next hself =>
        refine (isQuiet_ofExcept _).bind_shows fun receiver hreceiver => ?_
        have hread : receiver = some "self" := by
          have hresult := eq_of_mayGive_ofExcept hreceiver
          cases hobject : n.child? "object" with
          | none =>
            rw [hobject] at hself
            cases hself
          | some object =>
            rw [hobject, Option.any_some] at hself
            rw [hobject] at hresult
            dsimp only at hresult
            cases htext : object.legible with
            | error fault =>
              rw [htext] at hresult
              cases hresult
            | ok text =>
              rw [htext] at hresult
              rw [← Except.ok.inj hresult, ← Node.written_of_legible htext, eq_of_beq hself]
        rw [hread, if_pos (beq_self_eq_true _)]
        refine (isQuiet_read nameNode).bind_shows fun name hname => ?_
        rw [← Option.some.inj hm, Node.written_of_legible (eq_of_mayGive_ofExcept hname)]
        exact shows_defineMethod c n name .onClass
      · cases hm
    · next hkind =>
      rw [if_neg hkind]
      refine (isQuiet_read nameNode).bind_shows fun name hread => ?_
      rw [← Option.some.inj hm, Node.written_of_legible (eq_of_mayGive_ofExcept hread)]
      exact shows_defineMethod c n name c.scope

/-- The accessors of one attribute. -/
theorem shows_defineAccessors (docstring source : String) (read write : Bool) (name : String)
    {m : String} (hm : m ∈ Node.accessorsNamed read write name) :
    Shows (Entity.newMethod c.home.path m c.scope).path c.visibility
      (defineAccessors c n docstring source read write name) := by
  have hregister : ∀ (m docstring : String) (parameters : List (String × Option String)),
      Shows (Entity.newMethod c.home.path m c.scope).path c.visibility
        (register (c.declaredAt n (accessorMethod c m docstring source parameters))) :=
    fun m docstring parameters =>
      shows_register (e := c.declaredAt n (accessorMethod c m docstring source parameters)) rfl false
  have hedits : ∀ (m docstring : String) (parameters : List (String × Option String)),
      Edits (· = some c.visibility) (fun _ _ _ => True)
        (register (c.declaredAt n (accessorMethod c m docstring source parameters))) :=
    fun m docstring parameters => edits_register (V := (· = some c.visibility)) rfl false
  have hput : ∀ slots, Edits (· = some c.visibility) (fun _ _ _ => True)
      (c.putAttribute name slots) := fun slots => edits_putAttribute c slots trivial
  unfold defineAccessors
  dsimp only
  rw [Node.accessorsNamed, List.mem_append] at hm
  cases read with
  | false =>
    cases write with
    | false => simp at hm
    | true =>
      obtain rfl : m = name ++ "=" := by simpa using hm
      exact (hregister _ _ _).bind fun _ => hput _
  | true =>
    cases write with
    | false =>
      obtain rfl : m = name := by simpa using hm
      exact (hregister _ _ _).bind fun _ => hput _
    | true =>
      rcases hm with hm | hm
      · obtain rfl : m = name := by simpa using hm
        exact (hregister _ _ _).bind fun _ => (hedits _ _ _).bind fun _ _ => hput _
      · obtain rfl : m = name ++ "=" := by simpa using hm
        exact (hedits _ _ _).bind_shows fun _ _ => (hregister _ _ _).bind fun _ => hput _

/-- The accessors of all attributes of a macro. -/
theorem shows_defineAccessorsOfAll (docstring source : String) (read write : Bool)
    {arguments : List Node} {m : String}
    (hm : m ∈ Node.definedAccessors read write arguments) :
    Shows (Entity.newMethod c.home.path m c.scope).path c.visibility
      (defineAccessorsOfAll c n docstring source read write arguments) := by
  induction arguments with
  | nil => cases hm
  | cons a rest ih =>
    rw [defineAccessorsOfAll]
    dsimp only
    rw [Node.definedAccessors, List.filter_cons] at hm
    split
    · next hkind =>
      rw [if_pos hkind, List.flatMap_cons, List.mem_append] at hm
      refine (isQuiet_ofExcept _).bind_shows fun name hname => ?_
      have hsymbol : a.symbol = name := by
        rw [Node.symbol, eq_of_mayGive_ofExcept hname]
        rfl
      rcases hm with hm | hm
      · refine (shows_defineAccessors c n docstring source read write name (hsymbol ▸ hm)).bind
          (T := fun _ _ _ => True) fun _ => ?_
        exact edits_defineAccessorsOfAll (V := (· = some c.visibility)) (T := fun _ _ _ => True)
          c n docstring source read write rfl fun _ _ => trivial
      · refine GoesBy.bind_shows (V := (· = some c.visibility)) (T := fun _ _ _ => True) ?_
          fun _ _ => ih hm
        exact edits_defineAccessors c n docstring source read write name rfl trivial
    · next hkind =>
      rw [if_neg hkind] at hm
      exact ih hm

/-- The accessors of a macro. -/
theorem shows_processAccessors (read write : Bool) {m : String}
    (hm : m ∈ Node.definedAccessors read write n.positionalArguments) :
    Shows (Entity.newMethod c.home.path m c.scope).path c.visibility
      (processAccessors c n read write) := by
  unfold processAccessors
  refine (isQuiet_docstringOf c n).bind_shows fun docstring _ => ?_
  refine (isQuiet_read n).bind_shows fun source _ => ?_
  exact shows_defineAccessorsOfAll c n docstring source read write hm

/-- The reader of a field that is recorded. -/
theorem shows_defineField (form : FieldForm) (f : FieldRecord) :
    Shows (Entity.newMethod f.home f.name c.scope).path c.visibility (defineField c n form f) := by
  unfold defineField
  refine GoesBy.bind_shows (V := fun _ => False) (T := fun _ _ _ => False)
    (edits_modifyRecords fun _ => rfl) fun _ _ => ?_
  dsimp only
  generalize readerDocstring c.config f = docstring
  have hshows : Shows (Entity.newMethod f.home f.name c.scope).path c.visibility
      (register (c.declaredAt n
        { name := f.name, home := f.home, docstring, source := some f.source
          kind := .method { scope := c.scope, visibility := c.visibility } })) :=
    shows_register (e := c.declaredAt n
      { name := f.name, home := f.home, docstring, source := some f.source
        kind := .method { scope := c.scope, visibility := c.visibility } }) rfl false
  refine hshows.bind (T := fun _ _ _ => True) fun _ => ?_
  exact (edits_putAttribute c _ trivial).bind fun _ _ => (isQuiet_note _ _ _).goesBy

/-- The reader of a field that is not skipped for another one of its name. -/
theorem hasVisible_processField (isProp : Bool) {name : String} (hname : n.usableName? = some name)
    {r r' : Records} (hk : r.store.IsKeyed)
    (hkept : r.fields.hasField c.home.path name = true → c.config.allowDuplicateFields = true)
    (h : runOn (processField c n isProp) r = (.ok (), r')) :
    r'.store.HasVisible (Entity.newMethod c.home.path name c.scope).path c.visibility := by
  unfold processField at h
  obtain ⟨form, r₁, hform, h⟩ := exists_of_runOn_bind_ok h
  obtain rfl : r = r₁ := by
    rw [runOn_ofExcept] at hform
    exact congrArg Prod.snd hform
  obtain ⟨name?, r₂, hread, h⟩ := exists_of_runOn_bind_ok h
  rw [runOn_ofExcept, Prod.mk.injEq] at hread
  obtain ⟨hread, rfl⟩ := hread
  obtain rfl : name? = some name := by
    rw [Node.usableName?, hread] at hname
    exact hname
  obtain ⟨f, r₃, hf, h⟩ := exists_of_runOn_bind_ok h
  obtain ⟨hhome, hfield⟩ := of_mayGive_readField ⟨r, congrArg Prod.fst hf⟩
  obtain ⟨log, hlog⟩ := isQuiet_readField c n form isProp name r
  rw [hf] at hlog
  dsimp only at hlog
  rw [hlog, runOn_bind_ok (runOn_get _), hhome, hfield] at h
  have hshows : Shows (Entity.newMethod c.home.path name c.scope).path c.visibility
      (defineField c n form f) := by
    rw [← hhome, ← hfield]
    exact shows_defineField c n form f
  dsimp only at h
  split at h
  · next hknown =>
    rw [if_pos (hkept hknown), runOn_bind_ok (runOn_note _ _ _ _)] at h
    refine hshows _ ?_ () r' h
    exact hk
  · refine hshows _ ?_ () r' h
    exact hk

end Rules

namespace Statement

/-- The rule that reads a definition. -/
def definition? (c : Context) : Statement → Option (Rule × Action Unit)
  | .method s => some (.method, processMethod c s.node)
  | .accessors s read write => some (.accessors, processAccessors c s.node read write)
  | .field s isProp => some (.field, processField c s.node isProp)
  | _ => none

/-- The methods that a statement defines, and for which scope. A field of a name that its
namespace has already is left out unless the settings allow for it. -/
def defined (c : Context) (fields : Ledger) : Statement → List (String × Scope)
  | .method s => (s.node.definedMethod? c.scope).toList
  | .accessors s read write =>
    (Node.definedAccessors read write s.node.positionalArguments).map fun name => (name, c.scope)
  | .field s _ =>
    (s.node.usableName?.toList.filter fun name =>
      !fields.hasField c.home.path name || c.config.allowDuplicateFields).map
        fun name => (name, c.scope)
  | _ => []

/-- A definition is read by its rule, and a fault of that is logged. -/
theorem walk_of_definition? {c : Context} {s : Statement} {rule : Rule} {action : Action Unit}
    (h : s.definition? c = some (rule, action)) : walk c s = c.guarding s.node rule action := by
  cases s with
  | method | accessors | field =>
    rw [definition?, Option.some.injEq, Prod.mk.injEq] at h
    rw [walk, ← h.1, ← h.2]
    rfl
  | _ => cases h

/-- All methods that a definition defines stand at their paths with the visibility of its
context, if it comes to its end. -/
theorem hasVisible_of_mem_defined {c : Context} {s : Statement} {rule : Rule}
    {action : Action Unit} (h : s.definition? c = some (rule, action)) {r r' : Records}
    (hk : r.store.IsKeyed) (hrun : runOn action r = (.ok (), r')) {m : String × Scope}
    (hm : m ∈ s.defined c r.fields) :
    r'.store.HasVisible (Entity.newMethod c.home.path m.1 m.2).path c.visibility := by
  cases s with
  | method s =>
    rw [definition?, Option.some.injEq, Prod.mk.injEq] at h
    rw [defined, Option.mem_toList] at hm
    exact shows_processMethod c s.node hm r hk () r' (h.2 ▸ hrun)
  | accessors s read write =>
    rw [definition?, Option.some.injEq, Prod.mk.injEq] at h
    obtain ⟨name, hname, rfl⟩ := List.mem_map.mp hm
    exact shows_processAccessors c s.node read write hname r hk () r' (h.2 ▸ hrun)
  | field s isProp =>
    rw [definition?, Option.some.injEq, Prod.mk.injEq] at h
    obtain ⟨name, hname, rfl⟩ := List.mem_map.mp hm
    obtain ⟨husable, hkept⟩ := List.mem_filter.mp hname
    refine hasVisible_processField c s.node isProp (Option.mem_toList.mp husable) hk (fun hfield => ?_)
      (h.2 ▸ hrun)
    rwa [hfield, Bool.not_true, Bool.false_or] at hkept
  | _ => cases h

end Statement

end RubyDoc
