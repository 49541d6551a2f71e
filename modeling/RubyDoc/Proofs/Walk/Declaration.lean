import RubyDoc.Proofs.Action
import RubyDoc.Proofs.Store

/-!
# What actions declare

A statement declares objects at some paths. An action that declares no more than
a list says may put other objects at the paths listed, and for the rest leaves
every object a namespace, a constant, or a method with the parameters it has. The
fields and the docstrings given to nodes stay as they are. Docstrings, members and
visibilities of stored objects are not tracked.
-/

namespace RubyDoc

/-- What a declaration makes. A placeholder stands for a namespace that was not
declared itself. -/
inductive DeclaredKind where
  | placeholder | moduleSpace | classSpace | constant | method
deriving DecidableEq

/-- Something that a statement declares. -/
structure Declaration where
  /-- The namespace that the statement stands in. -/
  home : String
  /-- The path of what it declares. -/
  path : String
  /-- What it makes. -/
  kind : DeclaredKind
deriving DecidableEq

/-- What is tracked of a stored object. -/
inductive Shape where
  | namespace
  | constant
  | method (parameters : List (String × Option String))
deriving DecidableEq

/-- The shape of an entity. -/
def Entity.shape (e : Entity) : Shape :=
  match e.kind with
  | .root _ | .moduleSpace _ | .classSpace _ _ => .namespace
  | .constant _ => .constant
  | .method facts => .method facts.parameters

namespace Entity

variable (e : Entity)

@[simp] theorem shape_mapMembers (f : Members → Members) : (e.mapMembers f).shape = e.shape := by
  unfold mapMembers shape
  cases e.kind <;> rfl

@[simp] theorem shape_docstring (docstring : String) :
    ({ e with docstring } : Entity).shape = e.shape := rfl

/-- The methods are the entities with the shape of one. -/
theorem isMethod_iff : e.isMethod = true ↔ ∃ parameters, e.shape = .method parameters := by
  unfold isMethod facts? shape
  cases e.kind <;> simp

/-- The methods are the entities with the name of that kind. -/
theorem isMethod_iff_name : e.isMethod = true ↔ e.kind.name = "method" := by
  unfold isMethod facts? EntityKind.name
  cases e.kind <;> simp

/-- The namespaces are the entities with the shape of one. -/
theorem isNamespace_iff : (∃ m, e.members? = some m) ↔ e.shape = .namespace := by
  unfold members? EntityKind.members? shape
  cases e.kind <;> simp

end Entity

namespace Store

/-- The shape of what stands at a path. -/
def shapeAt (s : Store) (path : String) : Option Shape := (s.find? path).map Entity.shape

/-- Whether a method stands at a path. -/
def HasMethod (s : Store) (path : String) : Prop :=
  ∃ parameters, s.shapeAt path = some (.method parameters)

/-- A store that has changed by some declarations at most. -/
structure ChangedBy (declared : List Declaration) (s s' : Store) : Prop where
  /-- Entities stand under their own paths. -/
  isKeyed : s'.IsKeyed
  /-- Shapes at other paths than those declared stay. -/
  shape : ∀ path, (∀ d ∈ declared, d.path ≠ path) → s'.shapeAt path = s.shapeAt path
  /-- Methods stay methods where only methods are declared. -/
  method : ∀ path, (∀ d ∈ declared, d.path = path → d.kind = .method) →
    s.HasMethod path → s'.HasMethod path

variable {declared : List Declaration} {s s' s'' : Store}

theorem ChangedBy.refl (h : s.IsKeyed) : ChangedBy declared s s :=
  ⟨h, fun _ _ => rfl, fun _ _ hm => hm⟩

theorem ChangedBy.trans (h : ChangedBy declared s s') (h' : ChangedBy declared s' s'') :
    ChangedBy declared s s'' :=
  ⟨h'.isKeyed, fun path hp => (h'.shape path hp).trans (h.shape path hp),
    fun path hp hm => h'.method path hp (h.method path hp hm)⟩

/-- A store with the same shapes everywhere has changed by no declaration. -/
theorem changedBy_of_shapeAt (hk : s'.IsKeyed) (h : ∀ path, s'.shapeAt path = s.shapeAt path) :
    ChangedBy declared s s' := by
  refine ⟨hk, fun path _ => h path, fun path _ hm => ?_⟩
  rw [HasMethod, h]
  exact hm

/-- Changing an entity without giving it another path keeps the store keyed. -/
theorem IsKeyed.modify (h : s.IsKeyed) {path : String} {f : Entity → Entity}
    (hf : ∀ e, (f e).path = e.path) : (s.modify path f).IsKeyed := by
  refine ⟨by rw [keys_modify]; exact h.nodup, fun p e he => ?_⟩
  rw [find?_modify] at he
  split at he
  · obtain ⟨e', he', rfl⟩ := Option.map_eq_some_iff.mp he
    rw [hf, h.path p e' he']
  · exact h.path p e he

/-- Changing an entity without giving it another path or shape declares nothing. -/
theorem changedBy_modify (h : s.IsKeyed) {path : String} {f : Entity → Entity}
    (hf : ∀ e, (f e).path = e.path ∧ (f e).shape = e.shape) :
    ChangedBy declared s (s.modify path f) := by
  refine changedBy_of_shapeAt (h.modify fun e => (hf e).1) fun p => ?_
  rw [shapeAt, find?_modify, shapeAt]
  split
  · rw [Option.map_map]
    congr 1
    funext e
    exact (hf e).2
  · rfl

/-- Changing a method where one is declared declares no more. -/
theorem changedBy_editMethod_of_mem (h : s.IsKeyed) {d : Declaration} (hd : d ∈ declared)
    {f : Entity → Entity}
    (hf : ∀ e, e.isMethod = true → (f e).path = e.path ∧ (f e).isMethod = true) :
    ChangedBy declared s (s.editMethod d.path f) := by
  have hpath : ∀ e : Entity, (if e.isMethod then f e else e).path = e.path := by
    intro e
    split
    · next hm => exact (hf e hm).1
    · rfl
  refine ⟨h.modify hpath, fun p hp => ?_, fun p _ hm => ?_⟩
  · rw [shapeAt, find?_editMethod, if_neg fun he => hp d hd he.symm, shapeAt]
  · rw [HasMethod, shapeAt, find?_editMethod]
    split
    · obtain ⟨parameters, hshape⟩ := hm
      obtain ⟨e, he, hs⟩ := Option.map_eq_some_iff.mp hshape
      have hmethod := (Entity.isMethod_iff e).mpr ⟨parameters, hs⟩
      obtain ⟨parameters', hs'⟩ := (Entity.isMethod_iff _).mp (hf e hmethod).2
      refine ⟨parameters', ?_⟩
      rw [he, Option.map_some, if_pos hmethod, Option.map_some, hs']
    · exact hm

/-- Changing a method without giving it other parameters declares nothing. -/
theorem changedBy_editMethod (h : s.IsKeyed) {path : String} {f : Entity → Entity}
    (hf : ∀ e, e.isMethod = true → (f e).path = e.path ∧ (f e).shape = e.shape) :
    ChangedBy declared s (s.editMethod path f) := by
  refine changedBy_modify h fun e => ?_
  split
  · next hm => exact hf e hm
  · exact ⟨rfl, rfl⟩

/-- The shape at a path does not tell the members. -/
theorem shapeAt_editMembers (s : Store) (handle : Handle) (f : Members → Members) (path : String) :
    (s.editMembers handle f).shapeAt path = s.shapeAt path := by
  rw [shapeAt, find?_editMembers, shapeAt]
  split
  · rw [Option.map_map]
    congr 1
    funext e
    rw [Function.comp_apply]
    split
    · exact Entity.shape_mapMembers e f
    · rfl
  · rfl

/-- Changing the members of a namespace keeps the store keyed. -/
theorem IsKeyed.editMembers (h : s.IsKeyed) (handle : Handle) (f : Members → Members) :
    (s.editMembers handle f).IsKeyed := by
  refine ⟨by rw [keys_editMembers]; exact h.nodup, fun p e he => ?_⟩
  rw [find?_editMembers] at he
  split at he
  · obtain ⟨e', he', rfl⟩ := Option.map_eq_some_iff.mp he
    have hpath := h.path p e' he'
    split
    · rw [Entity.path_mapMembers, hpath]
    · exact hpath
  · exact h.path p e he

/-- Changing the members of a namespace declares nothing. -/
theorem changedBy_editMembers (h : s.IsKeyed) (handle : Handle) (f : Members → Members) :
    ChangedBy declared s (s.editMembers handle f) :=
  changedBy_of_shapeAt (h.editMembers handle f) (shapeAt_editMembers s handle f)

/-- Placing an entity at its path keeps the store keyed. -/
theorem IsKeyed.placed (h : s.IsKeyed) (e : Entity) : (s.placed e).IsKeyed := by
  refine ⟨?_, fun p found hfound => ?_⟩
  · rw [keys_placed]
    split
    · exact h.nodup
    · next hc =>
      rw [List.nodup_append]
      refine ⟨h.nodup, by simp, fun p hp q hq he => hc ?_⟩
      rw [he, List.mem_singleton.mp hq] at hp
      exact contains_of_mem_keys hp
  · rw [find?_placed] at hfound
    split at hfound
    · next hpath =>
      rw [← Option.some.inj hfound, numbered, Entity.path_mapMembers, hpath]
    · exact h.path p found hfound

/-- Registering what a declaration makes declares no more. -/
theorem changedBy_attach (h : s.IsKeyed) {e : Entity} (ha : s.attach e = .ok s')
    {d : Declaration} (hd : d ∈ declared) (hpath : d.path = e.path)
    (hkind : e.isMethod = true ∨ d.kind ≠ .method) : ChangedBy declared s s' := by
  obtain ⟨home, m, -, -, rfl⟩ := (attach_eq_ok_iff s s' e).mp ha
  have hplaced : ChangedBy declared s (s.placed e) := by
    refine ⟨h.placed e, fun p hp => ?_, fun p hp hm => ?_⟩
    · rw [shapeAt, find?_placed, if_neg fun he => hp d hd (hpath.trans he.symm), shapeAt]
    · rw [HasMethod, shapeAt, find?_placed]
      split
      · next hpe =>
        have hmethod := hkind.resolve_right fun hn => hn (hp d hd (hpath.trans hpe.symm))
        obtain ⟨parameters, hs⟩ := (Entity.isMethod_iff e).mp hmethod
        refine ⟨parameters, ?_⟩
        rw [Option.map_some, numbered, Entity.shape_mapMembers, hs]
      · exact hm
  exact hplaced.trans (changedBy_editMembers hplaced.isKeyed _ _)

/-- What is registered stands at its path. -/
theorem shapeAt_attach {e : Entity} (ha : s.attach e = .ok s') :
    s'.shapeAt e.path = some e.shape := by
  obtain ⟨f, hfind⟩ := exists_find?_attach ha
  rw [shapeAt, hfind, Option.map_some, Entity.shape_mapMembers]

/-- An entity can be registered if there is a namespace around it. -/
theorem exists_attach {e : Entity} (h : s.shapeAt e.home = some .namespace) :
    ∃ s', s.attach e = .ok s' := by
  obtain ⟨home, hf, hs⟩ := Option.map_eq_some_iff.mp h
  obtain ⟨m, hm⟩ := (Entity.isNamespace_iff home).mpr hs
  exact ⟨_, (attach_eq_ok_iff s _ e).mpr ⟨home, m, hf, hm, rfl⟩⟩

/-- Whether there is a namespace at a path is seen from its shape. -/
theorem namespaceAt_ok_iff (s : Store) (path : String) :
    (∃ found, s.namespaceAt path = .ok found) ↔ s.shapeAt path = some .namespace := by
  constructor
  · rintro ⟨⟨e, m⟩, h⟩
    obtain ⟨hf, hm⟩ := (namespaceAt_eq_ok_iff s path e m).mp h
    rw [shapeAt, hf, Option.map_some, (Entity.isNamespace_iff e).mp ⟨m, hm⟩]
  · intro h
    obtain ⟨e, hf, hs⟩ := Option.map_eq_some_iff.mp h
    obtain ⟨m, hm⟩ := (Entity.isNamespace_iff e).mpr hs
    exact ⟨(e, m), (namespaceAt_eq_ok_iff s path e m).mpr ⟨hf, hm⟩⟩

end Store

/-- Records of which only the store and the log have changed, the store by some
declarations at most. -/
structure Records.ChangedBy (declared : List Declaration) (r r' : Records) : Prop where
  /-- The store has changed by the declarations. -/
  store : Store.ChangedBy declared r.store r'.store
  /-- No field was recorded. -/
  fields : r'.fields = r.fields
  /-- No node was given a docstring. -/
  overridden : r'.overridden = r.overridden

namespace Records.ChangedBy

variable {declared : List Declaration} {r r' r'' : Records}

theorem refl (h : r.store.IsKeyed) : ChangedBy declared r r :=
  ⟨.refl h, rfl, rfl⟩

theorem trans (h : ChangedBy declared r r') (h' : ChangedBy declared r' r'') :
    ChangedBy declared r r'' :=
  ⟨h.store.trans h'.store, h'.fields.trans h.fields, h'.overridden.trans h.overridden⟩

/-- What is in the log does not matter. -/
theorem of_log {log : Log} (h : ({ r with log } : Records).ChangedBy declared r') :
    r.ChangedBy declared r' :=
  ⟨h.store, h.fields, h.overridden⟩

end Records.ChangedBy

namespace Action

variable {α β : Type} {declared : List Declaration}

/-- An action that changes the store by some declarations at most, and the fields
and the docstrings of nodes not at all. -/
def Declares (declared : List Declaration) (a : Action α) : Prop :=
  ∀ r : Records, r.store.IsKeyed → r.ChangedBy declared (runOn a r).2

/-- Whether a result may come out of an action. -/
def Gives (a : Action α) (x : α) : Prop :=
  ∃ r : Records, r.store.IsKeyed ∧ (runOn a r).1 = .ok x

theorem declares_pure (a : α) : Declares declared (pure a) := fun _ hk => .refl hk

theorem declares_throw (fault : Fault) : Declares declared (throw fault : Action α) :=
  fun _ hk => .refl hk

theorem declares_note (level : Level) (channel : Channel) (message : String) :
    Declares declared (note level channel message) := fun _ hk => ⟨.refl hk, rfl, rfl⟩

theorem declares_ofExcept (result : Except Fault α) : Declares declared (ofExcept result) := by
  intro r hk
  rw [runOn_ofExcept]
  exact .refl hk

theorem declares_inStore (f : Store → α) : Declares declared (inStore f) := fun _ hk => .refl hk

theorem declares_changeStore {f : Store → Store}
    (h : ∀ s : Store, s.IsKeyed → s.ChangedBy declared (f s)) :
    Declares declared (changeStore f) := fun r hk => ⟨h r.store hk, rfl, rfl⟩

/-- One action after another declares what both declare. -/
theorem Declares.bind {a : Action α} {f : α → Action β} (ha : Declares declared a)
    (hf : ∀ x, Gives a x → Declares declared (f x)) : Declares declared (a >>= f) := by
  intro r hk
  have hfirst := ha r hk
  rw [runOn_bind]
  cases h : runOn a r with
  | mk result r' =>
    rw [h] at hfirst
    cases result with
    | error fault => exact hfirst
    | ok x => exact hfirst.trans (hf x ⟨r, hk, by rw [h]⟩ r' hfirst.store.isKeyed)

/-- Registering an entity declares it. -/
theorem declares_register {e : Entity} {d : Declaration} (hd : d ∈ declared)
    (hpath : d.path = e.path) (hkind : e.isMethod = true ∨ d.kind ≠ .method) (known : Bool) :
    Declares declared (register e known) := by
  intro r hk
  rw [runOn_register]
  cases ha : r.store.attach e with
  | error fault => exact .refl hk
  | ok s => exact ⟨Store.changedBy_attach hk ha hd hpath hkind, rfl, rfl⟩

/-- Revising a method where one is declared declares no more. -/
theorem declares_revise {e : Entity} {d : Declaration} (hd : d ∈ declared)
    (hpath : d.path = e.path) {f : Entity → Entity}
    (hf : ∀ e, e.isMethod = true → (f e).path = e.path ∧ (f e).isMethod = true) :
    Declares declared (revise e f) := by
  intro r hk
  rw [runOn_revise, ← hpath]
  exact ⟨Store.changedBy_editMethod_of_mem hk hd hf, rfl, rfl⟩

theorem eq_of_gives_ofExcept {result : Except Fault α} {x : α} (h : Gives (ofExcept result) x) :
    result = .ok x := by
  obtain ⟨r, -, hx⟩ := h
  rwa [runOn_ofExcept] at hx

theorem exists_of_gives_inStore {f : Store → α} {x : α} (h : Gives (inStore f) x) :
    ∃ s : Store, s.IsKeyed ∧ f s = x := by
  obtain ⟨r, hk, hx⟩ := h
  rw [runOn_inStore] at hx
  exact ⟨r.store, hk, Except.ok.inj hx⟩

theorem eq_of_gives_revise {e e' : Entity} {f : Entity → Entity} (h : Gives (revise e f) e') :
    e' = f e := by
  obtain ⟨r, -, hx⟩ := h
  rw [runOn_revise] at hx
  exact (Except.ok.inj hx).symm

/-- Revising a method where one is declared, and going on with it. -/
theorem declares_revise_bind {e : Entity} {d : Declaration} (hd : d ∈ declared)
    (he : e.isMethod = true) (hpath : d.path = e.path) {f : Entity → Entity}
    (hf : ∀ e, e.isMethod = true → (f e).path = e.path ∧ (f e).isMethod = true)
    {g : Entity → Action β}
    (hg : ∀ e, e.isMethod = true → d.path = e.path → Declares declared (g e)) :
    Declares declared (revise e f >>= g) := by
  refine (declares_revise hd hpath hf).bind fun e' he' => ?_
  rw [eq_of_gives_revise he']
  obtain ⟨hsame, hmethod⟩ := hf e he
  exact hg _ hmethod (hpath.trans hsame.symm)

end Action

end RubyDoc
