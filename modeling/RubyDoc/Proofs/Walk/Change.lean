import Mathlib.Logic.Relation
import RubyDoc.Proofs.ObjectPath
import RubyDoc.Proofs.Walk.Declaration
import RubyDoc.Walk.Namespaces

/-!
# How a walk changes the store

A walk changes the store in four ways: it registers something that is declared, it
edits a method in place, it edits a class or module that is opened again, or it puts
an attribute into a table. What may be declared is a parameter, so that one account
serves for what holds of every walk and for what holds where declarations agree with
each other. An action changes the store step by step, whether it gives a result or
ends in a fault half-way.
-/

namespace RubyDoc

open ObjectPath

/-- An entity that is edited in place: it stays where it is, and what it is. -/
structure Entity.IsEdited (e e' : Entity) : Prop where
  /-- Its path stays. -/
  path : e'.path = e.path
  /-- Its namespace stays. -/
  home : e'.home = e.home
  /-- Its members stay. -/
  members : e'.members? = e.members?
  /-- Its kind stays, though not what is special to it. -/
  kind : e'.kind.name = e.kind.name

theorem Entity.IsEdited.refl (e : Entity) : e.IsEdited e := ⟨rfl, rfl, rfl, rfl⟩

/-- Editing methods edits whatever it is done to. -/
theorem Entity.isEdited_of_method {f : Entity → Entity} (hf : ∀ e, IsEdited e (f e)) (e : Entity) :
    e.IsEdited (if e.isMethod then f e else e) := by
  split
  · exact hf e
  · exact .refl e

/-- Whether a reader or a writer is at a path. -/
def Slots.Names (slots : Slots) (path : String) : Prop :=
  slots.read = some path ∨ slots.write = some path

namespace Store

/-- A method as an action has it in hand that defines what is declared: it stands at the
path that is declared, and if it does not belong to the namespace of the declaration it
was registered there before. -/
structure IsMethodFor (s : Store) (d : Declaration) (e : Entity) : Prop where
  /-- It is a method. -/
  isMethod : e.isMethod = true
  /-- It stands at the path that is declared. -/
  path : e.path = d.path
  /-- It belongs to the namespace of the declaration, or was registered before. -/
  home : e.home = d.home ∨
    ∃ known, s.find? e.path = some known ∧ known.isMethod = true ∧ known.home = e.home

/-- What a walk registers, among what may be declared. A class takes over the members
of what stands at its path; a module and a placeholder begin without any. -/
inductive Registers (D : Declaration → Prop) (s : Store) : Entity → Prop
  /-- A method that is declared, new or registered before. -/
  | method {e : Entity} {d : Declaration} (hd : D d) (hkind : d.kind = .method)
      (he : s.IsMethodFor d e) : Registers D s e
  /-- A constant. -/
  | constant {e : Entity} {d : Declaration} {value : String} (hd : D d)
      (hkind : d.kind = .constant) (he : e.kind = .constant value) (hpath : e.path = d.path)
      (hhome : e.home = d.home) : Registers D s e
  /-- The placeholder of a namespace that is missing. -/
  | placeholder {d : Declaration} (hd : D d) (hkind : d.kind = .placeholder)
      (hmissing : ∀ known, s.find? d.path = some known → known.members? = none) :
      Registers D s (.placeholder (split d.path).1 (split d.path).2)
  /-- A module where there is none. -/
  | moduleSpace {e : Entity} {d : Declaration} (hd : D d) (hkind : d.kind = .moduleSpace)
      (hhome : e.home = (split d.path).1) (hname : e.name = (split d.path).2)
      (he : e.kind = .moduleSpace {}) (hnew : (s.find? d.path).any Entity.isModule = false) :
      Registers D s e
  /-- A class where there is none. -/
  | classSpace {e : Entity} {d : Declaration} {superclass : Option String} (hd : D d)
      (hkind : d.kind = .classSpace) (hhome : e.home = (split d.path).1)
      (hname : e.name = (split d.path).2)
      (he : e.kind = .classSpace (inheritedMembers (s.find? d.path)) superclass)
      (hnew : (s.find? d.path).any Entity.isClass = false) : Registers D s e

/-- What is registered has new members, or it takes over those of the namespace at its path. -/
theorem Registers.members {D : Declaration → Prop} {s : Store} {e : Entity}
    (he : s.Registers D e) {m : Members} (hm : e.members? = some m) :
    m = {} ∨ ∃ path known, s.find? path = some known ∧ known.members? = some m ∧
      e.path = join (split path).1 (split path).2 := by
  cases he with
  | method _ _ he =>
    obtain ⟨parameters, hshape⟩ := e.isMethod_iff.mp he.isMethod
    rw [e.isNamespace_iff.mp ⟨m, hm⟩] at hshape
    cases hshape
  | constant _ _ he =>
    rw [Entity.members?, he] at hm
    cases hm
  | placeholder => exact .inl (Option.some.inj hm).symm
  | moduleSpace _ _ _ _ he =>
    rw [Entity.members?, he] at hm
    exact .inl (Option.some.inj hm).symm
  | @classSpace _ d superclass _ _ hhome hname he =>
    have hpath : e.path = join (split d.path).1 (split d.path).2 := by
      rw [Entity.path, he, hhome, hname]
    rw [Entity.members?, he] at hm
    rw [← Option.some.inj hm, inheritedMembers]
    cases hfind : s.find? d.path with
    | none => exact .inl rfl
    | some known =>
      rw [Option.bind_some]
      cases hknown : known.members? with
      | none => exact .inl rfl
      | some m => exact .inr ⟨d.path, known, hfind, hknown, hpath⟩

/-- One change of the store. -/
inductive Change (D : Declaration → Prop) : Store → Store → Prop
  /-- Something is registered. -/
  | register {s s' : Store} {e : Entity} (he : s.Registers D e) (ha : s.attach e = .ok s') :
      Change D s s'
  /-- The method at a path is edited in place. -/
  | edit (s : Store) (path : String) {f : Entity → Entity} (hf : ∀ e, Entity.IsEdited e (f e)) :
      Change D s (s.editMethod path f)
  /-- A class or module that is opened again is edited in place. -/
  | reopen (s : Store) {d : Declaration} (hd : D d)
      (hkind : d.kind = .classSpace ∨ d.kind = .moduleSpace) {f : Entity → Entity}
      (hf : ∀ e, Entity.IsEdited e (f e)) : Change D s (s.modify d.path f)
  /-- An attribute is put into a table; its reader and writer are registered. -/
  | slots (s : Store) (handle : Handle) (scope : Scope) (name : String) {slots : Slots}
      (hslots : ∀ path, slots.Names path → path ∈ s.keys) :
      Change D s (s.editMembers handle fun m => m.putAttribute scope name slots)

/-- A row of changes of the store. -/
abbrev Changes (D : Declaration → Prop) : Store → Store → Prop := Relation.ReflTransGen (Change D)

variable {D : Declaration → Prop} {s s' : Store}

/-- Registering anything keeps the store keyed. -/
theorem IsKeyed.attach (hk : s.IsKeyed) {e : Entity} (ha : s.attach e = .ok s') : s'.IsKeyed :=
  (changedBy_attach hk ha (List.mem_singleton_self ⟨"", e.path, .placeholder⟩) rfl
    (.inr DeclaredKind.noConfusion)).isKeyed

theorem IsKeyed.change (hk : s.IsKeyed) (h : Change D s s') : s'.IsKeyed := by
  cases h with
  | register _ ha => exact hk.attach ha
  | edit path hf => exact hk.modify fun e => (Entity.isEdited_of_method hf e).path
  | reopen _ _ hf => exact hk.modify fun e => (hf e).path
  | slots handle scope name _ => exact hk.editMembers _ _

theorem IsKeyed.changes (hk : s.IsKeyed) (h : Changes D s s') : s'.IsKeyed := by
  induction h with
  | refl => exact hk
  | tail _ hlast ih => exact ih.change hlast

/-- No change takes a path away or moves it; a new path comes behind the others. -/
theorem Change.keys_isPrefix (h : Change D s s') : s.keys <+: s'.keys := by
  cases h with
  | register _ ha =>
    rw [keys_attach ha]
    split
    · exact List.prefix_refl _
    · exact List.prefix_append _ _
  | edit path _ => exact (keys_editMethod s path _).symm ▸ List.prefix_refl s.keys
  | @reopen d _ _ _ _ => exact (keys_modify s d.path _).symm ▸ List.prefix_refl s.keys
  | slots handle scope name _ =>
    exact (keys_editMembers s handle _).symm ▸ List.prefix_refl s.keys

theorem Changes.keys_isPrefix (h : Changes D s s') : s.keys <+: s'.keys := by
  induction h with
  | refl => exact List.prefix_refl _
  | tail _ hlast ih => exact ih.trans hlast.keys_isPrefix

/-- What is registered has its path taken. -/
theorem mem_keys_attach {e : Entity} (ha : s.attach e = .ok s') : e.path ∈ s'.keys := by
  rw [keys_attach ha]
  split
  · next hc => exact mem_keys_iff.mpr (Option.isSome_iff_exists.mp hc)
  · exact List.mem_append_right _ (List.mem_singleton_self _)

end Store

namespace Action

variable {α β : Type} {D : Declaration → Prop} {s : Store}

/-- An action that leaves the records as they are, but for the log. -/
def IsQuiet (a : Action α) : Prop := ∀ r : Records, ∃ log, (runOn a r).2 = { r with log }

theorem isQuiet_pure (a : α) : IsQuiet (pure a) := fun r => ⟨r.log, rfl⟩

theorem isQuiet_throw (fault : Fault) : IsQuiet (throw fault : Action α) := fun r => ⟨r.log, rfl⟩

theorem isQuiet_get : IsQuiet (get : Action Records) := fun r => ⟨r.log, rfl⟩

theorem isQuiet_note (level : Level) (channel : Channel) (message : String) :
    IsQuiet (note level channel message) := fun _ => ⟨_, rfl⟩

theorem isQuiet_ofExcept (result : Except Fault α) : IsQuiet (ofExcept result) := by
  intro r
  rw [runOn_ofExcept]
  exact ⟨r.log, rfl⟩

theorem isQuiet_inStore (f : Store → α) : IsQuiet (inStore f) := fun r => ⟨r.log, rfl⟩

theorem isQuiet_ofReading (reading : Reading α) : IsQuiet (ofReading reading) := by
  intro r
  rw [runOn_ofReading]
  exact ⟨_, rfl⟩

theorem IsQuiet.bind {a : Action α} {f : α → Action β} (ha : IsQuiet a) (hf : ∀ x, IsQuiet (f x)) :
    IsQuiet (a >>= f) := by
  intro r
  obtain ⟨log, hfirst⟩ := ha r
  rw [runOn_bind]
  cases h : runOn a r with
  | mk result r' =>
    rw [h] at hfirst
    cases result with
    | error fault => exact ⟨log, hfirst⟩
    | ok x =>
      obtain ⟨log', hsecond⟩ := hf x r'
      refine ⟨log', hsecond.trans ?_⟩
      dsimp only at hfirst
      rw [hfirst]

/-- The store is left as it is. -/
theorem IsQuiet.store {a : Action α} (h : IsQuiet a) (r : Records) :
    (runOn a r).2.store = r.store := by
  obtain ⟨log, hlog⟩ := h r
  rw [hlog]

/-- An action that changes a store step by step. -/
def ChangesFrom (D : Declaration → Prop) (s : Store) (a : Action α) : Prop :=
  ∀ r : Records, r.store = s → Store.Changes D s (runOn a r).2.store

theorem IsQuiet.changesFrom {a : Action α} (h : IsQuiet a) : ChangesFrom D s a := by
  intro r hr
  rw [h.store r, hr]

/-- One action after another changes the store step by step if both do, the second from
the records that the first comes to. -/
theorem ChangesFrom.bind_run {a : Action α} {f : α → Action β} (ha : ChangesFrom D s a)
    (hf : ∀ x r r', r.store = s → runOn a r = (.ok x, r') → ChangesFrom D r'.store (f x)) :
    ChangesFrom D s (a >>= f) := by
  intro r hr
  have hfirst := ha r hr
  rw [runOn_bind]
  cases h : runOn a r with
  | mk result r' =>
    rw [h] at hfirst
    cases result with
    | error fault => exact hfirst
    | ok x => exact hfirst.trans (hf x r r' hr h r' rfl)

theorem ChangesFrom.bind {a : Action α} {f : α → Action β} (ha : ChangesFrom D s a)
    (hf : ∀ x s', Store.Changes D s s' → ChangesFrom D s' (f x)) : ChangesFrom D s (a >>= f) := by
  refine ha.bind_run fun x r r' hr hrun => hf x r'.store ?_
  have hfirst := ha r hr
  rwa [hrun] at hfirst

/-- Whether a result may come out of an action, from any records. -/
def MayGive (a : Action α) (x : α) : Prop := ∃ r : Records, (runOn a r).1 = .ok x

theorem MayGive.eq_of_pure {x y : α} (h : MayGive (pure x) y) : y = x := by
  obtain ⟨r, hr⟩ := h
  exact (Except.ok.inj hr).symm

/-- The result of one action after another is one of the last, behind one of the first. -/
theorem MayGive.of_bind {a : Action α} {f : α → Action β} {y : β} (h : MayGive (a >>= f) y) :
    ∃ x, MayGive a x ∧ MayGive (f x) y := by
  obtain ⟨r, hr⟩ := h
  rw [runOn_bind] at hr
  cases ha : runOn a r with
  | mk result r' =>
    rw [ha] at hr
    cases result with
    | error fault => cases hr
    | ok x => exact ⟨x, ⟨r, by rw [ha]⟩, r', hr⟩

/-- Behind an action that leaves the store it is the same store. -/
theorem IsQuiet.changesFrom_bind {a : Action α} {f : α → Action β} (ha : IsQuiet a)
    (hf : ∀ x, MayGive a x → ChangesFrom D s (f x)) :
    ChangesFrom D s (a >>= f) := by
  intro r hr
  have hfirst := ha.store r
  rw [runOn_bind]
  cases h : runOn a r with
  | mk result r' =>
    rw [h] at hfirst
    cases result with
    | error fault =>
      dsimp only at hfirst ⊢
      rw [hfirst, hr]
    | ok x => exact hf x ⟨r, by rw [h]⟩ r' (hfirst.trans hr)

/-- Records other than the store may be changed before. -/
theorem changesFrom_modify_bind {f : Records → Records} (h : ∀ r, (f r).store = r.store)
    {g : Unit → Action β} (hg : ChangesFrom D s (g ())) : ChangesFrom D s (modify f >>= g) := by
  intro r hr
  rw [runOn_bind_ok (runOn_modify f r)]
  exact hg (f r) ((h r).trans hr)

theorem changesFrom_ofExcept_bind {result : Except Fault α} {f : α → Action β}
    (hf : ∀ x, result = .ok x → ChangesFrom D s (f x)) :
    ChangesFrom D s (ofExcept result >>= f) := by
  refine (isQuiet_ofExcept result).changesFrom_bind fun x ⟨r, hx⟩ => hf x ?_
  rwa [runOn_ofExcept] at hx

theorem changesFrom_inStore_bind {f : Store → α} {g : α → Action β}
    (hg : ChangesFrom D s (g (f s))) : ChangesFrom D s (inStore f >>= g) := by
  intro r hr
  rw [runOn_bind_ok (runOn_inStore f r), hr]
  exact hg r hr

/-- A fault that is caught leaves what was changed before it. -/
theorem ChangesFrom.guarded {a : Action Unit} (ha : ChangesFrom D s a) (channel : Channel)
    (message : String) : ChangesFrom D s (guarded channel message a) := by
  intro r hr
  have hfirst := ha r hr
  rw [runOn_guarded]
  cases h : runOn a r with
  | mk result r' =>
    rw [h] at hfirst
    cases result <;> exact hfirst

/-- Registering what may be registered is one change; what follows finds it there. -/
theorem changesFrom_register_bind {e : Entity} (he : s.Registers D e) (known : Bool)
    {f : Unit → Action β} (hf : ∀ s', s.attach e = .ok s' → ChangesFrom D s' (f ())) :
    ChangesFrom D s (register e known >>= f) := by
  intro r hr
  have hreg := runOn_register e known r
  rw [hr] at hreg
  cases ha : s.attach e with
  | error fault =>
    rw [ha] at hreg
    rw [runOn_bind_error hreg, hr]
  | ok s' =>
    rw [ha] at hreg
    rw [runOn_bind_ok hreg]
    exact .head (.register he ha) (hf s' ha _ rfl)

theorem changesFrom_register {e : Entity} (he : s.Registers D e) (known : Bool) :
    ChangesFrom D s (register e known) := by
  have h := changesFrom_register_bind he known (f := pure) fun _ _ => (isQuiet_pure ()).changesFrom
  rwa [bind_pure] at h

/-- Editing the method at a path is one change. -/
theorem changesFrom_editMethod (path : String) {f : Entity → Entity}
    (hf : ∀ e, Entity.IsEdited e (f e)) :
    ChangesFrom D s (changeStore fun s => s.editMethod path f) := by
  intro r hr
  rw [runOn_changeStore]
  dsimp only
  rw [hr]
  exact .single (.edit s path hf)

/-- Editing a class or module that is opened again is one change. -/
theorem changesFrom_reopen {d : Declaration} (hd : D d)
    (hkind : d.kind = .classSpace ∨ d.kind = .moduleSpace) {f : Entity → Entity}
    (hf : ∀ e, Entity.IsEdited e (f e)) :
    ChangesFrom D s (changeStore fun s => s.modify d.path f) := by
  intro r hr
  rw [runOn_changeStore]
  dsimp only
  rw [hr]
  exact .single (.reopen s hd hkind hf)

/-- Revising a method is one change; what follows goes on with the edited method. -/
theorem changesFrom_revise_bind {e : Entity} {f : Entity → Entity} (hf : ∀ e, Entity.IsEdited e (f e))
    {g : Entity → Action β} (hg : ChangesFrom D (s.editMethod e.path f) (g (f e))) :
    ChangesFrom D s (revise e f >>= g) := by
  intro r hr
  rw [runOn_bind_ok (runOn_revise e f r), hr]
  exact .head (.edit s e.path hf) (hg _ rfl)

end Action

end RubyDoc
