import RubyDoc.Proofs.Walk.Account
import RubyDoc.Proofs.Walk.Reopening

/-!
# The root of a store

A walk changes the store by what its statements declare and by nothing else. So the root
stays registered at the empty path, the same namespace from the fresh store on, as long as
nothing is declared there. What a class, module or constant is called decides this alone:
the placeholders on the way to a class or module are never at the empty path, and neither
are methods.
-/

namespace RubyDoc

open RubyDoc.Action ObjectPath Text

/-! ### Walks and what they declare -/

section Declared

variable {D : Declaration → Prop} {source : Source} {config : Config}

/-- What may be registered may be registered where more may be declared. -/
theorem Store.Registers.imp {D' : Declaration → Prop} (h : ∀ d, D d → D' d) {s : Store}
    {e : Entity} (he : s.Registers D e) : s.Registers D' e := by
  cases he with
  | method hd hkind he => exact .method (h _ hd) hkind he
  | constant hd hkind he hpath hhome => exact .constant (h _ hd) hkind he hpath hhome
  | placeholder hd hkind hmissing => exact .placeholder (h _ hd) hkind hmissing
  | moduleSpace hd hkind hhome hname he hnew => exact .moduleSpace (h _ hd) hkind hhome hname he hnew
  | classSpace hd hkind hhome hname he hnew => exact .classSpace (h _ hd) hkind hhome hname he hnew

theorem Store.Change.imp {D' : Declaration → Prop} (h : ∀ d, D d → D' d) {s s' : Store}
    (hc : s.Change D s') : s.Change D' s' := by
  cases hc with
  | register he ha => exact .register (he.imp h) ha
  | edit path hf => exact .edit _ path hf
  | reopen hd hkind hf => exact .reopen _ (h _ hd) hkind hf
  | slots handle scope name hslots => exact .slots _ handle scope name hslots

theorem Store.Changes.imp {D' : Declaration → Prop} (h : ∀ d, D d → D' d) {s s' : Store}
    (hc : s.Changes D s') : s.Changes D' s' :=
  Relation.ReflTransGen.mono (fun _ _ hchange => Store.Change.imp h hchange) _ _ hc

/-- A class or module declares the path that it opens. -/
theorem Placed.exists_declared_of_opens? {p : Placed} {path : String}
    (hopens : p.opens? = some path) :
    ∃ d ∈ p.declared, d.path = path ∧ d.kind ≠ .constant ∧ d.kind ≠ .method := by
  rw [declared]
  rcases form_of_opens? hopens with hf | hf <;> rw [hf]
  · exact ⟨_, mem_namespaces hopens .classSpace, rfl, DeclaredKind.noConfusion,
      DeclaredKind.noConfusion⟩
  · exact ⟨_, mem_namespaces hopens .moduleSpace, rfl, DeclaredKind.noConfusion,
      DeclaredKind.noConfusion⟩

/-- The store changes by what the statements that are read declare, as long as no class and
no module that may be declared has a path that begins with the separator. -/
def changesAccount (source : Source) (config : Config)
    (hD : ∀ d, D d → d.kind ≠ .constant → d.kind ≠ .method → beginsWith "::" d.path = false) :
    Account source config where
  Covers p := ∀ d ∈ p.events.flatMap Event.declared, D d
  Fits _ := True
  Holds _ a := ∀ s : Store, s.IsKeyed → ChangesFrom D s a
  covers_nested hp hq d hd := hp d (Placed.mem_flatMap_declared.mpr (.inr (.inl ⟨_, hq, hd⟩)))
  anchored hp hopens := by
    obtain ⟨d, hd, rfl, hconstant, hmethod⟩ := Placed.exists_declared_of_opens? hopens
    exact hD d (hp d (Placed.mem_flatMap_declared.mpr (.inl hd))) hconstant hmethod
  pure x s _ := (isQuiet_pure x).changesFrom
  bind ha hf s hk := (ha s hk).bind_run fun x r r' hr hrun => by
    have hchanges := ha s hk r hr
    rw [hrun] at hchanges
    exact hf x ⟨r, by rw [hrun]⟩ _ (hk.changes hchanges)
  guarded channel message ha s hk := (ha s hk).guarded channel message
  leaf hp hat _ hbody s hk r hr :=
    (changesFrom_leaf hbody hat hk r hr).imp fun d hd =>
      hp d (Placed.mem_flatMap_declared.mpr (.inl hd))
  nameless channel message _ _ _ s _ := (isQuiet_throw _).changesFrom.guarded channel message
  openingClass {p c path} hp _ hf hopens s hk r hr := by
    have hown : p.declared = p.namespaces .classSpace := by rw [Placed.declared, hf]
    have hchanges := changesFrom_openClass c p.node (allowsPlaceholders_namespaces hopens .classSpace)
      hk ⟨_, Placed.mem_namespaces hopens .classSpace, rfl, rfl⟩ r hr
    exact hchanges.imp fun d hd => hp d (Placed.mem_flatMap_declared.mpr (.inl (hown ▸ hd)))
  openingModule {p c path} hp _ hf hopens s hk r hr := by
    have hown : p.declared = p.namespaces .moduleSpace := by rw [Placed.declared, hf]
    have hchanges := changesFrom_openModule c p.node
      (allowsPlaceholders_namespaces hopens .moduleSpace) hk
      ⟨_, Placed.mem_namespaces hopens .moduleSpace, rfl, rfl⟩ r hr
    exact hchanges.imp fun d hd => hp d (Placed.mem_flatMap_declared.mpr (.inl (hown ▸ hd)))
  entering {α ps path f} hf s hk := by
    refine (isQuiet_inStore _).changesFrom_bind fun handle hhandle => ?_
    exact hf handle (path_of_mayGive_handleAt hhandle) trivial s hk
  closing {p c path} hp hf hopens s hk := by
    refine changesFrom_closeClass c p.node path path (hp _ ?_) hk
    refine Placed.mem_flatMap_declared.mpr (.inr (.inr ?_))
    rw [Placed.closings, hf, hopens]
    exact List.mem_singleton_self _
  inside _ _ _ ha := ha
  name visibility _ _ s _ :=
    changesFrom_ofExcept_bind fun name _ => changesFrom_setVisibility _ name visibility

/-- A walk changes the store by what the statements of the source declare. -/
theorem changesFrom_walkSource (config : Config)
    (hD : ∀ d, D d → d.kind ≠ .constant → d.kind ≠ .method → beginsWith "::" d.path = false)
    (h : ∀ d ∈ source.root.events.flatMap Event.declared, D d) {s : Store} (hk : s.IsKeyed) :
    ChangesFrom D s (walkSource config source) := by
  refine Account.holds_walkSource (changesAccount source config hD) (fun q hq d hd => h d ?_)
    trivial s hk
  rw [Node.events, List.flatMap_assoc]
  exact List.mem_flatMap.mpr ⟨q, hq, hd⟩

end Declared

/-! ### The root -/

namespace Members

/-- What a namespace lists and what is in its tables leaves its serial number. -/
theorem serial_adopt (m : Members) (path : String) : (m.adopt path).serial = m.serial := by
  unfold adopt
  split <;> rfl

theorem serial_putAttribute (m : Members) (scope : Scope) (name : String) (slots : Slots) :
    (m.putAttribute scope name slots).serial = m.serial := by
  cases scope <;> rfl

end Members

/-- A declaration at a path that is not empty. That of a namespace does not begin with the
separator. -/
structure Declaration.IsNamed (d : Declaration) : Prop where
  /-- It is not at the empty path. -/
  ne_empty : d.path ≠ ""
  /-- A namespace has a path that does not begin with the separator. -/
  anchored : d.kind ≠ .constant → d.kind ≠ .method → beginsWith "::" d.path = false

namespace Store

/-- A store where the root of the fresh store is the one at the empty path still. What it
lists, and what is in its tables, may have changed. -/
structure HasRoot (s : Store) : Prop where
  /-- Entities stand under their paths. -/
  isKeyed : s.IsKeyed
  /-- It was never replaced. -/
  formerRoot : s.formerRoot = none
  /-- It stands at the empty path. -/
  root : ∃ m, s.find? "" = some { Entity.newRoot with kind := .root m } ∧ m.serial = 0

variable {D : Declaration → Prop} {s s' : Store}

/-- There is a namespace at the root. -/
theorem HasRoot.shapeAt (h : s.HasRoot) : s.shapeAt "" = some .namespace := by
  obtain ⟨m, hroot, -⟩ := h.root
  rw [Store.shapeAt, hroot]
  rfl

/-- Entities that are changed in place, but for what the root holds, leave the root. -/
theorem HasRoot.of_find? (h : s.HasRoot) (hk : s'.IsKeyed) (hformer : s'.formerRoot = none)
    {f : Members → Members} (hf : ∀ m, (f m).serial = m.serial)
    (hfind : s'.find? "" = s.find? "" ∨ s'.find? "" = (s.find? "").map (Entity.mapMembers f)) :
    s'.HasRoot := by
  obtain ⟨m, hroot, hserial⟩ := h.root
  refine ⟨hk, hformer, ?_⟩
  rcases hfind with hfind | hfind <;> rw [hfind, hroot]
  · exact ⟨m, rfl, hserial⟩
  · exact ⟨f m, rfl, (hf m).trans hserial⟩

/-- Registering at another path than the empty one leaves the root. -/
theorem HasRoot.attach (h : s.HasRoot) {e : Entity} (hne : e.path ≠ "")
    (ha : s.attach e = .ok s') : s'.HasRoot := by
  have hhome := Entity.path_ne_home hne
  refine h.of_find? (h.isKeyed.attach ha) ((formerRoot_attach ha hhome hne).trans h.formerRoot)
    (f := fun m => m.adopt e.path) (fun m => m.serial_adopt e.path) ?_
  rw [find?_attach ha hhome, if_neg hne.symm]
  split
  · exact .inr rfl
  · exact .inl rfl

/-- A change that declares nothing at the empty path leaves the root. -/
theorem HasRoot.change (h : s.HasRoot)
    (hD : ∀ d, D d → d.IsNamed)
    (hc : Change D s s') : s'.HasRoot := by
  have hk := h.isKeyed.change hc
  cases hc with
  | register he ha =>
    obtain ⟨d, hd, hmakes⟩ := he.exists_makes fun d hd => (hD d hd).anchored
    exact h.attach (hmakes.path ▸ (hD d hd).ne_empty) ha
  | edit path hf =>
    refine h.of_find? hk h.formerRoot (f := id) (fun _ => rfl) (.inl ?_)
    obtain ⟨m, hroot, -⟩ := h.root
    rw [find?_editMethod, hroot]
    split <;> rfl
  | reopen hd hkind hf =>
    refine h.of_find? hk h.formerRoot (f := id) (fun _ => rfl) (.inl ?_)
    rw [find?_modify, if_neg (hD _ hd).ne_empty.symm]
  | @slots handle scope name slots hslots =>
    refine h.of_find? hk ?_ (fun m => m.serial_putAttribute scope name slots) ?_
    · rw [editMembers]
      split
      · exact h.formerRoot
      · rw [h.formerRoot]
        exact h.formerRoot
    · rw [find?_editMembers_eq]
      cases hroot : s.find? "" with
      | none => exact .inl rfl
      | some e =>
        rw [Option.map_some]
        split
        · exact .inr rfl
        · exact .inl rfl

/-- A row of changes that declare nothing at the empty path leaves the root. -/
theorem HasRoot.changes (h : s.HasRoot)
    (hD : ∀ d, D d → d.IsNamed)
    (hc : Changes D s s') : s'.HasRoot := by
  induction hc with
  | refl => exact h
  | tail _ hlast ih => exact ih.change hD hlast

end Store

/-! ### Classes, modules and constants -/

/-- A class, a module or a constant that is declared has a path that is not empty and does
not begin with the separator. -/
def Declaration.IsWellNamed (d : Declaration) : Prop :=
  d.kind ∈ [DeclaredKind.classSpace, .moduleSpace, .constant] →
    d.path ≠ "" ∧ beginsWith "::" d.path = false

instance (d : Declaration) : Decidable d.IsWellNamed :=
  inferInstanceAs (Decidable (_ → _))

namespace Placed

variable {p : Placed} {d : Declaration}

/-- The placeholders on the way to a class or module are named if it is. -/
theorem isNamed_of_mem_namespaces {kind : DeclaredKind}
    (hkind : kind ∈ [DeclaredKind.classSpace, .moduleSpace, .constant])
    (h : ∀ d ∈ p.namespaces kind, d.IsWellNamed) (hd : d ∈ p.namespaces kind) : d.IsNamed := by
  cases hopens : p.opens? with
  | none =>
    rw [namespaces, hopens] at hd
    cases hd
  | some path =>
    obtain ⟨hne, hp⟩ := h _ (mem_namespaces hopens kind) hkind
    rw [namespaces, hopens] at hd
    rcases List.mem_cons.mp hd with rfl | hd
    · exact ⟨hne, fun _ _ => hp⟩
    · obtain ⟨x, hx, rfl⟩ := List.mem_map.mp hd
      exact ⟨ne_empty_of_mem_lineage hx,
        fun _ _ => beginsWith_of_mem_lineage (beginsWith_split hp) hx⟩

/-- All that a statement declares is named if its classes, modules and constants are. -/
theorem isNamed_of_mem_declared (h : ∀ d ∈ p.declared, d.IsWellNamed) (hd : d ∈ p.declared) :
    d.IsNamed := by
  have hmethod : ∀ home name scope, (Declaration.ofMethod home name scope).IsNamed :=
    fun home name scope => ⟨Entity.path_newMethod_ne home name scope, fun _ hne => absurd rfl hne⟩
  have hconstant : d.IsWellNamed → d.kind = .constant → d.IsNamed := fun hwell hkind =>
    ⟨(hwell (by simp [hkind])).1, fun hne _ => absurd hkind hne⟩
  have hself := h d hd
  rw [declared] at hd
  split at hd
  · next hf =>
    have hown : p.declared = p.namespaces .classSpace := by rw [declared, hf]
    exact isNamed_of_mem_namespaces (by simp) (hown ▸ h) hd
  · next hf =>
    have hown : p.declared = p.namespaces .moduleSpace := by rw [declared, hf]
    exact isNamed_of_mem_namespaces (by simp) (hown ▸ h) hd
  · obtain ⟨m, -, rfl⟩ := List.mem_map.mp hd
    exact hmethod _ _ _
  · obtain ⟨m, -, rfl⟩ := List.mem_map.mp hd
    exact hmethod _ _ _
  · exact hconstant hself (Declaration.kind_of_mem_ofAssignment hd)
  · obtain ⟨n, -, hmem⟩ := List.mem_flatMap.mp hd
    exact hconstant hself (Declaration.kind_of_mem_ofAssignment hmem)
  · obtain ⟨m, -, rfl⟩ := List.mem_map.mp hd
    exact hmethod _ _ _
  · cases hd

end Placed

/-- All that an event declares is named if its classes, modules and constants are. -/
theorem Event.isNamed_of_mem_declared {e : Event} (h : ∀ d ∈ e.declared, d.IsWellNamed)
    {d : Declaration} (hd : d ∈ e.declared) : d.IsNamed := by
  cases e with
  | statement p => exact Placed.isNamed_of_mem_declared h hd
  | closing path =>
    rw [List.mem_singleton.mp hd]
    exact ⟨Entity.path_newMethod_ne path constructorName .onInstances, fun _ hne => absurd rfl hne⟩

/-- A walk of a source whose classes, modules and constants are named changes the store by
what is named. -/
theorem changes_walkSource (config : Config) {source : Source}
    (h : ∀ d ∈ source.root.events.flatMap Event.declared, d.IsWellNamed) {r : Records}
    (hk : r.store.IsKeyed) :
    r.store.Changes Declaration.IsNamed (runOn (walkSource config source) r).2.store := by
  refine changesFrom_walkSource config (fun d hd => hd.anchored) (fun d hd => ?_) hk r rfl
  obtain ⟨e, he, hmem⟩ := List.mem_flatMap.mp hd
  exact Event.isNamed_of_mem_declared (fun x hx => h x (List.mem_flatMap.mpr ⟨e, he, hx⟩)) hmem

end RubyDoc
