import RubyDoc.Proofs.Walk.Room

/-!
# Placeholders on the way to a namespace

Making sure of a namespace goes outwards from its path until it finds a namespace. The
paths that it passes are missing, and a placeholder is put at every one of them, whatever
stands there: a constant or a method is replaced. All other paths keep what they have, a
path outside the innermost namespace too, even if that path is no namespace.
-/

namespace RubyDoc

open RubyDoc.Action ObjectPath Text

/-- An entity under another serial number, if it is a namespace. -/
def Entity.withSerial (e : Entity) (serial : Nat) : Entity := e.mapMembers fun m => { m with serial }

/-- A namespace has a serial number already. -/
theorem Entity.withSerial_self {e : Entity} {m : Members} (h : e.members? = some m) :
    e.withSerial m.serial = e := by
  obtain ⟨name, home, docstring, source, file, line, kind⟩ := e
  cases kind <;> cases h <;> rfl

namespace Store

variable {s s' : Store} {path x : String}

/-! ### What is missing -/

/-- The paths on the way to a path, that path included, that lie further in than any
namespace on the way. -/
def missing (s : Store) (path : String) : List String :=
  (lineage path).takeWhile fun x => s.shapeAt x ≠ some .namespace

/-- Nothing is missing on the way to a namespace. -/
theorem missing_of_namespace (h : s.shapeAt path = some .namespace) : s.missing path = [] := by
  rw [missing]
  by_cases hne : path = ""
  · rw [hne, lineage_empty, List.takeWhile_nil]
  · rw [lineage_of_ne hne, List.takeWhile_cons_of_neg (by simp [h])]

/-- A path without a namespace is missing, and what is missing on the way to it. -/
theorem missing_of_ne (hne : path ≠ "") (h : s.shapeAt path ≠ some .namespace) :
    s.missing path = path :: s.missing (split path).1 := by
  rw [missing, lineage_of_ne hne, List.takeWhile_cons_of_pos (by simp [h]), missing]

/-- A path is missing if it is on the way and neither it nor any path further in has a
namespace. -/
theorem mem_missing_iff :
    x ∈ s.missing path ↔ x ∈ lineage path ∧
      ∀ y ∈ lineage path, x ∈ lineage y → s.shapeAt y ≠ some .namespace := by
  induction hn : path.length using Nat.strongRecOn generalizing path with
  | ind n ih =>
    by_cases hne : path = ""
    · simp [missing, hne, lineage_empty]
    have hshorter := length_split_fst path hne
    have hhome := ih _ (hn ▸ hshorter) rfl
    by_cases hspace : s.shapeAt path = some .namespace
    · rw [missing_of_namespace hspace]
      refine ⟨fun hx => absurd hx List.not_mem_nil, fun ⟨hx, hall⟩ => absurd hspace ?_⟩
      exact hall path (lineage_of_ne hne ▸ List.mem_cons_self) hx
    rw [missing_of_ne hne hspace, List.mem_cons, hhome, lineage_of_ne hne, List.mem_cons]
    constructor
    · rintro (rfl | ⟨hx, hall⟩)
      · -- Nothing that is further out has the path on its way.
        refine ⟨.inl rfl, List.forall_mem_cons.mpr ⟨fun _ => hspace, fun y hy hway => ?_⟩⟩
        have hyshort := length_of_mem_lineage hy
        have hxshort := length_of_mem_lineage hway
        omega
      · exact ⟨.inr hx, List.forall_mem_cons.mpr ⟨fun _ => hspace, hall⟩⟩
    · rintro ⟨rfl | hx, hall⟩
      · exact .inl rfl
      · exact .inr ⟨hx, (List.forall_mem_cons.mp hall).2⟩

/-- No namespace stands at a path that is missing. -/
theorem shapeAt_of_mem_missing (h : x ∈ s.missing path) : s.shapeAt x ≠ some .namespace := by
  obtain ⟨hx, hall⟩ := mem_missing_iff.mp h
  refine hall x hx ?_
  rw [lineage_of_ne (ne_empty_of_mem_lineage hx)]
  exact List.mem_cons_self

/-! ### Registering -/

/-- The shape of what stands at a path does not depend on what it holds. -/
theorem shapeAt_eq_map_bareAt (s : Store) (path : String) :
    s.shapeAt path = (s.bareAt path).map Entity.shape := by
  rw [shapeAt, bareAt, Option.map_map]
  congr 1
  exact funext fun e => e.shape_bare.symm

/-- Registering leaves what stands at other paths, the root among them. -/
theorem bareAt_attach_of_ne {e : Entity} (ha : s.attach e = .ok s') {q : String}
    (hq : q ≠ e.path) : s'.bareAt q = s.bareAt q := by
  obtain ⟨home, m, -, -, rfl⟩ := (attach_eq_ok_iff s s' e).mp ha
  rw [bareAt_editMembers, bareAt, find?_placed, if_neg hq, bareAt]

end Store

namespace Action

variable {path : String} {r : Records}

/-- A namespace that is there is found, and nothing is changed. -/
theorem runOn_ensureNamespace_of_namespaceAt {e : Entity} {m : Members}
    (h : r.store.namespaceAt path = .ok (e, m)) : runOn (ensureNamespace path) r = (.ok e, r) := by
  rw [ensureNamespace, runOn_bind_ok (runOn_inStore _ r), h]
  rfl

/-- A namespace as it is made sure of: it stands at its path, under some serial number, and
the placeholders that were missing stand at theirs. All else is what it was. -/
structure Ensured (path : String) (s : Store) (e : Entity) (s' : Store) : Prop where
  /-- It is a namespace. -/
  isNamespace : e.shape = .namespace
  /-- It is what stands at the path. -/
  registered : ∃ serial, s'.find? path = some (e.withSerial serial)
  /-- What was missing is a placeholder now. -/
  bareAt : ∀ p, s'.bareAt p =
    if p ∈ s.missing path then some (.placeholder (split p).1 (split p).2) else s.bareAt p

/-- There is a namespace at the path. -/
theorem Ensured.shapeAt {s s' : Store} {e : Entity} (h : Ensured path s e s') :
    s'.shapeAt path = some .namespace := by
  obtain ⟨serial, hfind⟩ := h.registered
  rw [Store.shapeAt, hfind, Option.map_some, Entity.withSerial, Entity.shape_mapMembers,
    h.isNamespace]

/-- A namespace that is there is made sure of without a change. -/
theorem ensured_of_namespaceAt {s : Store} {e : Entity} {m : Members}
    (h : s.namespaceAt path = .ok (e, m)) : Ensured path s e s := by
  obtain ⟨hfind, hm⟩ := (Store.namespaceAt_eq_ok_iff _ _ _ _).mp h
  refine ⟨e.isNamespace_iff.mp ⟨m, hm⟩, ⟨m.serial, ?_⟩, fun p => ?_⟩
  · rw [hfind, Entity.withSerial_self hm]
  · rw [Store.missing_of_namespace ((Store.namespaceAt_ok_iff _ _).mp ⟨_, h⟩),
      if_neg List.not_mem_nil]

/-- A namespace that is missing is made sure of by its placeholder, once the namespace
around it is made sure of. -/
theorem Ensured.attach {s s₁ s₂ : Store} {home : Entity} (h : Ensured (split path).1 s home s₁)
    (hp : beginsWith "::" path = false) (hne : path ≠ "") (hspace : s.shapeAt path ≠ some .namespace)
    (ha : s₁.attach (.placeholder (split path).1 (split path).2) = .ok s₂) :
    Ensured path s (.placeholder (split path).1 (split path).2) s₂ := by
  have hpath := path_placeholder hp
  have hself : (Entity.placeholder (split path).1 (split path).2).path ≠ "" := by rwa [hpath]
  refine ⟨rfl, ⟨s₁.nextSerial, ?_⟩, fun p => ?_⟩
  · have hfind := Store.find?_attach ha (Entity.path_ne_home hself) path
    rw [hpath, if_pos rfl] at hfind
    exact hfind
  · rw [Store.bareAt_attach ha hself p, hpath, h.bareAt, Store.missing_of_ne hne hspace]
    by_cases hpp : p = path
    · rw [if_pos hpp, hpp, if_pos List.mem_cons_self]
      rfl
    · rw [if_neg hpp]
      simp only [List.mem_cons, hpp, false_or]

/-- Making sure of a namespace puts a placeholder at every path that is missing, unless it
finds no namespace to begin with. Then nothing is changed. -/
theorem ensured_or_unchanged (hp : beginsWith "::" path = false) (r : Records) :
    (∃ e r', runOn (ensureNamespace path) r = (.ok e, r') ∧ Ensured path r.store e r'.store) ∨
      ∃ fault, runOn (ensureNamespace path) r = (.error fault, r) := by
  induction hn : path.length using Nat.strongRecOn generalizing path with
  | ind n ih =>
    cases hfound : r.store.namespaceAt path with
    | ok found =>
      exact .inl ⟨found.1, r, runOn_ensureNamespace_of_namespaceAt hfound,
        ensured_of_namespaceAt hfound⟩
    | error fault =>
      have hspace : r.store.shapeAt path ≠ some .namespace := by
        intro h
        obtain ⟨found, hok⟩ := (Store.namespaceAt_ok_iff _ _).mpr h
        rw [hok] at hfound
        cases hfound
      rw [ensureNamespace, runOn_bind_ok (runOn_inStore _ r), hfound]
      dsimp only
      by_cases hne : path = ""
      · rw [dif_pos hne]
        exact .inr ⟨.endless, rfl⟩
      rw [dif_neg hne]
      rcases ih _ (hn ▸ length_split_fst path hne) (beginsWith_split hp) rfl with
        ⟨home, r₁, hrun, hhome⟩ | ⟨fault, hrun⟩
      · -- The namespace around the path is there, so that the placeholder can be registered.
        obtain ⟨s, ha⟩ := Store.exists_attach
          (e := .placeholder (split path).1 (split path).2) hhome.shapeAt
        have hensured := hhome.attach hp hne hspace ha
        rw [runOn_bind_ok hrun, runOn_bind_ok (runOn_note _ _ _ r₁)]
        have hreg := runOn_register (.placeholder (split path).1 (split path).2) false
          { r₁ with log := r₁.log ++ [{ level := .debug, channel := .store
                                        message := "Creating placeholder module " ++ path }] }
        dsimp only at hreg
        rw [ha] at hreg
        rw [runOn_bind_ok hreg]
        exact .inl ⟨_, _, rfl, hensured⟩
      · exact .inr ⟨fault, runOn_bind_error hrun _⟩

/-! ### Opening -/

section Leaves

variable {α β : Type} {p : String}

/-- An action that leaves what stands at a path, but for what that holds. -/
def Leaves (p : String) (a : Action α) : Prop :=
  ∀ r : Records, (runOn a r).2.store.bareAt p = r.store.bareAt p

theorem IsQuiet.leaves {a : Action α} (h : IsQuiet a) : Leaves p a := by
  intro r
  rw [h.store r]

theorem Leaves.bind {a : Action α} {f : α → Action β} (ha : Leaves p a) (hf : ∀ x, Leaves p (f x)) :
    Leaves p (a >>= f) := by
  intro r
  have hfirst := ha r
  rw [runOn_bind]
  cases h : runOn a r with
  | mk result r' =>
    rw [h] at hfirst
    cases result with
    | error fault => exact hfirst
    | ok x => exact (hf x r').trans hfirst

/-- Registering leaves other paths. -/
theorem leaves_register {e : Entity} (hp : p ≠ e.path) (known : Bool) :
    Leaves p (register e known) := by
  intro r
  rw [runOn_register]
  cases ha : r.store.attach e with
  | error fault => rfl
  | ok s => exact Store.bareAt_attach_of_ne ha hp

/-- Changing what stands at one path leaves the others. -/
theorem leaves_modify (hp : p ≠ path) (f : Entity → Entity) :
    Leaves p (changeStore fun s => s.modify path f) := fun _ => Store.bareAt_modify_of_ne hp f

/-- Behind making sure of a namespace the missing paths have placeholders, and all that is
left by what follows is what it was. -/
theorem bareAt_ensureNamespace_bind {f : Entity → Action β} (hp : beginsWith "::" path = false)
    (hf : ∀ e, Leaves p (f e)) (r : Records) :
    (p ∉ r.store.missing path →
      (runOn (ensureNamespace path >>= f) r).2.store.bareAt p = r.store.bareAt p) ∧
    (p ∈ r.store.missing path → ∀ x r', runOn (ensureNamespace path >>= f) r = (.ok x, r') →
      r'.store.bareAt p = some (.placeholder (split p).1 (split p).2)) := by
  rcases ensured_or_unchanged hp r with ⟨e, r₁, hrun, hensured⟩ | ⟨fault, hrun⟩
  · have hfirst := hensured.bareAt p
    have hrest := hf e r₁
    rw [runOn_bind_ok hrun]
    refine ⟨fun hmissing => ?_, fun hmissing x r' hr' => ?_⟩
    · rw [hrest, hfirst, if_neg hmissing]
    · rw [hr'] at hrest
      rw [hrest, hfirst, if_pos hmissing]
  · rw [runOn_bind_error hrun]
    refine ⟨fun _ => rfl, fun _ x r' hr' => ?_⟩
    cases hr'

end Leaves

end Action

/-- What goes before the body of a class or module: its path is read, and it is registered or
opened again. -/
def Statement.opening? (c : Context) : Statement → Option (Action String)
  | .classBody s _ => some (Action.ofExcept (declaredPath c s.node) >>= openClass c s.node)
  | .moduleBody s _ => some (Action.ofExcept (declaredPath c s.node) >>= openModule c s.node)
  | _ => none

section Opening

variable {c : Context} {n : Node} {q p : String}

/-- Once there is a namespace around it, a class is registered or opened again at its own
path only. -/
theorem openClass_eq_bind_and_leaves (hq : beginsWith "::" q = false) (hp : p ≠ q) :
    ∃ f : Entity → Action String, openClass c n q = ensureNamespace (split q).1 >>= f ∧
      ∀ e, Leaves p (f e) := by
  refine ⟨_, rfl, fun _ => ?_⟩
  refine (isQuiet_ofExcept _).leaves.bind fun superclass => ?_
  refine (isQuiet_docstringOf c n).leaves.bind fun docstring => ?_
  refine (isQuiet_inStore _).leaves.bind fun existing => ?_
  have hnoted : ∀ x, Leaves p (do
      note .debug .namespaces ("Processing class " ++ q)
      return x : Action String) := fun x =>
    ((isQuiet_note _ _ _).bind fun _ => isQuiet_pure x).leaves
  split
  · exact (leaves_modify hp _).bind fun _ => (isQuiet_pure q).leaves.bind hnoted
  · refine Leaves.bind (leaves_register ?_ _) fun _ => (isQuiet_pure _).leaves.bind hnoted
    exact fun he => hp (he.trans (join_split hq))

/-- Once there is a namespace around it, a module is registered or opened again at its own
path only. -/
theorem openModule_eq_bind_and_leaves (hq : beginsWith "::" q = false) (hp : p ≠ q) :
    ∃ f : Entity → Action String, openModule c n q = ensureNamespace (split q).1 >>= f ∧
      ∀ e, Leaves p (f e) := by
  refine ⟨_, rfl, fun _ => ?_⟩
  refine (isQuiet_inStore _).leaves.bind fun existing => ?_
  split
  · split
    · refine (isQuiet_docstringOf c n).leaves.bind fun docstring => ?_
      exact (leaves_modify hp _).bind fun _ => (isQuiet_pure q).leaves
    · exact (isQuiet_pure q).leaves
  · refine (isQuiet_docstringOf c n).leaves.bind fun docstring => ?_
    refine Leaves.bind (leaves_register ?_ _) fun _ => (isQuiet_pure _).leaves
    exact fun he => hp (he.trans (join_split hq))

end Opening

/-- What goes before the body of a class or module makes sure of the namespace around it, and
then leaves all paths but its own. -/
theorem Statement.exists_opening?_eq_bind {c : Context} {statement : Statement}
    {opening : Action String} (hopening : statement.opening? c = some opening) {p q : String}
    (hpath : declaredPath c statement.node = .ok q) (hq : beginsWith "::" q = false) (hp : p ≠ q) :
    ∃ f : Entity → Action String, opening = ensureNamespace (split q).1 >>= f ∧
      ∀ e, Leaves p (f e) := by
  cases statement with
  | classBody s body =>
    have hnode : declaredPath c s.node = .ok q := hpath
    rw [opening?, hnode] at hopening
    rw [← Option.some.inj hopening]
    exact openClass_eq_bind_and_leaves hq hp
  | moduleBody s body =>
    have hnode : declaredPath c s.node = .ok q := hpath
    rw [opening?, hnode] at hopening
    rw [← Option.some.inj hopening]
    exact openModule_eq_bind_and_leaves hq hp
  | _ => cases hopening

end RubyDoc
