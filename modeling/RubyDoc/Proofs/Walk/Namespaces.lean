import RubyDoc.Proofs.ObjectPath
import RubyDoc.Proofs.Walk.Context
import RubyDoc.Walk.Namespaces

/-!
# What opening a namespace declares

Opening a class or module declares it, and placeholders on the way to it. As long
as there is a namespace at the root, and the path does not begin with the
separator, opening succeeds and the body is read under the very path that the name
resolves to. A path that begins with the separator is registered without it, and
nothing is claimed for it.
-/

namespace RubyDoc

open RubyDoc.Action ObjectPath Text

variable {declared : List Declaration}

/-- The namespaces on the way to a path are declared, and no method is. -/
def DeclaresLineage (declared : List Declaration) (path : String) : Prop :=
  ∀ x ∈ lineage path, ∃ d ∈ declared, d.path = x ∧ d.kind ≠ .method

/-- The placeholder of a path stands at that path. -/
theorem path_placeholder {path : String} (hp : beginsWith "::" path = false) :
    (Entity.placeholder (split path).1 (split path).2).path = path :=
  join_split hp

/-- Making sure of a namespace declares placeholders on the way to it, each at the path
that it is registered under. -/
theorem declares_ensureNamespace_of_placeholders {path : String}
    (hd : ∀ x ∈ lineage path, ∃ d ∈ declared,
      d.path = (Entity.placeholder (split x).1 (split x).2).path ∧ d.kind ≠ .method) :
    Declares declared (ensureNamespace path) := by
  induction hn : path.length using Nat.strongRecOn generalizing path with
  | ind n ih =>
    rw [ensureNamespace]
    refine (declares_inStore _).bind fun found _ => ?_
    split
    · exact declares_pure _
    · split
      · exact declares_throw _
      · next hne =>
        rw [lineage_of_ne hne, List.forall_mem_cons] at hd
        obtain ⟨⟨d, hmem, hpath, hkind⟩, houter⟩ := hd
        refine (ih _ (hn ▸ length_split_fst path hne) houter rfl).bind fun _ _ => ?_
        refine (declares_note _ _ _).bind fun _ _ => ?_
        refine Declares.bind ?_ fun _ _ => declares_pure _
        exact declares_register hmem hpath (.inr hkind) false

/-- The paths around a path that does not begin with the separator do not either. -/
theorem beginsWith_of_mem_lineage {path x : String} (hp : beginsWith "::" path = false)
    (hx : x ∈ lineage path) : beginsWith "::" x = false := by
  induction hn : path.length using Nat.strongRecOn generalizing path with
  | ind n ih =>
    by_cases hne : path = ""
    · rw [hne, lineage_empty] at hx
      cases hx
    · rw [lineage_of_ne hne] at hx
      rcases List.mem_cons.mp hx with rfl | hx
      · exact hp
      · exact ih _ (hn ▸ length_split_fst path hne) (beginsWith_split hp) hx rfl

/-- Making sure of a namespace declares placeholders on the way to it. -/
theorem declares_ensureNamespace {path : String} (hp : beginsWith "::" path = false)
    (hd : DeclaresLineage declared path) : Declares declared (ensureNamespace path) := by
  refine declares_ensureNamespace_of_placeholders fun x hx => ?_
  rw [path_placeholder (beginsWith_of_mem_lineage hp hx)]
  exact hd x hx

/-- A namespace is made sure of as long as there is one at the root. -/
theorem ensureNamespace_ok {path : String} (hp : beginsWith "::" path = false) {r : Records}
    (hroot : r.store.shapeAt "" = some .namespace) :
    ∃ e r', runOn (ensureNamespace path) r = (.ok e, r') ∧
      r'.store.shapeAt path = some .namespace := by
  induction hn : path.length using Nat.strongRecOn generalizing path with
  | ind n ih =>
    rw [ensureNamespace, runOn_bind_ok (runOn_inStore _ r)]
    cases hfound : r.store.namespaceAt path with
    | ok found => exact ⟨found.1, r, rfl, (Store.namespaceAt_ok_iff _ _).mp ⟨found, hfound⟩⟩
    | error fault =>
      have hne : path ≠ "" := by
        rintro rfl
        obtain ⟨found, hok⟩ := (Store.namespaceAt_ok_iff r.store "").mpr hroot
        rw [hok] at hfound
        cases hfound
      obtain ⟨e, r', hrun, hshape⟩ :=
        ih _ (hn ▸ length_split_fst path hne) (beginsWith_split hp) rfl
      dsimp only
      rw [dif_neg hne, runOn_bind_ok hrun, runOn_bind_ok (runOn_note _ _ _ r')]
      have hplaceholder : (Entity.placeholder (split path).1 (split path).2).home =
          (split path).1 := rfl
      rw [← hplaceholder] at hshape
      obtain ⟨s, ha⟩ := Store.exists_attach hshape
      have hat := Store.shapeAt_attach ha
      rw [path_placeholder hp] at hat
      have hreg := runOn_register (Entity.placeholder (split path).1 (split path).2) false
        { r' with log := r'.log ++ [{ level := .debug, channel := .store
                                      message := "Creating placeholder module " ++ path }] }
      dsimp only at hreg
      rw [ha] at hreg
      rw [runOn_bind_ok hreg]
      exact ⟨_, _, rfl, hat⟩

/-- A class that is opened again stays a namespace at its path. -/
theorem reopenClass_same (superclass : Option String) (docstring : String) (e : Entity) :
    (reopenClass superclass docstring e).path = e.path ∧
      (reopenClass superclass docstring e).shape = e.shape := by
  have hfilled : ∀ e : Entity,
      (if e.docstring == "" then { e with docstring } else e).path = e.path ∧
        (if e.docstring == "" then { e with docstring } else e).shape = e.shape := by
    intro e
    split <;> exact ⟨rfl, rfl⟩
  obtain ⟨hpath, hshape⟩ := hfilled e
  rw [← hpath, ← hshape, reopenClass]
  generalize (if e.docstring == "" then { e with docstring } else e : Entity) = filled
  obtain ⟨name, home, known, source, file, line, kind⟩ := filled
  cases kind with
  | classSpace m s =>
    dsimp only
    split <;> exact ⟨rfl, rfl⟩
  | root m => exact ⟨rfl, rfl⟩
  | moduleSpace m => exact ⟨rfl, rfl⟩
  | constant value => exact ⟨rfl, rfl⟩
  | method facts => exact ⟨rfl, rfl⟩

/-- Registering something where its namespace is succeeds. -/
theorem register_ok {e : Entity} {r : Records} (h : r.store.shapeAt e.home = some .namespace) :
    ∃ r', runOn (register e) r = (.ok (), r') := by
  obtain ⟨s, ha⟩ := Store.exists_attach h
  rw [runOn_register, ha]
  exact ⟨_, rfl⟩

section Open

variable (c : Context) (n : Node) {path : String} (hp : beginsWith "::" path = false)

include hp

/-- Opening a class declares it, and placeholders on the way to it. -/
theorem declares_openClass (hd : ∃ d ∈ declared, d.path = path ∧ d.kind ≠ .method)
    (hl : DeclaresLineage declared (split path).1) :
    Declares declared (openClass c n path) := by
  unfold openClass
  dsimp only
  refine (declares_ensureNamespace (beginsWith_split hp) hl).bind fun _ _ => ?_
  refine (declares_ofExcept _).bind fun superclass _ => ?_
  refine (declares_docstringOf c n).bind fun docstring _ => ?_
  refine (declares_inStore _).bind fun existing _ => ?_
  split
  · have hmodify : Declares declared
        (changeStore fun s => s.modify path (reopenClass superclass docstring)) :=
      declares_changeStore fun s hs =>
        Store.changedBy_modify hs (reopenClass_same superclass docstring)
    refine hmodify.bind fun _ _ => (declares_pure _).bind fun _ _ => ?_
    exact (declares_note _ _ _).bind fun _ _ => declares_pure _
  · obtain ⟨d, hmem, hpath, hkind⟩ := hd
    refine Declares.bind (declares_register hmem ?_ (.inr hkind) false)
      fun _ _ => (declares_pure _).bind fun _ _ => ?_
    · exact hpath.trans (join_split hp).symm
    · exact (declares_note _ _ _).bind fun _ _ => declares_pure _

/-- Opening a module declares it, and placeholders on the way to it. -/
theorem declares_openModule (hd : ∃ d ∈ declared, d.path = path ∧ d.kind ≠ .method)
    (hl : DeclaresLineage declared (split path).1) :
    Declares declared (openModule c n path) := by
  unfold openModule
  dsimp only
  refine (declares_ensureNamespace (beginsWith_split hp) hl).bind fun _ _ => ?_
  refine (declares_inStore _).bind fun existing _ => ?_
  split
  · split
    · refine (declares_docstringOf c n).bind fun docstring _ => ?_
      refine Declares.bind ?_ fun _ _ => declares_pure _
      exact declares_changeStore fun s hs => Store.changedBy_modify hs fun e => ⟨rfl, rfl⟩
    · exact declares_pure _
  · obtain ⟨d, hmem, hpath, hkind⟩ := hd
    refine (declares_docstringOf c n).bind fun docstring _ => ?_
    refine Declares.bind ?_ fun _ _ => declares_pure _
    refine declares_register hmem ?_ (.inr hkind) false
    exact hpath.trans (join_split hp).symm

variable {c n} (hn : n.IsLegible) (hc : c.source.HasLegibleComments) {r : Records}
  (hroot : r.store.shapeAt "" = some .namespace)

omit hp in
/-- The superclass of a legible class is read. -/
theorem superclassOf_ok {n : Node} (hn : n.IsLegible) :
    ∃ superclass, superclassOf n = .ok superclass := by
  rw [superclassOf]
  split
  · exact ⟨_, rfl⟩
  · next superclass hs =>
    split
    · exact ⟨_, rfl⟩
    · next expression he =>
      have hmem := (List.mem_filter.mp (List.mem_of_head? he)).1
      rw [((hn.of_child? hs).of_mem_namedChildren hmem).legible_eq]
      exact ⟨_, rfl⟩

include hn hc hroot

/-- Opening a legible class succeeds, and its body is read under its own path. -/
theorem openClass_ok : ∃ r', runOn (openClass c n path) r = (.ok path, r') := by
  obtain ⟨e, r', hrun, hshape⟩ := ensureNamespace_ok (beginsWith_split hp) hroot
  obtain ⟨superclass, hsuper⟩ := superclassOf_ok hn
  unfold openClass
  dsimp only
  rw [runOn_bind_ok hrun, hsuper, runOn_bind_ok (runOn_ofExcept _ r'),
    runOn_bind_ok (runOn_docstringOf hc n r'), runOn_bind_ok (runOn_inStore _ r')]
  split
  · exact ⟨_, rfl⟩
  · have hhome : r'.store.shapeAt (c.declaredAt n
        { name := (split path).2, home := (split path).1
          docstring := c.source.docText r'.overridden n
          kind := .classSpace (inheritedMembers (r'.store.find? path)) superclass }).home =
        some .namespace := hshape
    obtain ⟨r'', hreg⟩ := register_ok hhome
    rw [runOn_bind_ok hreg]
    have hpath : (c.declaredAt n
        { name := (split path).2, home := (split path).1
          docstring := c.source.docText r'.overridden n
          kind := .classSpace (inheritedMembers (r'.store.find? path)) superclass }).path = path :=
      join_split hp
    rw [hpath]
    exact ⟨_, rfl⟩

omit hn in
/-- Opening a module succeeds, and its body is read under its own path. -/
theorem openModule_ok : ∃ r', runOn (openModule c n path) r = (.ok path, r') := by
  obtain ⟨e, r', hrun, hshape⟩ := ensureNamespace_ok (beginsWith_split hp) hroot
  unfold openModule
  dsimp only
  rw [runOn_bind_ok hrun, runOn_bind_ok (runOn_inStore _ r')]
  split
  · split
    · rw [runOn_bind_ok (runOn_docstringOf hc n r')]
      exact ⟨_, rfl⟩
    · exact ⟨_, rfl⟩
  · rw [runOn_bind_ok (runOn_docstringOf hc n r')]
    have hhome : r'.store.shapeAt (c.declaredAt n
        { Entity.placeholder (split path).1 (split path).2 with
          docstring := c.source.docText r'.overridden n }).home = some .namespace := hshape
    obtain ⟨r'', hreg⟩ := register_ok hhome
    rw [runOn_bind_ok hreg]
    have hpath : (c.declaredAt n
        { Entity.placeholder (split path).1 (split path).2 with
          docstring := c.source.docText r'.overridden n }).path = path := join_split hp
    rw [hpath]
    exact ⟨_, rfl⟩

end Open

/-- The handle of a namespace knows its path. -/
theorem runOn_handleAt (path : String) (r : Records) :
    ∃ h : Handle, h.path = path ∧ runOn (handleAt path) r = (.ok h, r) :=
  ⟨_, rfl, rfl⟩

end RubyDoc
