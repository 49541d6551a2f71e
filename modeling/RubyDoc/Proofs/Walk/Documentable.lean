import RubyDoc.Proofs.Walk.Basic

/-!
# Trees that can be documented

A tree can be documented if no node in it cuts a character, no constant resolves to
the empty path, and its classes and modules at namespace level have names that resolve
to a path that is not empty and does not begin with the separator. Then every statement
in it is sound, and documenting it is a run of its events. Trees with syntax errors are
not left out; a class without a name is.
-/

namespace RubyDoc

open RubyDoc.Action ObjectPath Text

namespace Placed

/-- Whether a statement, if it opens a class or a module, has a name that stands for a
path. -/
def isWellNamed (p : Placed) : Bool :=
  !p.opensNamespace || p.opens?.any fun path => path != "" && !beginsWith "::" path

/-- What all nodes of a statement have, those of the statements inside it have. -/
theorem everywhere_of_mem_nested {f : Node → Bool} {p q : Placed}
    (h : p.node.everywhere f = true) (hq : q ∈ p.nested) : q.node.everywhere f = true := by
  rw [nested] at hq
  split at hq
  · obtain ⟨s, hs, rfl⟩ := List.mem_map.mp hq
    exact Node.everywhere_of_mem_bodySites h hs
  · split at hq
    · obtain ⟨s, hs, rfl⟩ := List.mem_map.mp hq
      exact Node.everywhere_of_mem_bodySites h hs
    · split at hq
      · obtain ⟨s, hs, rfl⟩ := List.mem_map.mp hq
        exact Node.everywhere_of_mem_argumentSites h (List.mem_filter.mp hs).1
      · cases hq

theorem everywhere_of_mem_statements {f : Node → Bool} {p q : Placed}
    (h : p.node.everywhere f = true) (hq : q ∈ p.statements) : q.node.everywhere f = true := by
  induction p using induction_nested with
  | nested p ih =>
    rw [statements_eq, List.mem_cons] at hq
    rcases hq with rfl | hq
    · exact h
    · obtain ⟨x, hx, hmem⟩ := List.mem_flatMap.mp hq
      exact ih x hx (everywhere_of_mem_nested h hx) hmem

end Placed

/-- What all nodes of a tree have, its statements have. -/
theorem Node.everywhere_of_mem_placed {f : Node → Bool} {root : Node}
    (h : root.everywhere f = true) {p : Placed} (hp : p ∈ root.placed) :
    p.node.everywhere f = true := by
  obtain ⟨x, hx, hmem⟩ := List.mem_flatMap.mp hp
  obtain ⟨s, hs, rfl⟩ := List.mem_map.mp hx
  exact Placed.everywhere_of_mem_statements (p := { home := "", site := s })
    (Node.everywhere_of_mem_bodySites h hs) hmem

/-- An assignment declares constants. -/
theorem Declaration.kind_of_mem_ofAssignment {home : String} {n : Node} {d : Declaration}
    (hd : d ∈ ofAssignment home n) : d.kind = .constant := by
  rw [ofAssignment] at hd
  split at hd
  · rw [List.mem_singleton.mp hd]
  · cases hd

namespace Placed

variable {p : Placed}

/-- What a class or module with a name declares is not at the empty path. -/
theorem path_ne_of_mem_namespaces {path : String} (hopens : p.opens? = some path) (hne : path ≠ "")
    {kind : DeclaredKind} {d : Declaration} (hd : d ∈ p.namespaces kind) : d.path ≠ "" := by
  rw [namespaces, hopens] at hd
  rcases List.mem_cons.mp hd with rfl | hd
  · exact hne
  · obtain ⟨x, hx, rfl⟩ := List.mem_map.mp hd
    exact ne_empty_of_mem_lineage hx

/-- A class or module with a name that stands for a path opens that path. -/
theorem exists_of_isWellNamed (h : p.isWellNamed = true) (hopens : p.opensNamespace = true) :
    ∃ path, p.opens? = some path ∧ path ≠ "" ∧ beginsWith "::" path = false := by
  rw [isWellNamed, hopens, Bool.not_true, Bool.false_or, Option.any_eq_true] at h
  obtain ⟨path, hpath, hwell⟩ := h
  rw [Bool.and_eq_true, bne_iff_ne, Bool.not_eq_true'] at hwell
  exact ⟨path, hpath, hwell⟩

/-- A legible statement is sound if it is well named and declares no constant at the
empty path. -/
theorem isSound (hp : p.node.IsLegible) (hnamed : p.isWellNamed = true)
    (hconstants : ∀ d ∈ p.declared, d.kind = .constant → d.path ≠ "") : p.IsSound := by
  refine ⟨hp, exists_of_isWellNamed hnamed, fun d hd => ?_⟩
  have hconstant := hconstants d hd
  rw [declared] at hd
  split at hd
  · next hf =>
    obtain ⟨path, hopens, hne, -⟩ :=
      exists_of_isWellNamed hnamed (Form.kind_of_opensSpace (by rw [hf]; rfl))
    exact path_ne_of_mem_namespaces hopens hne hd
  · next hf =>
    obtain ⟨path, hopens, hne, -⟩ :=
      exists_of_isWellNamed hnamed (Form.kind_of_opensSpace (by rw [hf]; rfl))
    exact path_ne_of_mem_namespaces hopens hne hd
  · obtain ⟨m, -, rfl⟩ := List.mem_map.mp hd
    exact Entity.path_newMethod_ne _ _ _
  · obtain ⟨m, -, rfl⟩ := List.mem_map.mp hd
    exact Entity.path_newMethod_ne _ _ _
  · exact hconstant (Declaration.kind_of_mem_ofAssignment hd)
  · obtain ⟨n, -, hmem⟩ := List.mem_flatMap.mp hd
    exact hconstant (Declaration.kind_of_mem_ofAssignment hmem)
  · obtain ⟨m, -, rfl⟩ := List.mem_map.mp hd
    exact Entity.path_newMethod_ne _ _ _
  · cases hd

end Placed

/-- A tree that can be documented. -/
structure Node.IsDocumentable (root : Node) : Prop where
  /-- No node in it cuts a character. -/
  legible : root.IsLegible
  /-- Its classes and modules have names that stand for paths. -/
  named : ∀ p ∈ root.placed, p.isWellNamed = true
  /-- No constant is declared at the empty path. -/
  constants : ∀ p ∈ root.placed, ∀ d ∈ p.declared, d.kind = .constant → d.path ≠ ""

namespace Node

variable {root : Node}

instance : Decidable root.IsDocumentable :=
  decidable_of_iff
    (root.IsLegible ∧ (∀ p ∈ root.placed, p.isWellNamed = true) ∧
      ∀ p ∈ root.placed, ∀ d ∈ p.declared, d.kind = .constant → d.path ≠ "")
    ⟨fun h => ⟨h.1, h.2.1, h.2.2⟩, fun h => ⟨h.legible, h.named, h.constants⟩⟩

/-- Every statement of a tree that can be documented is sound. -/
theorem IsDocumentable.isSound (h : root.IsDocumentable) {p : Placed} (hp : p ∈ root.placed) :
    p.IsSound :=
  Placed.isSound (everywhere_of_mem_placed h.legible hp) (h.named p hp) (h.constants p hp)

end Node

/-- The statements at the top level of a source. -/
theorem Node.outline_eq (root : Node) :
    root.outline = root.topLevel.map fun p => p.site.statement := by
  rw [outline, topLevel, List.map_map]
  rfl

/-- Documenting a source whose tree can be documented is a run of the events of the
tree. -/
theorem walkSource_followed {source : Source} (h : source.root.IsDocumentable)
    (hc : source.HasLegibleComments) (config : Config) {r : Records} (hk : r.store.IsKeyed)
    (hroot : r.store.shapeAt "" = some .namespace) :
    ∃ r', runOn (walkSource config source) r = (.ok (), r') ∧
      Runs source config source.root.events r r' ∧ r'.store.IsKeyed ∧
        r'.store.shapeAt "" = some .namespace := by
  have hfollowed : ∀ p ∈ source.root.topLevel, p.IsFollowed source config := by
    intro p hp
    refine isFollowed hc fun q hq => h.isSound ?_
    exact List.mem_flatMap.mpr ⟨p, hp, hq⟩
  have hat := isAt_topLevel source config
  rw [walkSource, Node.outline_eq]
  exact walkAll_followed hfollowed hat hk hroot

end RubyDoc
