import RubyDoc.Proofs.Node.Legible
import RubyDoc.Walk.Fields

/-!
# Statements at namespace level

Which statements of a tree stand at namespace level, and in which namespace, is
said here of the tree alone: the bodies of classes and modules stand in the
namespace that their name resolves to, the body of the class itself and the
arguments of visibility calls that are no names in the namespace around them.
What stands inside a method is not reached. Of a legible tree the outline has the
same forms.
-/

namespace RubyDoc

namespace Node

/-- The name of a call without receiver. -/
def bareName? (n : Node) : Option String :=
  if n.isCall && (n.child? "receiver").isNone then (n.child? "method").map written else none

/-- The name of the field that a declaration declares, if it can be used. -/
def usableName? (n : Node) : Option String := n.fieldName.toOption.join

/-- Whether a node is a declaration of a field with a usable name: whether it is a
`prop`, and the name. -/
def fieldCall? (n : Node) : Option (Bool × String) :=
  match n.bareName? with
  | some "const" => n.usableName?.map fun name => (false, name)
  | some "prop" => n.usableName?.map fun name => (true, name)
  | _ => none

end Node

/-- A statement and where it stands: the path of its namespace, and the scope of
methods there. -/
structure Placed where
  /-- The path of the namespace. -/
  home : String
  /-- The scope of methods that are defined there. -/
  scope : Scope := .onInstances
  /-- The statement. -/
  site : Site

namespace Placed

/-- The node of a statement. -/
def node (p : Placed) : Node := p.site.node

theorem node_site (p : Placed) : p.site.node = p.node := rfl

/-- Whether a statement opens a class or a module. -/
def opensNamespace (p : Placed) : Bool := p.node.kind == "class" || p.node.kind == "module"

/-- The path of the class or module that a statement opens. -/
def opens? (p : Placed) : Option String :=
  if p.opensNamespace then
    (p.node.child? "name").map fun name => ObjectPath.qualify p.home name.written
  else none

/-- Whether a statement opens the class itself. -/
def opensSelf (p : Placed) : Bool :=
  p.node.kind == "singleton_class" && (p.node.child? "value").any fun v => v.written == "self"

/-- Whether a statement is a visibility call. -/
def isVisibilityCall (p : Placed) : Bool :=
  (p.node.bareName?.bind Visibility.ofName?).isSome

/-- The statements right inside a statement that are at namespace level too. -/
def nested (p : Placed) : List Placed :=
  match p.opens? with
  | some path => p.node.bodySites.map fun s => { home := path, site := s }
  | none =>
    if p.opensSelf then p.node.bodySites.map fun s => { p with scope := .onClass, site := s }
    else if p.isVisibilityCall then
      (p.node.argumentSites.filter fun s => !Node.nameKinds.contains s.node.kind).map fun s =>
        { p with site := s }
    else []

theorem exists_of_opens? {p : Placed} {path : String} (h : p.opens? = some path) :
    ∃ name, p.node.child? "name" = some name ∧ ObjectPath.qualify p.home name.written = path := by
  rw [opens?] at h
  split at h
  · exact Option.map_eq_some_iff.mp h
  · cases h

/-- A statement inside another is lighter. -/
theorem weight_lt_of_mem_nested {p q : Placed} (h : q ∈ p.nested) :
    q.node.weight < p.node.weight := by
  have hbody : ∀ s ∈ p.node.bodySites, s.node.weight < p.node.weight := fun s hs =>
    Site.weight_lt_of_mem (s := p.site) hs (Node.totalWeight_bodySites p.node)
  rw [nested] at h
  split at h
  · obtain ⟨s, hs, rfl⟩ := List.mem_map.mp h
    exact hbody s hs
  · split at h
    · obtain ⟨s, hs, rfl⟩ := List.mem_map.mp h
      exact hbody s hs
    · split at h
      · obtain ⟨s, hs, rfl⟩ := List.mem_map.mp h
        exact Site.weight_lt_of_mem (s := p.site) (List.mem_filter.mp hs).1
          (Node.totalWeight_argumentSites p.node)
      · cases h

/-- What a statement has if the statements right inside it have it, all statements have. -/
@[elab_as_elim]
theorem induction_nested {motive : Placed → Prop}
    (nested : ∀ p : Placed, (∀ q ∈ p.nested, motive q) → motive p) (p : Placed) : motive p := by
  induction hw : p.node.weight using Nat.strongRecOn generalizing p with
  | ind w ih => exact nested p fun q hq => ih _ (hw ▸ weight_lt_of_mem_nested hq) q rfl

/-- A statement and the statements inside it, in the order in which they are read. -/
def statements (p : Placed) : List Placed :=
  p :: p.nested.attach.flatMap fun q => q.1.statements
termination_by p.node.weight
decreasing_by exact weight_lt_of_mem_nested q.2

theorem statements_eq (p : Placed) : p.statements = p :: p.nested.flatMap statements := by
  rw [statements]
  congr 1
  rw [List.flatMap_def, List.flatMap_def, List.attach_map_val]

end Placed

/-- The statements of a source at the top level. -/
def Node.topLevel (root : Node) : List Placed :=
  root.bodySites.map fun s => { home := "", site := s }

/-- All statements of a source at namespace level, in the order in which they are read. -/
def Node.placed (root : Node) : List Placed := root.topLevel.flatMap Placed.statements

/-- Only a call has the name of one. -/
theorem Node.bareName?_of_kind {n : Node} (h : n.kind ≠ "call") : n.bareName? = none := by
  rw [bareName?, isCall, beq_eq_false_iff_ne.mpr h, Bool.false_and, if_neg Bool.false_ne_true]

/-- The name of a call without receiver that is read. -/
theorem Node.bareName?_eq {n : Node} (h : (n.isCall && (n.child? "receiver").isNone) = true)
    {name? : Option String} (hname : n.callName = .ok name?) : n.bareName? = name? := by
  rw [bareName?, if_pos h]
  rw [Bool.and_eq_true] at h
  rw [callName, if_pos h.1] at hname
  cases hm : n.child? "method" with
  | none =>
    rw [hm] at hname
    exact Except.ok.inj hname
  | some method =>
    rw [hm] at hname
    dsimp only at hname
    cases hl : method.legible with
    | error fault =>
      rw [hl] at hname
      cases hname
    | ok text =>
      rw [hl] at hname
      rw [Option.map_some, written_of_legible hl]
      exact Except.ok.inj hname

namespace Form

/-- What makes a node have its form. -/
inductive IsOf (n : Node) : Form → Prop
  /-- An identifier may be a visibility keyword. -/
  | identifier (hk : n.kind = "identifier") :
    IsOf n ((Visibility.ofName? n.written).elim plain keyword)
  /-- A class. -/
  | classBody (hk : n.kind = "class") : IsOf n classBody
  /-- A module. -/
  | moduleBody (hk : n.kind = "module") : IsOf n moduleBody
  /-- The body of an object, which may be the class itself. -/
  | singleton (hk : n.kind = "singleton_class") :
    IsOf n (if (n.child? "value").any fun v => v.written == "self" then singletonBody else plain)
  /-- A definition, an assignment, or nothing that is documented. -/
  | other {f : Form} (hk : n.kind ≠ "class" ∧ n.kind ≠ "module" ∧ n.kind ≠ "singleton_class")
    (hb : n.bareName? = none) (hf : f = method ∨ f = constant ∨ f = plain) : IsOf n f
  /-- A call without receiver. -/
  | call {name : String} (hk : n.kind = "call") (hb : n.bareName? = some name) :
    IsOf n (ofCall n name)

/-- A node whose form can be told has it for one of these reasons. -/
theorem isOf_ofNode {n : Node} (h : ofNode n ≠ illegible) : IsOf n (ofNode n) := by
  revert h
  rw [ofNode]
  split
  · next hk =>
    intro h
    cases hl : n.legible with
    | error fault =>
      rw [hl] at h
      exact absurd rfl h
    | ok text =>
      rw [← Node.written_of_legible hl]
      exact .identifier (beq_iff_eq.mp hk)
  split
  · next hk => exact fun _ => .classBody (beq_iff_eq.mp hk)
  split
  · next hk => exact fun _ => .moduleBody (beq_iff_eq.mp hk)
  split
  · next hk =>
    intro h
    have hform := IsOf.singleton (beq_iff_eq.mp hk)
    cases hv : n.child? "value" with
    | none =>
      rw [hv] at hform
      exact hform
    | some value =>
      rw [hv, Option.any_some] at hform
      cases hl : value.legible with
      | error fault =>
        rw [hv] at h
        dsimp only at h
        rw [hl] at h
        exact absurd rfl h
      | ok text =>
        rw [Node.written_of_legible hl] at hform
        dsimp only
        rw [hl]
        exact hform
  next hclass hmodule hsingleton =>
  rw [beq_iff_eq] at hclass hmodule hsingleton
  have hother := fun hb f hf => IsOf.other (f := f) ⟨hclass, hmodule, hsingleton⟩ hb hf
  split
  · next hk =>
    refine fun _ => hother (Node.bareName?_of_kind fun hcall => ?_) _ (.inl rfl)
    rw [hcall] at hk
    cases hk
  split
  · next hk =>
    refine fun _ => hother (Node.bareName?_of_kind fun hcall => ?_) _ (.inr (.inl rfl))
    rw [Node.constantAssignment, hcall] at hk
    cases hk
  split
  · next hbare =>
    intro h
    cases hn : n.callName with
    | error fault =>
      rw [hn] at h
      exact absurd rfl h
    | ok name? =>
      have hb := Node.bareName?_eq hbare hn
      cases name? with
      | none => exact hother hb _ (.inr (.inr rfl))
      | some name => exact .call (beq_iff_eq.mp (Bool.and_eq_true _ _ ▸ hbare).1) hb
  · next hbare => exact fun _ => hother (if_neg hbare) _ (.inr (.inr rfl))

/-- Whether a statement is a field declaration. -/
def isField : Form → Bool
  | field _ => true
  | _ => false

/-- Whether a statement is a signature. -/
def isSignature : Form → Bool
  | signature _ => true
  | _ => false

/-- Whether a statement has statements inside it. -/
def hasBody : Form → Bool
  | classBody | moduleBody | singletonBody | restriction _ => true
  | _ => false

/-- Whether a statement opens a class or a module. -/
def opensSpace : Form → Bool
  | classBody | moduleBody => true
  | _ => false

section Call

variable (n : Node) {name : String}

/-- A call by another name than a visibility has no statements inside it. -/
theorem hasBody_ofCall (h : Visibility.ofName? name = none) : (ofCall n name).hasBody = false := by
  rw [ofCall, h]
  split
  · next hv => cases hv
  · rfl
  · split
    · cases n.childSite? "block" <;> rfl
    · split
      · cases n.childSite? "block" <;> rfl
      · split <;> rfl

/-- A call by another name than the two is no field declaration. -/
theorem isField_ofCall (hc : name ≠ "const") (hp : name ≠ "prop") :
    (ofCall n name).isField = false := by
  rw [ofCall, beq_eq_false_iff_ne.mpr hc, beq_eq_false_iff_ne.mpr hp]
  split
  · split <;> rfl
  · rfl
  · split
    · cases n.childSite? "block" <;> rfl
    · split
      · cases n.childSite? "block" <;> rfl
      · rfl

/-- A call is told, and opens no class or module. -/
theorem ofCall_ne (name : String) :
    ofCall n name ≠ illegible ∧ (ofCall n name).opensSpace = false := by
  rw [ofCall]
  split
  · split <;> exact ⟨Form.noConfusion, rfl⟩
  · exact ⟨Form.noConfusion, rfl⟩
  · split
    · cases n.childSite? "block" <;> exact ⟨Form.noConfusion, rfl⟩
    · split
      · cases n.childSite? "block" <;> exact ⟨Form.noConfusion, rfl⟩
      · split <;> exact ⟨Form.noConfusion, rfl⟩

end Call

/-- Every legible statement can be told. -/
theorem ofNode_ne_illegible {n : Node} (h : n.IsLegible) : ofNode n ≠ illegible := by
  rw [ofNode, h.legible_eq, h.callName_eq]
  dsimp only
  split
  · cases Visibility.ofName? n.written <;> exact Form.noConfusion
  split
  · exact Form.noConfusion
  split
  · exact Form.noConfusion
  split
  · cases hv : n.child? "value" with
    | none => exact Form.noConfusion
    | some value =>
      dsimp only
      rw [(h.of_child? hv).legible_eq]
      dsimp only
      split <;> exact Form.noConfusion
  split
  · exact Form.noConfusion
  split
  · exact Form.noConfusion
  split
  · split
    · exact (ofCall_ne n _).1
    · exact Form.noConfusion
    · next hname => cases hname
  · exact Form.noConfusion

/-- A body of a class or module stands in a node of that kind. -/
theorem kind_of_opensSpace {n : Node} (hf : (ofNode n).opensSpace = true) :
    (n.kind == "class" || n.kind == "module") = true := by
  have hform := isOf_ofNode (n := n) fun he => by
    rw [he] at hf
    cases hf
  generalize ofNode n = f at hform hf
  cases hform with
  | identifier => cases hv : Visibility.ofName? n.written <;> rw [hv] at hf <;> cases hf
  | classBody hk => rw [hk, beq_self_eq_true, Bool.true_or]
  | moduleBody hk => rw [hk, beq_self_eq_true, Bool.or_true]
  | singleton => split at hf <;> cases hf
  | other _ _ hother => rcases hother with rfl | rfl | rfl <;> cases hf
  | call =>
    rw [(ofCall_ne n _).2] at hf
    cases hf

end Form

namespace Placed

/-- What is inside a statement of a form. -/
def inside (p : Placed) : Form → List Placed
  | .classBody | .moduleBody =>
    match p.node.child? "name" with
    | some name => p.node.bodySites.map fun s =>
        { home := ObjectPath.qualify p.home name.written, site := s }
    | none => []
  | .singletonBody => p.node.bodySites.map fun s => { p with scope := .onClass, site := s }
  | .restriction _ =>
    (p.node.argumentSites.filter fun s => !Node.nameKinds.contains s.node.kind).map fun s =>
      { p with site := s }
  | _ => []

theorem inside_of_hasBody (p : Placed) {f : Form} (h : f.hasBody = false) : p.inside f = [] := by
  cases f <;> first | rfl | cases h

/-- Inside a call stand the arguments of a visibility call. -/
theorem inside_ofCall (p : Placed) (name : String) :
    p.inside (Form.ofCall p.node name) =
      if (Visibility.ofName? name).isSome then
        (p.node.argumentSites.filter fun s => !Node.nameKinds.contains s.node.kind).map fun s =>
          { p with site := s }
      else [] := by
  cases hv : Visibility.ofName? name with
  | none => exact p.inside_of_hasBody (Form.hasBody_ofCall p.node hv)
  | some visibility =>
    rw [Option.isSome_some, if_pos rfl, Form.ofCall, hv]
    dsimp only
    cases ha : p.node.arguments.isEmpty with
    | false => rfl
    | true =>
      have hnone : p.node.argumentSites = [] := by
        rwa [Node.arguments, List.isEmpty_iff, List.map_eq_nil_iff] at ha
      rw [hnone]
      rfl

/-- A statement of another kind than a body has its arguments inside it, if it is a
visibility call. -/
theorem nested_of_kind {p : Placed}
    (h : p.node.kind ≠ "class" ∧ p.node.kind ≠ "module" ∧ p.node.kind ≠ "singleton_class") :
    p.nested =
      if p.isVisibilityCall then
        (p.node.argumentSites.filter fun s => !Node.nameKinds.contains s.node.kind).map fun s =>
          { p with site := s }
      else [] := by
  obtain ⟨hclass, hmodule, hsingleton⟩ := h
  rw [nested, opens?, opensNamespace, opensSelf, beq_eq_false_iff_ne.mpr hclass,
    beq_eq_false_iff_ne.mpr hmodule, beq_eq_false_iff_ne.mpr hsingleton]
  rfl

/-- What is inside a statement whose form can be told, by its form. -/
theorem nested_eq (p : Placed) (h : Form.ofNode p.node ≠ .illegible) :
    p.nested = p.inside (Form.ofNode p.node) := by
  have hform := Form.isOf_ofNode h
  generalize Form.ofNode p.node = f at hform
  cases hform with
  | identifier hk =>
    rw [nested_of_kind (by rw [hk]; decide), isVisibilityCall,
      Node.bareName?_of_kind (by rw [hk]; decide)]
    cases Visibility.ofName? p.node.written <;> rfl
  | classBody hk =>
    rw [nested, opens?, opensNamespace, opensSelf, isVisibilityCall,
      Node.bareName?_of_kind (by rw [hk]; decide), hk, inside]
    cases p.node.child? "name" <;> rfl
  | moduleBody hk =>
    rw [nested, opens?, opensNamespace, opensSelf, isVisibilityCall,
      Node.bareName?_of_kind (by rw [hk]; decide), hk, inside]
    cases p.node.child? "name" <;> rfl
  | singleton hk =>
    rw [nested, opens?, opensNamespace, opensSelf, isVisibilityCall,
      Node.bareName?_of_kind (by rw [hk]; decide), hk]
    cases (p.node.child? "value").any fun v => v.written == "self" <;> rfl
  | other hk hb hf =>
    rw [nested_of_kind hk, isVisibilityCall, hb]
    rcases hf with rfl | rfl | rfl <;> rfl
  | call hk hb =>
    rw [nested_of_kind (by rw [hk]; decide), isVisibilityCall, hb, inside_ofCall]
    rfl

end Placed

namespace Node

/-- The field that a node of a form declares. -/
def fieldOf (n : Node) : Form → Option (Bool × String)
  | .field isProp => n.usableName?.map fun name => (isProp, name)
  | _ => none

theorem fieldOf_of_isField (n : Node) {f : Form} (h : f.isField = false) : n.fieldOf f = none := by
  cases f <;> first | rfl | cases h

/-- A call by one of the two names declares a field if it has a usable name. -/
theorem fieldOf_ofCall (n : Node) {name : String} (hname : name = "const" ∨ name = "prop") :
    n.fieldOf (.ofCall n name) = n.usableName?.map fun field => (name == "prop", field) := by
  have hvisibility : Visibility.ofName? name = none := by
    rcases hname with rfl | rfl <;> rfl
  have haccessors : accessorsOf? name = none := by
    rcases hname with rfl | rfl <;> rfl
  cases he : n.positionalArguments.isEmpty with
  | true =>
    have hnone : n.usableName? = none := by
      rw [List.isEmpty_iff] at he
      rw [usableName?, fieldName, he]
      rfl
    rw [hnone, Form.ofCall, hvisibility, haccessors, he]
    rcases hname with rfl | rfl <;> rfl
  | false =>
    rw [Form.ofCall, hvisibility, haccessors, he]
    rcases hname with rfl | rfl <;> rfl

/-- The field that a legible node declares, by its form. -/
theorem fieldCall?_eq {n : Node} (h : n.IsLegible) : n.fieldCall? = n.fieldOf (Form.ofNode n) := by
  have hform := Form.isOf_ofNode (Form.ofNode_ne_illegible h)
  rw [fieldCall?]
  generalize Form.ofNode n = f at hform
  cases hform with
  | identifier hk =>
    rw [bareName?_of_kind (by rw [hk]; decide)]
    cases Visibility.ofName? n.written <;> rfl
  | classBody hk =>
    rw [bareName?_of_kind (by rw [hk]; decide)]
    rfl
  | moduleBody hk =>
    rw [bareName?_of_kind (by rw [hk]; decide)]
    rfl
  | singleton hk =>
    rw [bareName?_of_kind (by rw [hk]; decide)]
    cases (n.child? "value").any fun v => v.written == "self" <;> rfl
  | other _ hb hf =>
    rw [hb]
    rcases hf with rfl | rfl | rfl <;> rfl
  | call _ hb =>
    rw [hb]
    split
    · next hc => rw [Option.some.inj hc, fieldOf_ofCall n (.inl rfl)]; rfl
    · next hp => rw [Option.some.inj hp, fieldOf_ofCall n (.inr rfl)]; rfl
    · next hc hp =>
      refine (fieldOf_of_isField n (Form.isField_ofCall n ?_ ?_)).symm
      · exact fun he => hc (congrArg some he)
      · exact fun he => hp (congrArg some he)

end Node

end RubyDoc
