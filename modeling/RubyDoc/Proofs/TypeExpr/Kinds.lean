import RubyDoc.TypeExpr.Basic

/-!
# Type expressions by the kinds of nodes

What reading a node comes to, one case for each kind of node that is told apart.
The nodes inside it write expressions of their own. So what holds of every type
expression that is read is an induction over these cases, and reading itself is
not opened again.
-/

namespace RubyDoc.TypeExpr

open RubyDoc.Text

/-- A node writes a type expression, and so do the nodes inside it that it is made of. -/
inductive Writes : Node → TypeExpr → Prop
  /-- A class or constant. -/
  | reference {n : Node} (hk : (n.kind == "constant" || n.kind == "scope_resolution") = true) :
    Writes n (ofReference n)
  /-- A call with a text on the way to its receiver that cannot be read. -/
  | illegibleCall {n : Node} (hk : n.kind = "call") (hr : receiverOf n = .illegible) :
    Writes n illegible
  /-- A call on the procedure method. -/
  | procedure {n : Node} (hk : n.kind = "call") (hr : receiverOf n = .procedure) :
    Writes n procedure
  /-- A call on something else than the type module. -/
  | otherCall {n : Node} (hk : n.kind = "call") (hr : receiverOf n = .other) :
    Writes n (withText n fun text => unsupported (.call text))
  /-- A call on the type module. -/
  | typeCall {n : Node} {name : Option String} (hk : n.kind = "call")
    (hr : receiverOf n = .typeModule name) (hs : ∀ a ∈ n.arguments, Writes a (ofNode a)) :
    Writes n (ofMethod n name (n.arguments.map ofNode) n.arguments.head?)
  /-- Member types without a container. -/
  | missing {n : Node} (hk : n.kind = "element_reference") (ho : n.child? "object" = none) :
    Writes n missing
  /-- A container that cannot be read. -/
  | illegibleObject {n object : Node} {fault : Fault} (hk : n.kind = "element_reference")
    (ho : n.child? "object" = some object) (hl : object.legible = .error fault) :
    Writes n illegible
  /-- A container with its member types. -/
  | container {n object : Node} {text : String} (hk : n.kind = "element_reference")
    (ho : n.child? "object" = some object) (hl : object.legible = .ok text)
    (hs : ∀ m ∈ genericMembers n, Writes m (ofNode m)) :
    Writes n (ofContainer (withoutBlanks text) ((genericMembers n).map ofNode))
  /-- An array with a type for each place. -/
  | tuple {n : Node} (hk : n.kind = "array") (hs : ∀ m ∈ membersOf n, Writes m (ofNode m)) :
    Writes n (tuple ((membersOf n).map ofNode))
  /-- A hash with a type for each key. -/
  | shape {n : Node} (hk : n.kind = "hash")
    (hs : ∀ p ∈ (membersOf n).filter Node.isPair, ∀ c ∈ p.children, Writes c (ofNode c)) :
    Writes n (shape (entriesOf ((membersOf n).filter Node.isPair)))
  /-- Parentheses around one expression. -/
  | group {n inner : Node}
    (hk : (n.kind == "parenthesized_statements" || n.kind == "parenthesized_expression") = true)
    (hi : membersOf n = [inner]) (hs : Writes inner (ofNode inner)) :
    Writes n (group (ofNode inner))
  /-- The literal `nil`. -/
  | nilLiteral {n : Node} (hk : n.kind = "nil") : Writes n nilLiteral
  /-- The literal `true` or `false`. -/
  | boolLiteral {n : Node} {value : Bool} (hk : n.kind = toString value) :
    Writes n (boolLiteral value)
  /-- A kind of node that is no type, or parentheses around anything else. -/
  | other {n : Node} : Writes n (ofOther n)

/-- Every node writes what is read from it. -/
theorem writes_ofNode (n : Node) : Writes n (ofNode n) := by
  induction hw : n.weight using Nat.strongRecOn generalizing n with
  | ind w ih =>
    have hmembers : ∀ m ∈ membersOf n, Writes m (ofNode m) := fun m hm =>
      ih _ (hw ▸ weight_lt_of_mem_membersOf hm) m rfl
    rw [ofNode]
    split
    · next hk => exact .reference hk
    split
    · next hk =>
      rw [beq_iff_eq] at hk
      split
      · next hr => exact .illegibleCall hk hr
      · next hr => exact .procedure hk hr
      · next hr => exact .otherCall hk hr
      · next hr =>
        rw [List.attach_map_val]
        exact .typeCall hk hr fun a ha => ih _ (hw ▸ Node.weight_lt_of_mem_arguments ha) a rfl
    split
    · next hk =>
      rw [beq_iff_eq] at hk
      split
      · next ho => exact .missing hk ho
      · next object ho =>
        split
        · next hl => exact .illegibleObject hk ho hl
        · next hl =>
          rw [List.attach_map_val]
          exact .container hk ho hl fun m hm =>
            ih _ (hw ▸ weight_lt_of_mem_genericMembers hm) m rfl
    split
    · next hk =>
      rw [List.attach_map_val]
      exact .tuple (beq_iff_eq.mp hk) hmembers
    split
    · next hk =>
      refine .shape (beq_iff_eq.mp hk) fun p hp c hc => ih _ ?_ c rfl
      have hpair := weight_lt_of_mem_membersOf (List.mem_filter.mp hp).1
      have hchild := Node.weight_lt_of_mem_children hc
      omega
    split
    · next hk =>
      split
      · next inner hi => exact .group hk hi (hmembers inner (hi ▸ List.mem_singleton_self _))
      · exact .other
    split
    · next hk => exact .nilLiteral (beq_iff_eq.mp hk)
    split
    · next hk => exact .boolLiteral (beq_iff_eq.mp hk)
    split
    · next hk => exact .boolLiteral (beq_iff_eq.mp hk)
    · exact .other

end RubyDoc.TypeExpr
