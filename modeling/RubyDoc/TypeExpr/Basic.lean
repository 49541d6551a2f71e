import RubyDoc.Node.Call
import RubyDoc.Text.Lines

/-!
# Type expressions

What a type in a signature says, read off the shape of its nodes. Reading is
total: what is not understood is kept as an unsupported expression with the
text to complain about, and what cannot be read at all as an illegible one.
The documentation strings of a type expression are made elsewhere.
-/

namespace RubyDoc

open RubyDoc.Text

/-- An expression that no documentation type is known for. -/
inductive Unsupported where
  /-- A node of a kind that is no type. -/
  | expression (text kind : String) (line : Nat)
  /-- A call on something else than the type module. -/
  | call (text : String)
  /-- A method that the type module has no type for. -/
  | method (text : String)
deriving DecidableEq

mutual

/-- A type expression. -/
inductive TypeExpr where
  /-- A class or constant, written without blanks. -/
  | reference (name : String)
  /-- The literal `nil`. -/
  | nilLiteral
  /-- The literal `true` or `false`. -/
  | boolLiteral (value : Bool)
  /-- A procedure type, whatever its parameters. -/
  | procedure
  /-- The type of everything. -/
  | untyped
  /-- The type of what never returns. -/
  | noreturn
  /-- A type or nil. -/
  | nilable (inner : TypeExpr)
  /-- One of several types. -/
  | union (members : List TypeExpr)
  /-- The class object of a class. -/
  | classOf (name : String)
  /-- A type shown as it is written. -/
  | verbatim (text : String)
  /-- A container without members. -/
  | container (name : String)
  /-- A collection of one member type. -/
  | collection (name : String) (member : TypeExpr)
  /-- A hash with its key and value types. -/
  | hash (key value : TypeExpr)
  /-- Any other container with its members. -/
  | generic (name : String) (members : List TypeExpr)
  /-- An array with a type for each place. -/
  | tuple (members : List TypeExpr)
  /-- A hash with a type for each key. -/
  | shape (entries : ShapeEntries)
  /-- Parentheses around one expression. -/
  | group (inner : TypeExpr)
  /-- Member types without a container. -/
  | missing
  /-- What no documentation type is known for. -/
  | unsupported (what : Unsupported)
  /-- What cannot be read because its text cuts a character. -/
  | illegible

/-- The keys of a shape with their types, in order. -/
inductive ShapeEntries where
  | nil
  | cons (key value : TypeExpr) (rest : ShapeEntries)

end

namespace TypeExpr

/-- The receivers that stand for the type module. -/
def moduleNames : List String := ["T", "::T"]

/-- The methods of the type module that are shown as they are written. -/
def verbatimMethods : List String :=
  ["all", "attached_class", "enum", "self_type", "type_parameter"]

/-- The containers with one member type, and what they are called. -/
def collections : List (String × String) :=
  [("T::Array", "Array"), ("T::Class", "Class"), ("T::Enumerable", "Enumerable"),
    ("T::Enumerator", "Enumerator"), ("T::Range", "Range"), ("T::Set", "Set")]

/-- Whether a receiver is the type module. -/
def isModule (receiver : Node) : Except Fault Bool :=
  receiver.legible.map moduleNames.contains

/-- Whether a chain of calls begins with the procedure method of the type
module. -/
def isProcedureChain (n : Node) : Except Fault Bool :=
  if n.isCall then
    match _ : n.child? "receiver" with
    | none => .ok false
    | some receiver =>
      match isModule receiver with
      | .error fault => .error fault
      | .ok false => isProcedureChain receiver
      | .ok true =>
        match n.callName with
        | .error fault => .error fault
        | .ok name => if name == some "proc" then .ok true else isProcedureChain receiver
  else .ok false
termination_by n.weight
decreasing_by
  all_goals exact Node.weight_lt_of_mem_children (Node.mem_of_child? ‹_›)

/-- The named children that are no comments. -/
def membersOf (n : Node) : List Node := n.namedChildren.filter fun c => !c.isComment

/-- The members of a generic type: its named children beside the container. -/
def genericMembers (n : Node) : List Node :=
  (n.sites.filter fun s =>
    s.node.named && !s.node.isComment && !n.isFieldIndex "object" s.index).map Site.node

/-- The text of a node, put into a type expression if it can be read. -/
def withText (n : Node) (make : String → TypeExpr) : TypeExpr :=
  match n.legible with
  | .ok text => make text
  | .error _ => illegible

/-- A reference to a class or constant. -/
def ofReference (n : Node) : TypeExpr := withText n fun text => reference (withoutBlanks text)

/-- The expression for a kind of node that is no type. -/
def ofOther (n : Node) : TypeExpr :=
  withText n fun text => unsupported (.expression text n.kind n.line)

/-- A call on the type module, by its method name; the second argument holds
the arguments as type expressions, the third the first argument itself. -/
def ofMethod (n : Node) (name : Option String) (arguments : List TypeExpr)
    (first : Option Node) : TypeExpr :=
  match name, arguments, first with
  | some "nilable", inner :: _, _ => nilable inner
  | some "any", _ :: _, _ => union arguments
  | some "untyped", _, _ => untyped
  | some "noreturn", _, _ => noreturn
  | some "class_of", _, some argument =>
    withText argument fun text => classOf (withoutBlanks text)
  | some method, _, _ =>
    if verbatimMethods.contains method then withText n fun text => verbatim (squeeze text)
    else withText n fun text => unsupported (.method text)
  | none, _, _ => withText n fun text => unsupported (.method text)

/-- The way in which the receiver of a call decides what it says. -/
inductive Receiver where
  /-- The chain of calls begins with the procedure method. -/
  | procedure
  /-- The receiver is the type module, and the call has this name. -/
  | typeModule (name : Option String)
  /-- There is no receiver, or another one. -/
  | other
  /-- A text on the way cannot be read. -/
  | illegible

/-- Look at the receiver of a call. -/
def receiverOf (n : Node) : Receiver :=
  match isProcedureChain n with
  | .error _ => .illegible
  | .ok true => .procedure
  | .ok false =>
    match n.child? "receiver" with
    | none => .other
    | some receiver =>
      match isModule receiver with
      | .error _ => .illegible
      | .ok false => .other
      | .ok true =>
        match n.callName with
        | .error _ => .illegible
        | .ok name => .typeModule name

/-- A generic type from the text of its container and its members. -/
def ofContainer (container : String) (members : List TypeExpr) : TypeExpr :=
  match members, collections.lookup container with
  | [], _ => .container container
  | first :: _, some name => collection name first
  | [key, value], none =>
    if container == "T::Hash" then hash key value else generic container [key, value]
  | members, none => generic container members

/-- The key of a shape that is a symbol or a string. -/
def ofPlainKey? (key : Node) : Option TypeExpr :=
  if ["hash_key_symbol", "simple_symbol", "delimited_symbol"].contains key.kind then
    some (reference "Symbol")
  else if key.kind == "string" then some (reference "String")
  else none

theorem weight_lt_of_mem_membersOf {c n : Node} (h : c ∈ membersOf n) : c.weight < n.weight :=
  Node.weight_lt_of_mem_children (List.mem_filter.mp (List.mem_filter.mp h).1 |>.1)

theorem weight_lt_of_mem_genericMembers {c n : Node} (h : c ∈ genericMembers n) :
    c.weight < n.weight :=
  Nat.lt_of_le_of_lt (Node.weight_le_of_mem h) (Node.totalWeight_filter_sites n _)

theorem totalWeight_pairs_lt (n : Node) :
    Node.totalWeight ((membersOf n).filter Node.isPair) < n.weight := by
  have sub : ((membersOf n).filter Node.isPair).Sublist n.children :=
    List.filter_sublist.trans (List.filter_sublist.trans List.filter_sublist)
  have := Node.totalWeight_le_of_sublist sub
  rw [Node.weight_eq]; omega

theorem weight_child_lt {c : Node} (pair : Node) (pairs : List Node) (h : c ∈ pair.children) :
    Prod.Lex (· < ·) (· < ·) (c.weight, 0) (Node.totalWeight (pair :: pairs), 1) := by
  have := Node.weight_lt_of_mem_children h
  refine Prod.Lex.left _ _ ?_
  rw [Node.totalWeight_cons]; omega

theorem totalWeight_tail_lt (pair : Node) (pairs : List Node) :
    Prod.Lex (· < ·) (· < ·) (Node.totalWeight pairs, 1)
      (Node.totalWeight (pair :: pairs), 1) := by
  have := Node.weight_pos pair
  refine Prod.Lex.left _ _ ?_
  rw [Node.totalWeight_cons]; omega

mutual

/-- The type expression that a node writes. -/
def ofNode (n : Node) : TypeExpr :=
  if n.kind == "constant" || n.kind == "scope_resolution" then ofReference n
  else if n.kind == "call" then
    match receiverOf n with
    | .illegible => illegible
    | .procedure => procedure
    | .other => withText n fun text => unsupported (.call text)
    | .typeModule name =>
      ofMethod n name (n.arguments.attach.map fun a => ofNode a.1) n.arguments.head?
  else if n.kind == "element_reference" then
    match n.child? "object" with
    | none => missing
    | some object =>
      match object.legible with
      | .error _ => illegible
      | .ok text =>
        ofContainer (withoutBlanks text) ((genericMembers n).attach.map fun a => ofNode a.1)
  else if n.kind == "array" then tuple ((membersOf n).attach.map fun a => ofNode a.1)
  else if n.kind == "hash" then shape (entriesOf ((membersOf n).filter Node.isPair))
  else if n.kind == "parenthesized_statements" || n.kind == "parenthesized_expression" then
    match _ : membersOf n with
    | [inner] => group (ofNode inner)
    | _ => ofOther n
  else if n.kind == "nil" then nilLiteral
  else if n.kind == "true" then boolLiteral true
  else if n.kind == "false" then boolLiteral false
  else ofOther n
termination_by (n.weight, 0)
decreasing_by
  · exact Prod.Lex.left _ _ (Node.weight_lt_of_mem_arguments a.2)
  · exact Prod.Lex.left _ _ (weight_lt_of_mem_genericMembers a.2)
  · exact Prod.Lex.left _ _ (weight_lt_of_mem_membersOf a.2)
  · exact Prod.Lex.left _ _ (totalWeight_pairs_lt n)
  · exact Prod.Lex.left _ _ (weight_lt_of_mem_membersOf (by simp [*]))

/-- The entries of a shape, from its pairs. -/
def entriesOf : List Node → ShapeEntries
  | [] => .nil
  | pair :: pairs =>
    match _ : pair.child? "key", _ : pair.child? "value" with
    | some key, some value =>
      .cons ((ofPlainKey? key).getD (ofNode key)) (ofNode value) (entriesOf pairs)
    | _, _ => entriesOf pairs
termination_by pairs => (Node.totalWeight pairs, 1)
decreasing_by
  · exact weight_child_lt pair pairs (Node.mem_of_child? ‹pair.child? "key" = some key›)
  · exact weight_child_lt pair pairs (Node.mem_of_child? ‹pair.child? "value" = some value›)
  · exact totalWeight_tail_lt pair pairs
  · exact totalWeight_tail_lt pair pairs

end

end TypeExpr

end RubyDoc
