import RubyDoc.Fault

/-!
# Nodes of the tree of a Ruby source

A node has a kind, a place in the source, its text and its children. A child
may stand in a named field of its parent; fields are looked up by name, and
the first child in a field counts. A site is a node together with where it
stands, which is what a search for the statement after it needs.

The measure `weight` counts the nodes of a tree; recursions that go down
several levels at once are justified by it.
-/

namespace RubyDoc

/-- A place in the source: row and byte column, both from zero. -/
structure Point where
  /-- The number of newlines before the place. -/
  row : Nat
  /-- The number of bytes between the start of the row and the place. -/
  column : Nat
deriving DecidableEq, Inhabited

/-- A node of the tree. -/
structure Node where
  /-- The kind of construct. -/
  kind : String
  /-- Whether the node is a construct and no mere punctuation or keyword. -/
  named : Bool
  /-- The field of the parent that the node stands in. -/
  field : Option String
  /-- First byte; negative for a node without text. -/
  startByte : Int
  /-- First byte after the node. -/
  endByte : Int
  /-- Where the node starts. -/
  start : Point
  /-- Where the node ends. -/
  finish : Point
  /-- The text, unless the bytes of the node cut a character in two. -/
  text : Option String
  /-- All children in order. -/
  children : List Node
deriving Inhabited

/-- A node and where it stands: the parent, and its index among all children
of that parent. A root has no parent and index zero. -/
structure Site where
  /-- The node itself. -/
  node : Node
  /-- The parent, if the node is not a root. -/
  parent : Option Node
  /-- The index among the children of the parent. -/
  index : Nat

namespace Node

mutual

/-- The number of nodes in a tree. -/
def weight : Node → Nat
  | ⟨_, _, _, _, _, _, _, _, children⟩ => 1 + totalWeight children

/-- The number of nodes in a list of trees. -/
def totalWeight : List Node → Nat
  | [] => 0
  | node :: nodes => node.weight + totalWeight nodes

end

theorem weight_eq (n : Node) : n.weight = 1 + totalWeight n.children := by
  cases n; rw [weight]

theorem weight_pos (n : Node) : 0 < n.weight := by
  rw [weight_eq]; omega

@[simp] theorem totalWeight_nil : totalWeight [] = 0 := by rw [totalWeight]

@[simp] theorem totalWeight_cons (n : Node) (ns : List Node) :
    totalWeight (n :: ns) = n.weight + totalWeight ns := by rw [totalWeight]

theorem totalWeight_append (ns ms : List Node) :
    totalWeight (ns ++ ms) = totalWeight ns + totalWeight ms := by
  induction ns with
  | nil => simp
  | cons n ns ih => simp [ih]; omega

/-- A sublist weighs no more. -/
theorem totalWeight_le_of_sublist {ns ms : List Node} (h : ns.Sublist ms) :
    totalWeight ns ≤ totalWeight ms := by
  induction h with
  | slnil => simp
  | cons a _ ih => simp; omega
  | cons_cons a _ ih => simp; omega

/-- A member weighs no more than the list. -/
theorem weight_le_of_mem {n : Node} {ns : List Node} (h : n ∈ ns) :
    n.weight ≤ totalWeight ns := by
  have := totalWeight_le_of_sublist (List.singleton_sublist.mpr h)
  simpa using this

/-- A child is lighter than its parent. -/
theorem weight_lt_of_mem_children {c n : Node} (h : c ∈ n.children) :
    c.weight < n.weight := by
  rw [weight_eq n]; have := weight_le_of_mem h; omega

/-- The first child in a field. -/
def child? (n : Node) (field : String) : Option Node :=
  n.children.find? fun c => c.field == some field

/-- Whether the child at an index is the one that a field is looked up as. -/
def isFieldIndex (n : Node) (field : String) (index : Nat) : Bool :=
  n.children.findIdx? (fun c => c.field == some field) == some index

theorem mem_of_child? {n c : Node} {field : String} (h : n.child? field = some c) :
    c ∈ n.children := List.mem_of_find?_eq_some h

/-- The children that are constructs. -/
def namedChildren (n : Node) : List Node := n.children.filter (·.named)

/-- The children with their sites. -/
def sites (n : Node) : List Site :=
  n.children.zipIdx.map fun c => ⟨c.1, some n, c.2⟩

/-- The first child in a field with its site. -/
def childSite? (n : Node) (field : String) : Option Site :=
  n.sites.find? fun s => s.node.field == some field

theorem map_node_sites (n : Node) : n.sites.map Site.node = n.children := by
  simp [sites, Function.comp_def, List.zipIdx_map_fst]

/-- The text of a node. -/
def legible (n : Node) : Except Fault String :=
  match n.text with
  | some text => .ok text
  | none => .error .illegible

/-- The one-based line that a node starts on. -/
def line (n : Node) : Nat := n.start.row + 1

/-- Whether a node is a comment. -/
def isComment (n : Node) : Bool := n.kind == "comment"

mutual

/-- The nodes of a kind in a tree, each before its descendants. -/
def ofKind (kind : String) : Node → List Node
  | n@⟨k, _, _, _, _, _, _, _, children⟩ =>
    (if k == kind then [n] else []) ++ ofKindIn kind children

/-- The nodes of a kind in a list of trees. -/
def ofKindIn (kind : String) : List Node → List Node
  | [] => []
  | n :: ns => n.ofKind kind ++ ofKindIn kind ns

end

end Node

namespace Site

/-- A root by itself. -/
def ofRoot (root : Node) : Site := ⟨root, none, 0⟩

/-- The number of nodes in the trees at some sites. -/
def totalWeight (sites : List Site) : Nat := Node.totalWeight (sites.map Site.node)

/-- Whether the node stands in the field of its parent as that field's child. -/
def standsIn (s : Site) (field : String) : Bool :=
  match s.parent with
  | some parent => parent.isFieldIndex field s.index
  | none => false

/-- The next construct among the children of the parent, comments left out. -/
def next (s : Site) : Except Fault Site :=
  match s.parent with
  | none => .error (.noParent s.node.kind)
  | some parent =>
    let later := (parent.sites.drop (s.index + 1)).find? fun t => t.node.named && !t.node.isComment
    match later with
    | some t =>
      if s.node.named && !s.node.isComment then .ok t
      else .error (.noneFollows s.node.kind s.node.line)
    | none => .error (.noneFollows s.node.kind s.node.line)

end Site

end RubyDoc
