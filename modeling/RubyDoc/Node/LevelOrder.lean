import RubyDoc.Node.Call

/-!
# Level order

The nodes of a tree from the root down, level by level and from left to right.
The arguments of `params` and `returns` calls are left out with all below
them, because they hold types of their own; the receivers of such calls are
visited. The order ends early where the name of a call cannot be read: the
node is still visited, and the fault is told beside the nodes before it.
-/

namespace RubyDoc

namespace Node

/-- The calls whose arguments are not descended into. -/
def closedCalls : List String := ["params", "returns"]

/-- The children that are visited below a node. -/
def openSites (n : Node) : Except Fault (List Site) :=
  n.callName.map fun name =>
    if name.any closedCalls.contains then
      n.sites.filter fun s => !n.isFieldIndex "arguments" s.index
    else n.sites

theorem totalWeight_openSites {n : Node} {inner : List Site} (h : n.openSites = .ok inner) :
    Site.totalWeight inner < n.weight := by
  have all : n.sites = n.sites.filter fun _ => true := (List.filter_eq_self.mpr fun _ _ => rfl).symm
  unfold openSites at h
  cases name : n.callName with
  | error e => rw [name] at h; cases h
  | ok name? =>
    rw [name] at h
    simp only [Except.map, Except.ok.injEq] at h
    subst h
    split
    · exact totalWeight_filter_sites n _
    · rw [all]; exact totalWeight_filter_sites n _

end Node

/-- The sites visited when those in the queue are next, and the fault that ends
the visit, if any. -/
def levelOrderFrom : List Site → List Site × Option Fault
  | [] => ([], none)
  | s :: queue =>
    match _ : s.node.openSites with
    | .error fault => ([s], some fault)
    | .ok inner =>
      let rest := levelOrderFrom (queue ++ inner)
      (s :: rest.1, rest.2)
termination_by queue => Site.totalWeight queue
decreasing_by
  have := Node.totalWeight_openSites ‹_›
  simp only [Site.totalWeight, List.map_append, Node.totalWeight_append, List.map_cons,
    Node.totalWeight_cons] at this ⊢
  omega

theorem levelOrderFrom_cons_error {s : Site} {fault : Fault} (h : s.node.openSites = .error fault)
    (queue : List Site) : levelOrderFrom (s :: queue) = ([s], some fault) := by
  rw [levelOrderFrom]
  split
  · next found hfound => rw [Except.error.inj (hfound.symm.trans h)]
  · next inner hinner => cases hinner.symm.trans h

theorem levelOrderFrom_cons_ok {s : Site} {inner : List Site} (h : s.node.openSites = .ok inner)
    (queue : List Site) : levelOrderFrom (s :: queue) =
      (s :: (levelOrderFrom (queue ++ inner)).1, (levelOrderFrom (queue ++ inner)).2) := by
  rw [levelOrderFrom]
  split
  · next fault hfault => cases hfault.symm.trans h
  · next found hfound => rw [Except.ok.inj (hfound.symm.trans h)]

/-- The sites visited from one on. -/
def Site.levelOrder (s : Site) : List Site × Option Fault := levelOrderFrom [s]

/-- The kinds of method definitions. -/
def Node.methodKinds : List String := ["method", "singleton_method"]

/-- The calls that define accessors. -/
def Node.accessorCalls : List String := ["attr", "attr_accessor", "attr_reader", "attr_writer"]

/-- Whether a signature can be about the node itself. -/
def Node.isSignable (n : Node) : Except Fault Bool :=
  if Node.methodKinds.contains n.kind then .ok true
  else n.callName.map fun name => name.any Node.accessorCalls.contains

/-- The definition that a signature before a statement is about: the statement
itself, or the first method definition in it in level order. -/
def Site.signatureTarget (s : Site) : Except Fault Site := do
  if ← s.node.isSignable then return s
  match s.levelOrder with
  | (_, some fault) => throw fault
  | (visited, none) =>
    match visited.find? fun t => Node.methodKinds.contains t.node.kind with
    | some t => return t
    | none => throw (.noDefinition s.node.line)

end RubyDoc
