import RubyDoc.Yaml.Document
import RubyDoc.Yaml.Node.Parser

/-!
# The values of nodes

A node is turned into the value that its tag asks for, and into one value only,
however many nodes it is part of. Collections are made empty; their parts are
built later, those of collections that were made earlier first. So of several
nodes without a value the one that is reached first in this order counts.
Mappings may merge other mappings into their own: what is merged comes first,
so that own entries win. Keys have to be values without parts.
-/

namespace RubyDoc.Yaml

/-- A document that is being built. -/
structure Builder where
  /-- The nodes, in which merged entries take the place of the key that merges. -/
  nodes : Array Node
  /-- What the nodes at their places were turned into. -/
  parts : Array (Option Part)
  /-- The collections. -/
  cells : Array Cell := #[]
  /-- The nodes whose parts are not built yet, with the places of their cells. -/
  waiting : List (Nat × Nat) := []

/-- A step of building a document. -/
abbrev Build := StateT Builder (Except Fault)

namespace Build

/-- The node at a place. -/
def nodeAt (place : Nat) : Build Node := return (← get).nodes.getD place (.scalar .null "")

/-- Put a node at the place of another one. -/
def replace (place : Nat) (node : Node) : Build Unit :=
  modify fun b => { b with nodes := b.nodes.setIfInBounds place node }

/-- The entries of the node at a place, which has to be a mapping. -/
def entriesAt (place : Nat) : Build (List (Nat × Nat)) := do
  match ← nodeAt place with
  | .mapping _ entries => return entries
  | .scalar _ _ | .sequence _ _ => throw .malformed

/-- Change the entries of the mapping at a place. -/
def changeEntries (place : Nat) (change : List (Nat × Nat) → List (Nat × Nat)) :
    Build Unit := do
  if let .mapping tag entries ← nodeAt place then replace place (.mapping tag (change entries))

/-- Take in the mappings that the keys of a mapping merge into it, from one of
its entries on. Entries that were taken in so far are given, and all of them
come to stand before its own. Content keys are given the tag of a text. The
first number bounds how many entries are gone through. -/
def flattenFrom : Nat → Nat → Nat → List (Nat × Nat) → Build Unit
  | 0, _, _, _ => throw .tooDeep
  | fuel + 1, place, index, taken => do
    match (← entriesAt place)[index]? with
    | none => changeEntries place (taken ++ ·)
    | some (key, value) =>
      match (← nodeAt key).tag with
      | .merge =>
        changeEntries place (·.eraseIdx index)
        let sources ← match ← nodeAt value with
          | .mapping _ _ => pure [value]
          | .sequence _ items => pure items
          | .scalar _ _ => throw .malformed
        let found ← sources.mapM fun source => do
          -- A source that is no mapping is refused before anything is taken from it.
          let _ ← entriesAt source
          flattenFrom fuel source 0 []
          entriesAt source
        flattenFrom fuel place index (taken ++ found.reverse.flatten)
      | .content =>
        replace key ((← nodeAt key).withTag .text)
        flattenFrom fuel place (index + 1) taken
      | _ => flattenFrom fuel place (index + 1) taken

/-- Take in all mappings that are merged into the one at a place. Every entry of
the document is gone through at most once for each merging key. -/
def flatten (place : Nat) : Build Unit := do
  let total := (← get).nodes.foldl (fun n node => match node with
    | .mapping _ entries => n + entries.length + 1
    | _ => n + 1) 1
  flattenFrom (total * total) place 0 []

/-- The text of a node that is used as a scalar: its own, or that of its content
key. The number bounds how deep it is looked for. -/
def textOf : Nat → Nat → Build String
  | 0, _ => throw .tooDeep
  | fuel + 1, place => do
    match ← nodeAt place with
    | .scalar _ text => return text
    | .sequence _ _ => throw .malformed
    | .mapping _ entries =>
      match ← entries.findM? fun e => return (← nodeAt e.1).tag == .content with
      | some e => textOf fuel e.2
      | none => throw .malformed

/-- Put a collection behind the others; the part that it is. -/
def add (c : Cell) : Build Part := do
  let place := (← get).cells.size
  modify fun b => { b with cells := b.cells.push c }
  return .shared place

/-- The tags of collections. -/
def collectionTags : List Tag := [.sequence, .mapping, .set, .orderedMap, .pairs]

/-- What a node that was not turned into anything yet is turned into. -/
def make (place : Nat) : Build Part := do
  let tag := (← nodeAt place).tag
  if collectionTags.contains tag then
    let cell := (← get).cells.size
    modify fun b => { b with waiting := b.waiting ++ [(place, cell)] }
    add (.list [])
  else
    let text ← textOf ((← get).nodes.size + 1) place
    return .plain (← scalarValue tag text)

/-- What the node at a place is turned into. -/
def partOf (place : Nat) : Build Part := do
  match (← get).parts.getD place none with
  | some part => return part
  | none =>
    let part ← make place
    modify fun b => { b with parts := b.parts.setIfInBounds place (some part) }
    return part

/-- The value of a node that is a key. -/
def keyOf (place : Nat) : Build Value := do
  match ← partOf place with
  | .plain v => return v
  | .shared _ => throw .malformed

/-- The entries of a mapping with those that are merged into it; of equal keys
the last one counts. -/
def mapOf (place : Nat) : Build (List (Value × Part)) := do
  let _ ← entriesAt place
  flatten place
  (← entriesAt place).foldlM (fun found e => do
    let key ← keyOf e.1
    return Value.putEntry key (← partOf e.2) found) []

/-- The pair that a mapping with one entry stands for. -/
def pairOf (place : Nat) : Build Part := do
  match ← entriesAt place with
  | [(key, value)] => do
    let key ← partOf key
    add (.list [key, ← partOf value])
  | _ => throw .malformed

/-- Build the parts of the node at a place. -/
def cellOf (place : Nat) : Build Cell := do
  let n ← nodeAt place
  match n.tag, n with
  | .sequence, .sequence _ items => return .list (← items.mapM partOf)
  | .orderedMap, .sequence _ items | .pairs, .sequence _ items =>
    return .list (← items.mapM pairOf)
  | .set, _ => return .set ((← mapOf place).map Prod.fst)
  | .mapping, _ => return .map (← mapOf place)
  | _, _ => throw .malformed

/-- Build the parts of all collections that wait for it. The number bounds how
many they are. -/
def finish : Nat → Build Unit
  | 0 => return
  | fuel + 1 => do
    match (← get).waiting with
    | [] => return
    | (place, cell) :: rest =>
      modify fun b => { b with waiting := rest }
      let c ← cellOf place
      modify fun b => { b with cells := b.cells.setIfInBounds cell c }
      finish fuel

end Build

/-- The document that nodes make up. -/
def Graph.document (g : Graph) : Except Fault Document := do
  let start : Builder := { nodes := g.nodes, parts := Array.replicate g.nodes.size none }
  let steps : Build Part := do
    let root ← Build.partOf g.root
    Build.finish g.nodes.size
    return root
  let (root, built) ← steps.run start
  return { cells := built.cells, root }

/-- Read the document in a text. A text without one stands for null. -/
def load (text : String) : Except Fault Document := do
  match ← Graph.ofTokens? (.ofText text.toList) with
  | none => return { root := .plain .null }
  | some graph => graph.document

/-- The value of the document in a text. -/
def parse (text : String) : Except Fault Value := (load text).map Document.value

end RubyDoc.Yaml
