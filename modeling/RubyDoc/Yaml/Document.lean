import RubyDoc.Value

/-!
# Documents with shared collections

A document may name a collection and refer to it from other places, even from
inside the collection. What is referred to is not copied: who changes it at one
place changes it at all of them. So every collection has a cell of its own, and
a part of a collection is a value without parts or the place of a cell.

The value of a document is what is seen by looking into its collections. A
collection inside itself is seen again and again, and at some depth no further.
-/

namespace RubyDoc.Yaml

/-- A part of a document. -/
inductive Part where
  /-- A value without parts. -/
  | plain (v : Value)
  /-- The collection in a cell. -/
  | shared (place : Nat)
deriving DecidableEq

/-- A collection. Keys and the items of sets have no parts. -/
inductive Cell where
  | list (items : List Part)
  | set (items : List Value)
  | map (entries : List (Value × Part))
deriving DecidableEq

/-- A collection without its parts. -/
def Cell.bare : Cell → Value
  | list _ => .list []
  | set items => .set items
  | map _ => .map []

/-- A document: its collections, and what it is as a whole. -/
structure Document where
  /-- The collections by their places. -/
  cells : Array Cell := #[]
  /-- The whole document. -/
  root : Part
deriving DecidableEq

namespace Document

/-- The collection at a place. Where there is none the list is empty. -/
def cellAt (d : Document) (place : Nat) : Cell := d.cells.getD place (.list [])

/-- Put a collection in place of another one. -/
def put (d : Document) (place : Nat) (c : Cell) : Document :=
  { d with cells := d.cells.setIfInBounds place c }

/-- The entries of a part that is a map. -/
def entriesOf? (d : Document) : Part → Option (List (Value × Part))
  | .plain _ => none
  | .shared place =>
    match d.cellAt place with
    | .map entries => some entries
    | .list _ | .set _ => none

/-- The entry of a map document under a text key. -/
def setting? (d : Document) (key : String) : Option Part :=
  (d.entriesOf? d.root).bind fun entries => Value.under entries key

/-- What is seen of a part down to a depth. Deeper collections are seen without
their parts. -/
def seen (d : Document) : Nat → Part → Value
  | _, .plain v => v
  | 0, .shared place => (d.cellAt place).bare
  | depth + 1, .shared place =>
    match d.cellAt place with
    | .list items => .list (items.map (d.seen depth))
    | .set items => .set items
    | .map entries => .map (entries.map fun e => (e.1, d.seen depth e.2))

/-- How deep a document is looked into. This is as deep as collections can be
inside one another without being inside themselves, and deeper than anything is
that settings are read from. -/
def depth (d : Document) : Nat := d.cells.size + 8

/-- The value of a document. -/
def value (d : Document) : Value := d.seen d.depth d.root

/-- The entries of a document that is a map. -/
def entries (d : Document) : List (Value × Value) :=
  match d.value with
  | .map entries => entries
  | _ => []

end Document

mutual

/-- A value as a part of a document, with cells of its own behind some cells. -/
def Part.ofValue (cells : Array Cell) : Value → Part × Array Cell
  | .list items =>
    let (parts, cells) := partsOf cells items
    (.shared cells.size, cells.push (.list parts))
  | .set items => (.shared cells.size, cells.push (.set items))
  | .map entries =>
    let (parts, cells) := entriesOf cells entries
    (.shared cells.size, cells.push (.map parts))
  | v => (.plain v, cells)

/-- Some values as parts of a document. -/
def partsOf (cells : Array Cell) : List Value → List Part × Array Cell
  | [] => ([], cells)
  | v :: rest =>
    let (part, cells) := Part.ofValue cells v
    let (parts, cells) := partsOf cells rest
    (part :: parts, cells)

/-- The entries of a map as parts of a document. -/
def entriesOf (cells : Array Cell) : List (Value × Value) → List (Value × Part) × Array Cell
  | [] => ([], cells)
  | (key, v) :: rest =>
    let (part, cells) := Part.ofValue cells v
    let (parts, cells) := entriesOf cells rest
    ((key, part) :: parts, cells)

end

/-- A document that has nothing in common with itself: every collection of a
value is part of one other. -/
def Document.ofValue (v : Value) : Document :=
  let (root, cells) := Part.ofValue #[] v
  { cells, root }

/-- Why a text gives no document. Most such texts are no YAML. Some are, but
hold a scalar that cannot be turned into the value its tag asks for, or nest
collections too deeply. -/
inductive Fault where
  /-- The text is no YAML, or a node does not go with its tag. -/
  | malformed
  /-- A number, a date or a character code that there is not. -/
  | badValue
  /-- A word that is no truth value. -/
  | unknownWord
  /-- A number without any digit. -/
  | emptyNumber
  /-- A text that is no date. -/
  | noDate
  /-- A character code that is far too large. -/
  | codeTooLarge
  /-- Collections are nested too deeply. -/
  | tooDeep
deriving DecidableEq

/-- A way to read the document in a text. -/
abbrev Load := String → Except Fault Document

end RubyDoc.Yaml
