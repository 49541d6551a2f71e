import RubyDoc.Node.Source
import RubyDoc.Value
import RubyDoc.Workspace

/-!
# Bundles of files

Ruby is parsed by another program. It hands over the files in one document, a
list with an entry for every file and directory, and with the tree of every
file that could be parsed. A tree is a list: the kind of its root, whether it is
a construct, its field, first and last byte, row and column of the start and of
the end, and, if there are any, the list of its children.
-/

namespace RubyDoc.Bundle

/-- Read a field of a node; null stands for none. -/
def fieldOf : Value → Option String
  | .text s => some s
  | _ => none

/-- Read a count. -/
def natOf : Value → Nat
  | .int n => n.toNat
  | _ => 0

/-- Read an offset, which may be below zero. -/
def intOf : Value → Int
  | .int n => n
  | _ => 0

/-- A node without its children. -/
def leaf (source : ByteArray) (kind : String)
    (named field startByte endByte startRow startColumn endRow endColumn : Value) : Node :=
  { kind, named := !named.isEmptyLike, field := fieldOf field
    startByte := intOf startByte, endByte := intOf endByte
    start := ⟨natOf startRow, natOf startColumn⟩, finish := ⟨natOf endRow, natOf endColumn⟩
    text := Node.textIn source (intOf startByte) (intOf endByte)
    children := [] }

mutual

/-- Read a tree over a source. -/
def node? (source : ByteArray) : Value → Option Node
  | .list [.text kind, named, field, sb, eb, sr, sc, er, ec] =>
    some (leaf source kind named field sb eb sr sc er ec)
  | .list [.text kind, named, field, sb, eb, sr, sc, er, ec, .list children] =>
    (nodes? source children).map fun children =>
      { leaf source kind named field sb eb sr sc er ec with children }
  | _ => none

/-- Read the trees of a list. -/
def nodes? (source : ByteArray) : List Value → Option (List Node)
  | [] => some []
  | v :: rest =>
    match node? source v, nodes? source rest with
    | some n, some others => some (n :: others)
    | _, _ => none

end

/-- What the parser made of a text. -/
def outcomeOf (tree : Option Value) (hasErrors : Bool) (text : String) : ParseOutcome :=
  match tree.bind (node? text.toUTF8) with
  | some root => .tree root hasErrors
  | none => .rejected

/-- Read an entry: its path, and a directory or a file with its text. -/
def item? : Value → Option (String × FileItem)
  | .map entries =>
    match Value.under entries "path", Value.under entries "text" with
    | some (.text path), some (.text text) =>
      let hasErrors := (Value.under entries "errors").any fun v => !v.isEmptyLike
      some (path, .file text.toUTF8 (outcomeOf (Value.under entries "tree") hasErrors))
    | some (.text path), none => some (path, .directory)
    | _, _ => none
  | _ => none

/-- Read a bundle. -/
def workspace? : Value → Option Workspace
  | .list items => (items.mapM item?).map Workspace.ofList
  | .null => some {}
  | _ => none

end RubyDoc.Bundle
