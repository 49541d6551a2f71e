import RubyDoc.Node.Basic
import RubyDoc.Text.Lines

/-!
# Sources and their comments

A source is a text with its tree. Nodes carry byte ranges of the text, and the
text of a node is what its bytes say, if they hold whole characters. Comments
that have a line to themselves are indexed by the row that they end on. The
comments that document a statement are the unbroken block that ends on the row
above it. A comment after code on the same line documents nothing.
-/

namespace RubyDoc

open RubyDoc.Text

/-- A text with its tree, and the index of its full-line comments. -/
structure Source where
  /-- The root of the tree. -/
  root : Node
  /-- The text that the tree was read from. -/
  text : String
  /-- The path recorded on what the source declares. -/
  path : String
  /-- Whether the tree could only be built by skipping over errors. -/
  hasErrors : Bool
  /-- Comments with the row that they end on; the first entry of a row counts. -/
  comments : List (Nat × Node)

/-- What tells the nodes of one source apart when docstrings are overridden. -/
abbrev NodeKey := Int × Int × String

namespace Node

/-- The text between two bytes of a source. A negative start stands for a node
without text; a range that cuts a character has none that can be read. -/
def textIn (source : ByteArray) (startByte endByte : Int) : Option String :=
  if startByte < 0 then some ""
  else String.fromUTF8? (source.extract startByte.toNat endByte.toNat)

/-- The key of a node: where it starts and ends, and its kind. -/
def key (n : Node) : NodeKey := (n.startByte, n.endByte, n.kind)

/-- The row that a comment ends on. A block that ends at the very start of a
row ends on the row above. -/
def lastRow (n : Node) : Nat :=
  if n.finish.column == 0 && n.start.row < n.finish.row then n.finish.row - 1 else n.finish.row

/-- The lines of a comment without its markers. -/
def commentLines (text : String) : List String :=
  if beginsWith "=begin" text then
    let inner := (lines text).drop 1
    let inner := match inner.getLast? with
      | some last => if beginsWith "=end" (strip last) then inner.dropLast else inner
      | none => inner
    inner.map stripEnd
  else [stripEnd (withoutStart " " (withoutStart "#" text))]

end Node

namespace Source

/-- Whether nothing but blanks stands before a place on its line. -/
def isLineStart (textLines : List String) (place : Point) : Bool :=
  match textLines[place.row]? with
  | some line => (line.toList.take place.column).all isBlank
  | none => false

/-- The full-line comments of a tree with the rows that they end on, the last
one first. -/
def indexComments (root : Node) (textLines : List String) : List (Nat × Node) :=
  ((((root.ofKind "comment").filter fun c => isLineStart textLines c.start).map fun c =>
    (c.lastRow, c))).reverse

/-- A source from its tree. -/
def ofTree (root : Node) (text path : String) (hasErrors : Bool := false) : Source :=
  { root, text, path, hasErrors, comments := indexComments root (lines text) }

/-- The comment that ends on the row above a given one. -/
def commentAbove? (comments : List (Nat × Node)) (row : Nat) : Option Node :=
  if row = 0 then none else comments.lookup (row - 1)

/-- Leave out the comments that end on the row above a given one. -/
def withoutRowAbove (comments : List (Nat × Node)) (row : Nat) : List (Nat × Node) :=
  comments.filter fun c => c.1 != row - 1

theorem length_withoutRowAbove_lt {comments : List (Nat × Node)} {row : Nat} {c : Node}
    (h : commentAbove? comments row = some c) :
    (withoutRowAbove comments row).length < comments.length := by
  unfold commentAbove? at h
  split at h
  · cases h
  · have found : (row - 1, c) ∈ comments := by
      induction comments with
      | nil => cases h
      | cons entry rest ih =>
        obtain ⟨r, d⟩ := entry
        rw [List.lookup_cons] at h
        by_cases same : row - 1 = r
        · simp [same] at h; subst h; simp [same]
        · have : (row - 1 == r) = false := by simp [same]
          rw [this] at h
          exact List.mem_cons_of_mem _ (ih h)
    exact List.length_filter_lt_length_iff_exists.mpr ⟨_, found, by simp⟩

/-- The unbroken block of comments above a row, in source order. -/
def blockAbove (comments : List (Nat × Node)) (row : Nat) : List Node :=
  match _ : commentAbove? comments row with
  | none => []
  | some c => blockAbove (withoutRowAbove comments row) c.start.row ++ [c]
termination_by comments.length
decreasing_by exact length_withoutRowAbove_lt ‹_›

/-- The text of a block of comments, without empty lines around it. -/
def blockText (texts : List String) : String :=
  stripEnd (stripNewlines (joinLines (texts.flatMap Node.commentLines)))

/-- The docstring of a statement: the one it was given, or else the comments
above it. -/
def docstringOf (s : Source) (overridden : List (NodeKey × String)) (n : Node) :
    Except Fault String :=
  match overridden.lookup n.key with
  | some docstring => .ok docstring
  | none => ((blockAbove s.comments n.start.row).mapM Node.legible).map blockText

end Source

end RubyDoc
