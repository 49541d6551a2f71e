import RubyDoc.Docstring.Basic
import RubyDoc.Docstring.TypeList
import RubyDoc.Text.Word

/-!
# Reading docstrings

The lines of a text fall into blocks: a line that begins with an at sign opens
a tag, or a directive if an exclamation mark follows, and indented lines
continue it. All other lines are prose. Reading never fails: a tag line that
has no proper name gives a tag with an empty name and the block as its text.
-/

namespace RubyDoc

open RubyDoc.Text

/-- A block of docstring lines, each without the blanks at its end. -/
inductive Block where
  /-- A line of prose. -/
  | prose (line : String)
  /-- A tag line and the lines that continue it. -/
  | tag (head : String) (more : List String)
  /-- A directive line and the lines that continue it. -/
  | directive (head : String) (more : List String)
deriving DecidableEq

/-- Whether a line continues the block above it: it is indented and not blank. -/
def isContinuation (line : String) : Bool :=
  match line.toList with
  | [] => false
  | c :: _ => isBlank c && !isBlankText line

namespace Block

/-- Group lines into blocks. -/
def ofLines : List String → List Block
  | [] => []
  | line :: rest =>
    if beginsWith "@" line then
      let more := (rest.takeWhile isContinuation).map stripEnd
      let block := if beginsWith "@!" line then directive (stripEnd line) more
        else tag (stripEnd line) more
      block :: ofLines (rest.dropWhile isContinuation)
    else prose (stripEnd line) :: ofLines rest
termination_by ls => ls.length
decreasing_by
  · exact Nat.lt_succ_of_le (List.dropWhile_sublist _).length_le
  · exact Nat.lt_succ_self _

/-- The line of a prose block. -/
def proseLine? : Block → Option String
  | prose line => some line
  | _ => none

/-- The text of a directive block. -/
def directiveText? : Block → Option String
  | directive head more => some (joinLines (head :: more))
  | _ => none

end Block

namespace Tag

/-- The tags with a type list and a name. -/
def namedTypedTags : List String :=
  ["attr", "attr_reader", "attr_writer", "option", "param", "yieldparam"]

/-- The tags with a type list alone. -/
def typedTags : List String := ["raise", "return", "yieldreturn"]

/-- The tag name and the trimmed rest of a tag line: an at sign, a name, and
then the end of the line or a blank. -/
def splitHead? (line : String) : Option (String × String) :=
  match line.toList with
  | '@' :: c :: cs =>
    if isNameStart c then
      let after := cs.dropWhile isWord
      if after.head?.all isBlank then
        some (String.ofList (c :: cs.takeWhile isWord), String.ofList (trim after))
      else none
    else none
  | _ => none

/-- The type list, name and text on the line of a tag that has all three. The
name may stand before the type list or after it. -/
def readNamed (rest : String) : Option (List String) × Option String × String :=
  if rest != "" && !beginsWith "[" rest then
    let (name, after) := cutAtSpace rest
    let (types, text) := TypeList.splitOff (strip after)
    (types, some name, text)
  else
    let (types, after) := TypeList.splitOff rest
    if after == "" then (types, none, after)
    else
      let (name, text) := cutAtSpace after
      (types, some name, strip text)

/-- Read the block of a tag. -/
def ofBlock (head : String) (more : List String) : Tag :=
  match splitHead? head with
  | none => { tagName := "", text := joinLines (head :: more) }
  | some (tagName, rest) =>
    let (types, name, first) :=
      if namedTypedTags.contains tagName then readNamed rest
      else if typedTags.contains tagName then
        let (types, text) := TypeList.splitOff rest
        (types, none, text)
      else (none, none, rest)
    { tagName, types, name, text := joinLines ((first :: more.map strip).filter (· != "")) }

end Tag

namespace Block

/-- The tag that a tag block holds. -/
def tag? : Block → Option Tag
  | tag head more => some (Tag.ofBlock head more)
  | _ => none

end Block

namespace Docstring

/-- Read a docstring. -/
def parse (content : String) : Docstring :=
  let blocks := Block.ofLines (lines content)
  { text := strip (joinLines (blocks.filterMap Block.proseLine?))
    tags := blocks.filterMap Block.tag?
    directives := blocks.filterMap Block.directiveText? }

end Docstring

end RubyDoc
