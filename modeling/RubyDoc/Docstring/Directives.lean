import RubyDoc.Docstring.Parser

/-!
# Writing docstrings

A tag is written on one line, its further text lines indented by two spaces
below. A docstring is its prose and then its tags. Directives such as
`@!visibility private` are no tags. They are taken out of a raw docstring before
its tags are changed and put back behind it afterwards.
-/

namespace RubyDoc

open RubyDoc.Text

/-- The texts that are not empty, put together with newlines. -/
def joinNonEmpty (parts : List String) : String := joinLines (parts.filter (· != ""))

namespace Tag

/-- What stands on the first line of a tag. -/
def headParts (tag : Tag) (textLines : List String) : List String :=
  ["@" ++ tag.tagName] ++
    (match tag.types with
      | some types => ["[" ++ String.intercalate ", " types ++ "]"]
      | none => []) ++
    (match tag.name with
      | some name => if name == "" then [] else [name]
      | none => []) ++
    textLines.take 1

/-- The written lines of a tag. -/
def printLines (tag : Tag) : List String :=
  let textLines := lines (strip tag.text)
  String.intercalate " " (tag.headParts textLines) :: (textLines.drop 1).map ("  " ++ ·)

/-- A tag as text. -/
def print (tag : Tag) : String := joinLines tag.printLines

end Tag

namespace Docstring

/-- Prose and tags as text, without the directives. -/
def print (d : Docstring) : String :=
  joinNonEmpty [strip d.text, joinLines (d.tags.map Tag.print)]

end Docstring

/-! ### Directives -/

/-- Read a docstring and set its directives apart. -/
def extractDirectives (raw : String) : Docstring × List String :=
  let parsed := Docstring.parse raw
  ({ parsed with directives := [] }, parsed.directives)

/-- Put directives behind a raw docstring, each on lines of its own. -/
def addDirectives (raw : String) (directives : List String) : String :=
  joinNonEmpty (raw :: directives)

end RubyDoc
