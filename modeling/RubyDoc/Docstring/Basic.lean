/-!
# Docstrings

A docstring is prose followed by tags such as `@param` and `@return`, and it
may carry directives. This module holds the types and the operations that look
tags up, put them in, retype them and take them out. How a docstring is read
from text and written to it is said in the modules beside this one.
-/

namespace RubyDoc

/-- A tag: its name, an optional type list, an optional parameter name and a
text of any number of lines. -/
structure Tag where
  /-- The word after the at sign; empty for a tag that could not be read. -/
  tagName : String
  /-- The free text, lines separated by newlines. -/
  text : String := ""
  /-- The type list, if one is written. -/
  types : Option (List String) := none
  /-- The parameter or attribute that the tag is about, if one is named. -/
  name : Option String := none
deriving DecidableEq

/-- Prose, tags in order, and the directives found while reading. -/
structure Docstring where
  /-- The free text. -/
  text : String := ""
  /-- The tags in order. -/
  tags : List Tag := []
  /-- The source blocks of the directives in order. -/
  directives : List String := []
deriving DecidableEq

namespace Tag

/-- Whether a tag has the tag name and, if a name is asked for, that name. -/
def isFor (tagName : String) (name : Option String) (tag : Tag) : Bool :=
  tag.tagName == tagName && (name.isNone || tag.name == name)

/-- Whether a tag has the tag name and one of the names, if names are given. -/
def isAmong (tagName : String) (names : Option (List String)) (tag : Tag) : Bool :=
  tag.tagName == tagName &&
    match names, tag.name with
    | none, _ => true
    | some _, none => false
    | some ns, some n => ns.contains n

end Tag

/-- Set the types of the first matching tag, or add a tag with them at the end. -/
def upsertIn (tagName : String) (types : Option (List String)) (name : Option String) :
    List Tag → List Tag
  | [] => [{ tagName, types, name }]
  | tag :: tags =>
    if tag.isFor tagName name then { tag with types } :: tags
    else tag :: upsertIn tagName types name tags

namespace Docstring

/-- Put a tag after the others. -/
def addTag (d : Docstring) (tag : Tag) : Docstring := { d with tags := d.tags ++ [tag] }

/-- All tags with a tag name, in order. -/
def tagsNamed (d : Docstring) (tagName : String) : List Tag :=
  d.tags.filter fun tag => tag.tagName == tagName

/-- The first tag with a tag name and, if given, a parameter name. -/
def tag? (d : Docstring) (tagName : String) (name : Option String := none) : Option Tag :=
  d.tags.find? (Tag.isFor tagName name)

/-- Leave out the tags with a tag name, limited to the given names if any. -/
def removeTags (d : Docstring) (tagName : String) (names : Option (List String) := none) :
    Docstring :=
  { d with tags := d.tags.filter fun tag => !tag.isAmong tagName names }

/-- Give the first matching tag these types, keeping its text; without a match
a tag with these types is added. -/
def upsertTag (d : Docstring) (tagName : String) (types : Option (List String) := none)
    (name : Option String := none) : Docstring :=
  { d with tags := upsertIn tagName types name d.tags }

end Docstring

end RubyDoc
