import RubyDoc.Yaml.Cursor
import RubyDoc.Yaml.Document

/-!
# YAML tokens

A document is a row of tokens: marks, names, scalars, and the places where
block collections begin and end, which indentation alone shows.
-/

namespace RubyDoc.Yaml

/-- What a directive says. -/
inductive Directive where
  /-- The version of the language, by its first number. -/
  | version (major : Nat)
  /-- A short form for the beginning of tags. -/
  | shorthand (handle expansion : String)
  /-- Anything else, which says nothing. -/
  | reserved
deriving DecidableEq

/-- A token. -/
inductive Token where
  | directive (d : Directive)
  | documentStart
  | documentEnd
  | streamEnd
  | blockSequenceStart
  | blockMappingStart
  | blockEnd
  | flowSequenceStart
  | flowSequenceEnd
  | flowMappingStart
  | flowMappingEnd
  | blockEntry
  | flowEntry
  | key
  | value
  /-- A reference to an anchored node. -/
  | reference (name : String)
  /-- A name for the node that follows. -/
  | anchor (name : String)
  /-- A tag: a short form, if there is one, and the rest. -/
  | tag (handle : Option String) (suffix : String)
  /-- A scalar; only plain ones may stand for something else than their text. -/
  | scalar (text : String) (isPlain : Bool)
deriving DecidableEq

end RubyDoc.Yaml
