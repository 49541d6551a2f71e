/-!
# Configuration of a run

Which files are documented, how repeated fields are treated, and the markup
of generated texts. How a configuration is read and checked is said beside.
-/

namespace RubyDoc

/-- The markup of generated docstrings. -/
inductive Markup where
  | markdown | rdoc
deriving DecidableEq

/-- The settings of a run. -/
structure Config where
  /-- Extensions of the files documented in directories, in lower case. -/
  extensions : List String := [".rb", ".rbi"]
  /-- Larger files are skipped; in bytes. -/
  maxFileSize : Nat := 10 * 1024 * 1024
  /-- Whether a repeated field is recorded again. -/
  allowDuplicateFields : Bool := true
  /-- The markup of names in generated docstrings. -/
  markup : Markup := .markdown
deriving DecidableEq

namespace Markup

/-- The name of a markup. -/
def name : Markup → String
  | markdown => "markdown"
  | rdoc => "rdoc"

/-- The mark around a name. -/
def mark : Markup → String
  | markdown => "`"
  | rdoc => "+"

end Markup

/-- A name marked as code. -/
def Config.codeSpan (c : Config) (name : String) : String := c.markup.mark ++ name ++ c.markup.mark

end RubyDoc
