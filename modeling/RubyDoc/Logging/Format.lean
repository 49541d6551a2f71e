import RubyDoc.Logging.Format.Braces
import RubyDoc.Logging.Format.Dollars
import RubyDoc.Logging.Format.Percent

/-!
# Formats of log lines

A format is text with references to the fields of a record. There are three
styles of references. How a format shows times is said by another text; one that
shows them by the clock gives the mark of the time.
-/

namespace RubyDoc.Logging

/-- The style of the references in a format. -/
inductive Style where
  | percent | braces | dollars
deriving DecidableEq

/-- The style of a character. -/
def Style.ofName? : String → Option Style
  | "%" => some percent
  | "\x7b" => some braces
  | "$" => some dollars
  | _ => none

/-- The format of a style that shows the message alone. -/
def Style.plain : Style → String
  | percent => "%(message)s"
  | braces => "\x7bmessage\x7d"
  | dollars => "$\x7bmessage\x7d"

/-- A format of log lines. -/
structure Format where
  /-- The format as written. -/
  text : String
  /-- The style of its references. -/
  style : Style := .percent
  /-- How times are shown; empty for the common way. -/
  timeText : String := ""
deriving DecidableEq

namespace Format

/-- Whether a format is accepted. -/
def isAccepted (f : Format) : Bool :=
  match f.style with
  | .percent => Percent.isAccepted f.text.toList
  | .braces => Braces.isAccepted f.text.toList
  | .dollars => Dollars.isAccepted f.text.toList

/-- The time of a record as a format shows it. -/
def time (f : Format) : String :=
  if f.timeText == "" || f.timeText.toList.contains '%' then timeMark else f.timeText

/-- Show a record by a format, if that can be done. -/
def show? (f : Format) (r : Record) : Option String :=
  let fields := r.fields f.time
  let shown := match f.style with
    | .percent => Percent.show? f.text.toList fields
    | .braces => Braces.show? f.text.toList fields
    | .dollars => Dollars.show? f.text.toList fields
  shown.map String.ofList

end Format

end RubyDoc.Logging
