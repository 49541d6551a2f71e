import RubyDoc.Log
import RubyDoc.Text.Quoted

/-!
# Records

A record is what is written to a logger: a level, the name of the logger, and a
message. Formats refer to its fields by name. A field is a text, a number, or
empty. Runs have no clock, so a mark stands for the time.
-/

namespace RubyDoc.Logging

open RubyDoc.Text

/-- What is written to a logger. -/
structure Record where
  /-- How important it is; levels with a name are ten apart. -/
  level : Nat
  /-- The dotted name of the logger. -/
  logger : String
  /-- What it says. -/
  message : String
  /-- What it says before values are put into their places. -/
  pattern : String := message
deriving DecidableEq

/-- The record of a log entry. -/
def Record.ofEntry (e : Entry) : Record :=
  { level := e.level.rank, logger := e.channel.name, message := e.message }

/-- The name that a number is shown by as a level. -/
def levelName (n : Int) : String :=
  match [Level.notSet, .debug, .info, .warning, .error, .critical].find? fun l => l.rank == n with
  | some l => l.name
  | none => "Level " ++ toString n

/-- The lowest level that somebody takes. -/
structure Bound where
  /-- The number that levels are compared to. -/
  rank : Int := 0
  /-- Whether the number was given as a truth value. -/
  isTruth : Bool := false
deriving DecidableEq

namespace Bound

/-- A level as the lowest one. -/
def ofLevel (l : Level) : Bound := { rank := l.rank }

/-- What a bound is shown by; a truth value stays one unless its number is that
of a level with a name. -/
def name (b : Bound) : String :=
  if b.isTruth && b.rank == 1 then "Level True" else levelName b.rank

end Bound

/-- The mark that stands for the time of a record. -/
def timeMark : String := "<time>"

/-- The content of a field. -/
inductive Content where
  | text (s : String)
  | number (n : Nat)
  | empty
deriving DecidableEq

namespace Content

/-- The content of a field as it is. -/
def shown : Content → String
  | text s => s
  | number n => toString n
  | empty => "None"

/-- The content of a field with texts between quotation marks. -/
def quoted : Content → String
  | text s => Text.quoted s
  | other => other.shown

/-- The content of a field with texts between quotation marks in the first 128
characters. -/
def quotedPlain : Content → String
  | text s => Text.quotedPlain s
  | other => other.shown

end Content

/-- The contents of some fields by name. -/
abbrev Fields := String → Option Content

/-- The fields of a record. The first argument is the time as it is shown. -/
def Record.fields (time : String) (r : Record) : Fields
  | "name" => some (.text r.logger)
  | "msg" => some (.text r.pattern)
  | "message" => some (.text r.message)
  | "levelname" => some (.text (levelName r.level))
  | "levelno" => some (.number r.level)
  | "asctime" => some (.text time)
  | "threadName" => some (.text "MainThread")
  | "processName" => some (.text "MainProcess")
  | "exc_info" | "exc_text" | "stack_info" => some .empty
  | _ => none

end RubyDoc.Logging
