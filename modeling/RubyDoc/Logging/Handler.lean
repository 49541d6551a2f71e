import RubyDoc.Logging.Format
import RubyDoc.Text.Lines
import RubyDoc.Value

/-!
# Handlers

A handler writes records that are important enough and that its filters let
through. Some handlers keep records back in a buffer and hand them on to another
handler when the buffer is full or a record is urgent.
-/

namespace RubyDoc.Logging

open RubyDoc.Text

/-- How records are kept back. -/
structure Buffer where
  /-- How many records are enough to hand them on. -/
  capacity : Value
  /-- The lowest level of records that have all of them handed on, if there is
  one. -/
  urgency : Option Value := none
  /-- The key of the handler that they are handed on to, if there is one. -/
  target : Option Value := none
  /-- Whether they are handed on when the handler is taken away. -/
  flushesAtEnd : Bool := true

/-- What a handler does with records. -/
inductive Outlet where
  /-- It writes them to the error stream, on which log lines are looked for. -/
  | errorStream
  /-- It writes them elsewhere, or drops them. -/
  | elsewhere
  /-- It keeps them back. -/
  | buffer (b : Buffer)
  /-- It does not say. -/
  | undefined

/-- Who writes records. -/
structure Handler where
  /-- The key that the handler was configured under. -/
  key : Value := .null
  /-- The name of the kind of handler. -/
  kindName : String := "StreamHandler"
  /-- What it does with records. -/
  outlet : Outlet := .errorStream
  /-- The lowest level that it takes from loggers. -/
  level : Bound := {}
  /-- The format; without one the message is written alone. -/
  format : Option Format := none
  /-- Names of loggers; a record has to come from one of each or from below it. -/
  filters : List String := []

/-- Whether a filter lets the records of a logger through. -/
def passes (logger : String) (filter : String) : Bool :=
  filter == "" || logger == filter || beginsWith (filter ++ ".") logger

/-- Whether a number is no less than a bound; what is no number bounds none. -/
def reaches? (n : Nat) : Value → Option Bool
  | .int bound => some (bound ≤ n)
  | .bool b => some ((if b then 1 else 0) ≤ n)
  | .real bound => some (bound.isAtMost n)
  | _ => none

/-- Whether a buffer with a number of records hands them on after the last one;
of a bound that numbers do not compare to nothing can be said. -/
def Buffer.isDue? (b : Buffer) (count : Nat) (r : Record) : Option Bool := do
  if ← reaches? count b.capacity then return true
  match b.urgency with
  | some level => reaches? r.level level
  | none => return false

namespace Handler

/-- Whether the filters of a handler let a record through. -/
def lets (h : Handler) (r : Record) : Bool := h.filters.all (passes r.logger)

/-- The text that a handler shows a record by. A record that does not go with
the format is dropped. -/
def show? (h : Handler) (r : Record) : Option String :=
  match h.format with
  | some format => format.show? r
  | none => some r.message

/-- The lines that a record is on the error stream. They end at newlines only. -/
def linesOf (h : Handler) (r : Record) : List String :=
  match h.show? r with
  | some text => text.splitOn "\n"
  | none => []

/-- The handler of records that meet no other. -/
def lastResort : Handler := { level := .ofLevel .warning }

end Handler

end RubyDoc.Logging
