import RubyDoc.Fault
import RubyDoc.Log

/-!
# Readings

A reading may log on its way and may end in a fault. What was logged before a
fault stays logged.
-/

namespace RubyDoc

/-- A computation that logs and may fail, keeping the log when it does. -/
abbrev Reading := ExceptT Fault (StateM Log)

namespace Reading

/-- Make one log entry. -/
def note (level : Level) (channel : Channel) (message : String) : Reading Unit :=
  modify fun log => log ++ [{ level, channel, message }]

/-- Take over a result that may be a fault. -/
def ofExcept {α : Type} : Except Fault α → Reading α
  | .ok a => pure a
  | .error fault => throw fault

/-- Run with a log to go on with. -/
def runWith {α : Type} (reading : Reading α) (log : Log) : Except Fault α × Log := reading log

end Reading

end RubyDoc
