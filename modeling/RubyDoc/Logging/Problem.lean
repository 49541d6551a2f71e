import RubyDoc.Document

/-!
# Problems with logging

Why logging cannot be set up as asked, or a record cannot be written. A problem
is a cause; its wording is one function.
-/

namespace RubyDoc.Logging

/-- Why logging is not set up as asked. -/
inductive Problem where
  /-- The file gives no settings. -/
  | document (fault : DocumentFault)
  /-- A word that names no level. -/
  | unknownLevel (word : String)
  /-- A setting that cannot be followed. -/
  | badValue
  /-- A section of the wrong shape, or a bound that numbers do not compare to. -/
  | badShape
  /-- A level is to be put on handlers that are no map. -/
  | handlersNotMap
  /-- A level is to be put on a logger that a list does not reach. -/
  | outOfRange
  /-- A map gets longer while it is gone through. -/
  | changedInUse
  /-- A word that names another setting than a level; the flag says that the
  setting is a table and no text. -/
  | foreignWord (isTable : Bool)
  /-- A record comes to a handler that does not say what to do with it. -/
  | unwritable
deriving DecidableEq

/-- The wording of a problem; one that comes from the settings has a label. -/
def Problem.message : Problem → String
  | document fault => fault.message
  | unknownLevel word => "Invalid log level: " ++ word
  | badValue => Cause.badValue.label
  | badShape => "<TypeError>"
  | handlersNotMap => "<AttributeError>"
  | outOfRange => "<IndexError>"
  | changedInUse => "<RuntimeError>"
  | foreignWord isTable => if isTable then "<TypeError>" else Cause.badValue.label
  | unwritable => "<NotImplementedError>"

end RubyDoc.Logging
