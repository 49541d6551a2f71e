import RubyDoc.Store
import RubyDoc.Field
import RubyDoc.Node.Source
import RubyDoc.Reading

/-!
# Records and actions

The records of a run are the store, the ledger of fields, the docstrings that
signatures gave to nodes of the source at hand, and the log. An action changes
the records and may end in a fault; what it changed before stays changed.
-/

namespace RubyDoc

/-- What a run has recorded so far. -/
structure Records where
  /-- The documented objects. -/
  store : Store := {}
  /-- The struct fields. -/
  fields : Ledger := {}
  /-- Docstrings given to nodes of the source at hand, the latest first. -/
  overridden : List (NodeKey × String) := []
  /-- The log. -/
  log : Log := []

/-- A change of the records that may end in a fault. -/
abbrev Action := ExceptT Fault (StateM Records)

namespace Action

/-- Make one log entry. -/
def note (level : Level) (channel : Channel) (message : String) : Action Unit :=
  modify fun r => { r with log := r.log ++ [{ level, channel, message }] }

/-- Take over a result that may be a fault. -/
def ofExcept {α : Type} : Except Fault α → Action α
  | .ok a => pure a
  | .error fault => throw fault

/-- Take over a reading with what it logs. -/
def ofReading {α : Type} (reading : Reading α) : Action α := do
  let r ← get
  let (result, log) := reading.runWith r.log
  set { r with log }
  ofExcept result

/-- Look something up in the store. -/
def inStore {α : Type} (f : Store → α) : Action α := do return f (← get).store

/-- Change the store. -/
def changeStore (f : Store → Store) : Action Unit :=
  modify fun r => { r with store := f r.store }

/-- Run an action. A fault is caught, logged as a warning, and done with. -/
def guarded (channel : Channel) (message : String) (action : Action Unit) : Action Unit :=
  tryCatch action fun _ => note .warning channel message

/-- Register an entity that is not registered yet, or an edited one again. If
it takes the place of another entity this is logged. -/
def register (e : Entity) (known : Bool := false) : Action Unit := do
  let r ← get
  let attached ← ofExcept (r.store.attach e)
  if !known && r.store.contains e.path then
    note .debug .store ("Replacing documentation object " ++ e.path)
  changeStore fun _ => attached

/-- Change a method, in the store too if it is registered. -/
def revise (method : Entity) (f : Entity → Entity) : Action Entity := do
  changeStore fun s => s.editMethod method.path f
  return f method

/-- The namespace at a path. Namespaces that are missing on the way to it are
made as placeholders, the outermost first. -/
def ensureNamespace (path : String) : Action Entity := do
  match ← inStore fun s => s.namespaceAt path with
  | .ok (e, _) => return e
  | .error _ =>
    if _ : path = "" then throw .endless
    else
      let parts := ObjectPath.split path
      let _ ← ensureNamespace parts.1
      note .debug .store ("Creating placeholder module " ++ path)
      let placeholder := Entity.placeholder parts.1 parts.2
      register placeholder
      return placeholder
termination_by path.length
decreasing_by exact ObjectPath.length_split_fst path ‹_›

end Action

end RubyDoc
