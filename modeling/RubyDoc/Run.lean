import RubyDoc.Walk.Basic
import RubyDoc.Workspace

/-!
# Runs

A run documents sources one after the other into the same records, so that a
class opened in several files gathers what all of them say. Files that cannot
be read or parsed, and paths that lead nowhere, are noted as failed, and the
run goes on after them.
-/

namespace RubyDoc

/-- What ends the processing of one source. -/
inductive RunFault where
  /-- A file cannot be read. -/
  | unreadable (path : String) (cause : Cause)
  /-- A path that cannot even be looked for. -/
  | badPath (cause : Cause)
  /-- A source cannot be parsed. -/
  | unparsed (path : String)
  /-- A fault that no statement caught. -/
  | uncaught (fault : Fault)
deriving DecidableEq

namespace RunFault

/-- The wording of a fault. -/
def message : RunFault → String
  | unreadable path cause => "Failed to read " ++ path ++ ": " ++ cause.label
  | badPath cause => cause.label
  | unparsed path => "Failed to parse " ++ path ++ ": " ++ Cause.badValue.label
  | uncaught fault => fault.message

end RunFault

/-- The state of a run. -/
structure Run where
  /-- Its settings. -/
  config : Config := {}
  /-- What it has recorded. -/
  records : Records := {}
  /-- The files documented so far. -/
  processed : List String := []
  /-- The files that could not be read or parsed. -/
  failed : List String := []

/-- A step of a run. -/
abbrev RunAction := ExceptT RunFault (StateM Run)

namespace Run

/-- A run into a store that is given. A store without objects counts as none. -/
def start (config : Config) (given : Option Store) : Run :=
  { config
    records := { store := match given with
      | some s => if s.size == 0 then {} else s
      | none => {} } }

/-- Whether a run has a store of its own. -/
def hasOwnStore (given : Option Store) : Bool := given.all fun s => s.size == 0

/-- Take an action on the records. -/
def act {α : Type} (action : Action α) : RunAction α := do
  let run ← get
  let (result, records) := action.run.run run.records
  set { run with records }
  match result with
  | .ok a => return a
  | .error fault => throw (.uncaught fault)

/-- Make one log entry. -/
def note (level : Level) (message : String) : RunAction Unit :=
  act (Action.note level .processor message)

/-- Document one source. -/
def processSource (text path : String) (outcome : ParseOutcome) : RunAction Unit := do
  match outcome with
  | .rejected => throw (.unparsed path)
  | .tree root hasErrors =>
    if hasErrors then
      act (Action.note .warning .parser
        ("Syntax errors in " ++ path ++ ", documenting what could be parsed"))
    let run ← get
    act (modify fun r => { r with overridden := [] })
    act (walkSource run.config (Source.ofTree root text path hasErrors))
    modify fun run => { run with processed := run.processed ++ [path] }

/-- Document one file. The result says whether it was small enough. -/
def processFile (w : Workspace) (p : PathName) : RunAction Bool := do
  let path := p.toText
  match w.resolve path with
  | .error .nulInPath => throw (.badPath .nulInPath)
  | .error cause => throw (.unreadable path cause)
  | .ok (_, .directory) => throw (.unreadable path .isDirectory)
  | .ok (_, .file content parse) =>
    let run ← get
    if run.config.maxFileSize < content.size then
      note .warning
        ("Skipping large file: " ++ path ++ " (" ++ toString content.size ++ " bytes)")
      return false
    else
      match Workspace.decodeLines content with
      | .error cause => throw (.unreadable path cause)
      | .ok text =>
        processSource text path (parse text)
        return true

/-- Document one file of many. A file that fails is noted. -/
def processCollected (w : Workspace) (p : PathName) : RunAction Unit :=
  tryCatch (do let _ ← processFile w p) fun fault =>
    match fault with
    | .uncaught _ | .badPath _ => throw fault
    | _ => do
      note .error ("Failed to document " ++ p.toText ++ ": " ++ fault.message)
      modify fun run => { run with failed := run.failed ++ [p.toText] }

/-- The supported files of a directory, in order. -/
def filesBelow (w : Workspace) (config : Config) (p : PathName) (directory : List String) :
    List PathName :=
  ((w.filesIn directory).map p.append |>.filter fun f => f.isSupported config.extensions)
    |>.mergeSort PathName.le

/-- Whether the path of something inside a directory is longer than paths can be. -/
def isTooDeep (w : Workspace) (p : PathName) (directory : List String) : Bool :=
  (w.allIn directory).any fun inner => decide (4095 < (p.append inner).toText.utf8ByteSize)

/-- The files that a path stands for. A path that is too long, be it the one of something
inside a directory, is not caught. -/
def collectFiles (w : Workspace) (p : PathName) : RunAction (List PathName) := do
  match w.resolve p.toText with
  | .ok (directory, .directory) =>
    if isTooDeep w p directory then throw (.badPath .nameTooLong)
    else return filesBelow w (← get).config p directory
  | .ok (_, .file _ _) => return [p]
  | .error .nameTooLong => throw (.badPath .nameTooLong)
  | .error _ =>
    note .error ("Path does not exist: " ++ p.toText)
    modify fun run => { run with failed := run.failed ++ [p.toText] }
    return []

/-- Document a list of collected files. -/
def processAllCollected (w : Workspace) : List PathName → RunAction Unit
  | [] => return
  | p :: rest => do
    processCollected w p
    processAllCollected w rest

/-- Document the files that each path stands for. -/
def processEach (w : Workspace) : List PathName → RunAction Unit
  | [] => return
  | p :: rest => do
    processAllCollected w (← collectFiles w p)
    processEach w rest

/-- Document files and directories. -/
def processPaths (w : Workspace) (paths : List PathName) : RunAction Unit := do
  processEach w paths
  let run ← get
  note .info
    ("Documented " ++ toString run.processed.length ++ " file(s), " ++
      toString run.records.store.size ++ " object(s), " ++ toString run.failed.length ++
      " failure(s)")

/-- Warn about each namespace of a list. -/
def warnUnsynthesised : List String → RunAction Unit
  | [] => return
  | home :: rest => do
    note .warning
      ("Fields declared in " ++ shownHome home ++ " were not folded into a constructor")
    warnUnsynthesised rest

/-- The namespaces with fields that never reached a constructor. -/
def finish : RunAction (List String) := do
  let homes := (← get).records.fields.unsynthesised
  warnUnsynthesised homes
  return homes

end Run

end RubyDoc
