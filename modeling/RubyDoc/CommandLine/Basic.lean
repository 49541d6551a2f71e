import RubyDoc.CommandLine.Arguments
import RubyDoc.Config.Reader
import RubyDoc.Logging.Setup
import RubyDoc.Report.Console
import RubyDoc.Run

/-!
# Commands

A command sets up logging, reads the configuration, documents the files that
its paths lead to, and prints a report. A command that fails for a reason of
its own prints a frame with the reason and ends with status one, and wrong
arguments end with status two. What no command foresees ends it with status one
and prints nothing more. How YAML is read and which items can be printed is left
open: neither is the program's own work.
-/

namespace RubyDoc.CommandLine

/-- Why a command fails. -/
inductive CommandFault where
  /-- The configuration is refused. -/
  | badConfig (fault : ConfigFault)
  /-- No file was documented. -/
  | nothingDocumented (paths : List PathName)
  /-- There is no such object. -/
  | noObject (path : String)
deriving DecidableEq

/-- The wording of a fault. -/
def CommandFault.message : CommandFault → String
  | badConfig fault => "Invalid configuration: " ++ fault.message
  | nothingDocumented paths =>
    "No Ruby files documented from: " ++ String.intercalate ", " (paths.map PathName.toText)
  | noObject path => "Object '" ++ path ++ "' not found"

/-- What the program leaves to others. -/
structure Libraries where
  /-- How the document in a text is read. -/
  load : Yaml.Load := Yaml.load
  /-- What prints items. -/
  console : Report.Console := {}

/-- What no command foresees. -/
inductive Escape where
  /-- Logging cannot be set up. -/
  | logging (problem : Logging.Problem)
  /-- The configuration is no text, or a scalar in it has no value. -/
  | config (fault : ConfigFault)
  /-- A source breaks off the run. -/
  | run (fault : RunFault)
  /-- The store cannot be shown. -/
  | report (fault : Fault)
deriving DecidableEq

/-- The wording of what no command foresees. -/
def Escape.message : Escape → String
  | logging problem => problem.message
  | config fault => fault.message
  | run fault => fault.message
  | report fault => fault.message

/-- How a command comes to its end without a report. -/
inductive Ending where
  | failed (fault : CommandFault)
  | escaped (escape : Escape)
deriving DecidableEq

/-- The work of a command: a log, and a result or another ending. -/
abbrev Work := ExceptT Ending (StateM Log)

namespace Command

/-- The settings of a run. -/
def readConfig (w : Workspace) (c : Command) (load : Yaml.Load := Yaml.load) : Work Config :=
  match c.config with
  | none => return {}
  | some path =>
    match Config.ofFile w path.toText load with
    | .ok config => return config
    | .error fault =>
      throw (if fault.isConfigError then .failed (.badConfig fault) else .escaped (.config fault))

/-- Document all files that the paths lead to. At least one has to be. -/
def document (w : Workspace) (c : Command) (load : Yaml.Load := Yaml.load) : Work Store := do
  let config ← c.readConfig w load
  let steps : RunAction (List String) := do
    Run.processPaths w c.paths
    Run.finish
  let (result, run) := steps.run.run (Run.start config none)
  modify fun log => log ++ run.records.log
  match result with
  | .error fault => throw (.escaped (.run fault))
  | .ok _ =>
    if run.processed.isEmpty then throw (.failed (.nothingDocumented c.paths))
    return run.records.store

/-- The report that a command is to print. -/
def report (w : Workspace) (c : Command) (load : Yaml.Load := Yaml.load) :
    Work (List Report.Item) := do
  let store ← c.document w load
  match c.goal with
  | .list isVerbose =>
    match Report.ofStore store isVerbose with
    | .ok items => return items
    | .error fault => throw (.escaped (.report fault))
  | .detail object =>
    match store.find? object with
    | some e => return Report.ofEntity e
    | none => throw (.failed (.noObject object))

/-- The level that log lines are written from: all of them for verbose lists. -/
def effectiveLevel (c : Command) : String :=
  match c.goal with
  | .list true => "DEBUG"
  | _ => c.level

/-- What a command says when it fails. -/
def failureTitle (c : Command) : String :=
  match c.goal with
  | .list _ => "Documentation failed"
  | .detail _ => "Show failed"

end Command

/-- What the program leaves behind. -/
structure Outcome where
  /-- The exit status. -/
  status : Nat
  /-- What was printed. -/
  printed : List Report.Item := []
  /-- The lines that were logged. -/
  logged : List String := []
  /-- What ended it, if no command foresees it. -/
  escape : Option Escape := none
  /-- The item that ended it because it could not be printed. -/
  refused : Option Report.Item := none

/-- The frame that tells of a fault. -/
def failurePanel (c : Command) (fault : CommandFault) : Report.Item :=
  .panel (.text ("[red]" ++ Report.escape fault.message ++ "[/red]"))
    ("❌ " ++ c.failureTitle) "red"

/-- The log entry that tells of a fault. -/
def failureEntry (c : Command) (fault : CommandFault) : Entry :=
  { level := .error, channel := .commandLine, message := c.failureTitle ++ ": " ++ fault.message }

/-- The lines that are logged, or the problem that is met with that. -/
def logLines (w : Workspace) (c : Command) (log : Log) (load : Yaml.Load := Yaml.load) :
    Except Logging.Problem (List String) :=
  let steps : Logging.Step Unit := do
    Logging.setUp w { level := c.effectiveLevel } load
    Logging.Loggers.writeAll log
  let (result, loggers) := steps.run.run (Logging.Loggers.existing [])
  result.map fun _ => loggers.written

/-- What is left behind where items are printed last. -/
def Outcome.ofPrinted (status : Nat) (p : Report.Printed) : Outcome :=
  { status := if p.refused.isSome then 1 else status, printed := p.items, refused := p.refused }

/-- What is left behind by a command with a log. -/
def Outcome.withLog (w : Workspace) (c : Command) (log : Log) (outcome : Outcome)
    (load : Yaml.Load := Yaml.load) : Outcome :=
  match logLines w c log load with
  | .ok logged => { outcome with logged }
  | .error problem => { status := 1, escape := some (.logging problem) }

/-- Perform a command. -/
def Command.perform (w : Workspace) (c : Command) (libraries : Libraries := {}) : Outcome :=
  let (result, log) := (c.report w libraries.load).run.run []
  let printed (status : Nat) (items : List Report.Item) :=
    Outcome.ofPrinted status (libraries.console.print items)
  match result with
  | .ok items => (printed 0 items).withLog w c log libraries.load
  | .error (.failed fault) =>
    (printed 1 [failurePanel c fault]).withLog w c (log ++ [failureEntry c fault]) libraries.load
  | .error (.escaped escape) =>
    Outcome.withLog w c log { status := 1, escape := some escape } libraries.load

/-- Do what the arguments of the program ask for. -/
def run (w : Workspace) (arguments : List String) (libraries : Libraries := {}) : Outcome :=
  match read w arguments with
  | .error _ => { status := 2 }
  | .ok .help => { status := 0 }
  | .ok (.command c) => c.perform w libraries

end RubyDoc.CommandLine
