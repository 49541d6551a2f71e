import RubyDoc.Workspace

/-!
# Command line arguments

The program has two commands: one lists the documented objects, one shows one
of them. Options have a long and mostly a short spelling; a value is the next
argument, or is attached, behind an equals sign for long spellings. Options and
paths may be mixed, and behind two dashes all is paths. Of an option given
twice the last counts. Paths have to lead somewhere, and the configuration to a
file.
-/

namespace RubyDoc.CommandLine

open RubyDoc.Text

/-- The options. -/
inductive Flag where
  | config | logLevel | object | verbose | help
deriving DecidableEq

/-- What a command is for. -/
inductive CommandName where
  | extract | display
deriving DecidableEq

/-- What is wrong with the arguments. -/
inductive UsageFault where
  /-- There is no command. -/
  | noCommand
  /-- There is no such command. -/
  | unknownCommand (name : String)
  /-- There is no such option. -/
  | unknownOption (name : String)
  /-- An option lacks its value. -/
  | missingValue (flag : Flag)
  /-- An option has a value and takes none. -/
  | unexpectedValue (flag : Flag)
  /-- An option that has to be given is not. -/
  | missingOption (flag : Flag)
  /-- No path is given. -/
  | noPath
  /-- A path that leads nowhere. -/
  | noSuchPath (path : String)
  /-- The configuration is a directory. -/
  | isDirectory (path : String)
deriving DecidableEq

namespace Flag

/-- Whether an option takes a value. -/
def takesValue : Flag → Bool
  | config | logLevel | object => true
  | verbose | help => false

/-- The long spelling of an option. -/
def long : Flag → String
  | config => "--config"
  | logLevel => "--log-level"
  | object => "--object"
  | verbose => "--verbose"
  | help => "--help"

/-- The letter of an option's short spelling. -/
def short? : Flag → Option Char
  | config => some 'c'
  | object => some 'o'
  | verbose => some 'v'
  | logLevel | help => none

end Flag

namespace CommandName

/-- The name of a command. -/
def name : CommandName → String
  | extract => "extract"
  | display => "show"

/-- The command with a name. -/
def ofName? (name : String) : Option CommandName := [extract, display].find? fun c => c.name == name

/-- The options of a command. -/
def flags : CommandName → List Flag
  | extract => [.config, .verbose, .logLevel, .help]
  | display => [.object, .config, .logLevel, .help]

end CommandName

/-- One argument as it is read. -/
inductive Token where
  /-- A path, or the name of a command. -/
  | word (text : String)
  /-- Two dashes. -/
  | endOfOptions
  /-- Options with their values, and at the end maybe one that waits for its
  value. -/
  | options (given : List (Flag × String)) (waiting : Option Flag)
deriving DecidableEq

/-- Read the letters behind a single dash. -/
def readLetters (flags : List Flag) : List Char → Except UsageFault Token
  | [] => .ok (.options [] none)
  | c :: cs =>
    match flags.find? fun f => f.short? == some c with
    | none => .error (.unknownOption (String.ofList ['-', c]))
    | some f =>
      if f.takesValue then
        .ok (if cs.isEmpty then .options [] (some f) else .options [(f, String.ofList cs)] none)
      else
        match readLetters flags cs with
        | .ok (.options given waiting) => .ok (.options ((f, "") :: given) waiting)
        | other => other

/-- Read a long option with the value attached to it, if there is one. -/
def readLong (f : Flag) (attached : Option String) : Except UsageFault Token :=
  match f.takesValue, attached with
  | true, none => .ok (.options [] (some f))
  | true, some value => .ok (.options [(f, value)] none)
  | false, none => .ok (.options [(f, "")] none)
  | false, some _ => .error (.unexpectedValue f)

/-- Read one argument where some options are known. -/
def readToken (flags : List Flag) (argument : String) : Except UsageFault Token :=
  match argument.toList with
  | ['-', '-'] => .ok .endOfOptions
  | '-' :: c :: cs =>
    let all := '-' :: c :: cs
    let name := String.ofList (all.takeWhile (· != '='))
    let attached :=
      if all.contains '=' then some (String.ofList ((all.dropWhile (· != '=')).drop 1)) else none
    match flags.find? fun f => f.long == name with
    | some f => readLong f attached
    | none => if c == '-' then .error (.unknownOption name) else readLetters flags (c :: cs)
  | _ => .ok (.word argument)

/-- What some arguments say. -/
structure Given where
  /-- The paths in order. -/
  paths : List String := []
  /-- The options in order with their values. -/
  options : List (Flag × String) := []
deriving DecidableEq

/-- Read the arguments of a command; an option may wait for its value. -/
def readGiven (flags : List Flag) : Option Flag → Given → List String → Except UsageFault Given
  | none, g, [] => .ok g
  | some f, _, [] => .error (.missingValue f)
  | some f, g, value :: rest =>
    readGiven flags none { g with options := g.options ++ [(f, value)] } rest
  | none, g, argument :: rest =>
    match readToken flags argument with
    | .error fault => .error fault
    | .ok .endOfOptions => .ok { g with paths := g.paths ++ rest }
    | .ok (.word path) => readGiven flags none { g with paths := g.paths ++ [path] } rest
    | .ok (.options given waiting) =>
      readGiven flags waiting { g with options := g.options ++ given } rest

namespace Given

/-- The value of an option; the last one counts. -/
def value? (g : Given) (f : Flag) : Option String := g.options.reverse.lookup f

/-- Whether an option is given. -/
def has (g : Given) (f : Flag) : Bool := (g.value? f).isSome

end Given

/-- What a command is to do. -/
inductive Goal where
  /-- List the documented objects, maybe with the first line of what is said of
  them. -/
  | list (isVerbose : Bool)
  /-- Show the object at a path. -/
  | detail (object : String)
deriving DecidableEq

/-- A command. -/
structure Command where
  /-- The files and directories to document. -/
  paths : List PathName
  /-- The file with the configuration. -/
  config : Option PathName
  /-- The level that log lines are wanted from. -/
  level : String
  /-- What to do. -/
  goal : Goal
deriving DecidableEq

/-- What the arguments ask for. -/
inductive Invocation where
  /-- An explanation of the arguments. -/
  | help
  /-- A command. -/
  | command (c : Command)
deriving DecidableEq

/-- Check that a path leads somewhere. Components that say nothing are left out
before it is looked for. -/
def checkPath (w : Workspace) (path : String) : Except UsageFault PathName :=
  let p := PathName.ofText path
  match w.resolve p.toText with
  | .ok _ => .ok p
  | .error _ => .error (.noSuchPath path)

/-- Check that a path leads to a file. -/
def checkFile (w : Workspace) (path : String) : Except UsageFault PathName := do
  let p ← checkPath w path
  if w.isDirectory p.toText then throw (.isDirectory path)
  return p

/-- The goal of a command. -/
def goalOf (name : CommandName) (g : Given) : Except UsageFault Goal :=
  match name with
  | .extract => .ok (.list (g.has .verbose))
  | .display => (g.value? .object).elim (.error (.missingOption .object)) fun o => .ok (.detail o)

/-- The command that its arguments give. -/
def commandOf (w : Workspace) (name : CommandName) (g : Given) : Except UsageFault Command := do
  if g.paths.isEmpty then throw .noPath
  let paths ← g.paths.mapM (checkPath w)
  let config ← match g.value? .config with
    | some path => (checkFile w path).map some
    | none => .ok none
  return { paths, config, level := (g.value? .logLevel).getD "INFO", goal := ← goalOf name g }

/-- Read the arguments behind the name of a command. An explanation that is
asked for comes before anything that the other arguments lack. -/
def readCommand (w : Workspace) (name : CommandName) (arguments : List String) :
    Except UsageFault Invocation := do
  let g ← readGiven name.flags none {} arguments
  if g.has .help then return .help
  return .command (← commandOf w name g)

/-- Read a command by its name. -/
def readNamed (w : Workspace) : List String → Except UsageFault Invocation
  | [] => .error .noCommand
  | name :: rest =>
    match CommandName.ofName? name with
    | some c => readCommand w c rest
    | none => .error (.unknownCommand name)

/-- Read all arguments. In front of the command an explanation can be asked
for; the flag says that it was. -/
def readFrom (w : Workspace) (helpAsked : Bool) : List String → Except UsageFault Invocation
  | [] => if helpAsked then .ok .help else .error .noCommand
  | argument :: rest =>
    match readToken [.help] argument with
    | .error fault => .error fault
    | .ok .endOfOptions => if helpAsked then .ok .help else readNamed w rest
    | .ok (.word name) => if helpAsked then .ok .help else readNamed w (name :: rest)
    | .ok (.options _ _) => readFrom w true rest

/-- What the arguments of the program ask for. -/
def read (w : Workspace) (arguments : List String) : Except UsageFault Invocation :=
  readFrom w false arguments

end RubyDoc.CommandLine
