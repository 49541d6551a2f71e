import RubyDoc.Logging.Levels
import RubyDoc.Logging.Settings

/-!
# Setting up logging

Logging is set up from a file, or from the settings that come with the program,
with the level that is asked for in place of theirs. If the file, the level or
the settings are no good, all records go to the error stream in one long format
instead, and a warning says so. Some requests fail even then; `setUp` tells
which.
-/

namespace RubyDoc.Logging

/-- Where the settings come from. -/
inductive Origin where
  /-- The settings that come with the program. -/
  | packaged
  /-- A file. -/
  | file (path : PathName)
deriving DecidableEq

/-- The path of an origin as it is shown. -/
def Origin.path : Origin → String
  | packaged => "<packaged>"
  | file path => path.toText

/-- How logging is to be set up. -/
structure Request where
  /-- Where the settings come from. -/
  origin : Origin := .packaged
  /-- The level that is asked for; empty for none. -/
  level : String := ""
  /-- Whether settings are to be left alone. -/
  isBasic : Bool := false
deriving DecidableEq

/-- The format of the packaged handler. -/
def briefFormat : Format := { text := "%(levelname)s %(name)s: %(message)s" }

/-- The long format, with the time of a record. -/
def longFormat : Format := { text := "%(asctime)s - %(name)s - %(levelname)s - %(message)s" }

/-- A map with text keys. -/
def valueOf (entries : List (String × Value)) : Value :=
  .map (entries.map fun e => (.text e.1, e.2))

/-- The settings that come with the program. -/
def packagedSettings : Yaml.Document := .ofValue <| valueOf
  [("version", .int 1),
    ("disable_existing_loggers", .bool false),
    ("formatters", valueOf
      [("standard", valueOf [("format", .text longFormat.text),
        ("datefmt", .text "%Y-%m-%d %H:%M:%S")]),
      ("brief", valueOf [("format", .text briefFormat.text)])]),
    ("handlers", valueOf
      [("console", valueOf [("class", .text "logging.StreamHandler"),
        ("level", .text "WARNING"), ("formatter", .text "brief"),
        ("stream", .text "ext://sys.stderr")])]),
    ("loggers", valueOf
      [("sorbet_docs", valueOf [("level", .text "INFO"),
        ("handlers", .list [.text "console"]), ("propagate", .bool false)])]),
    ("root", valueOf [("level", .text "WARNING"), ("handlers", .list [.text "console"])])]

/-- The document of an origin, which is a map. -/
def Origin.document (w : Workspace) (o : Origin) (load : Yaml.Load := Yaml.load) :
    Except DocumentFault Yaml.Document :=
  match o with
  | packaged => .ok packagedSettings
  | file path => readMap w path.toText load

/-- The settings of an origin. -/
def Origin.settings (w : Workspace) (o : Origin) (load : Yaml.Load := Yaml.load) :
    Except DocumentFault (List (Value × Value)) :=
  (o.document w load).map Yaml.Document.entries

/-- Capital letters for a small one of the English alphabet. The dotless i and the
long s have such capitals too, and so have an s and a t that are one character. -/
def capital (c : Char) : List Char :=
  if c == 'ı' then ['I'] else if c == 'ſ' then ['S']
  else if c == 'ﬅ' || c == 'ﬆ' then ['S', 'T'] else [c.toUpper]

/-- A word in capitals. -/
def capitals (word : String) : String := String.ofList (word.toList.flatMap capital)

/-- Whether a problem is met by writing in the long format. -/
def Problem.isContained : Problem → Bool
  | document (.noValue fault) => fault == .badValue || fault == .unknownWord
  | document _ | unknownLevel _ | badValue | badShape => true
  | handlersNotMap | outOfRange | changedInUse | foreignWord _ | unwritable => false

/-- The level that a word stands for without settings. Unknown words stand for
the level of informations, but two words name settings of other kinds. -/
def basicLevel (word : String) : Except Problem Level :=
  match capitals word with
  | "BASIC_FORMAT" => .error (.foreignWord false)
  | "_STYLES" => .error (.foreignWord true)
  | name => .ok ((Level.ofName? name).getD .info)

/-- Let the root write all records in the long format. The handlers that it had
are taken away. -/
def writeLong (word : String) : Step Unit := do
  let removed := (← get).root.handlers
  modify fun ls => { ls with root := { ls.root with handlers := [] } }
  removed.forM Handler.close
  let level ← basicLevel word
  modify fun ls => { ls with
    root := { ls.root with level := .ofLevel level, handlers := [{ format := some longFormat }] } }

/-- The word for a level that is asked for, or the one that stands for none. -/
def wordOr (word : String) : String := if word == "" then "INFO" else word

/-- Go on after a problem, if that can be done. -/
def relent (word : String) (problem : Problem) : Step Unit := do
  if problem.isContained then
    writeLong (wordOr word)
    Loggers.write
      { level := Level.warning.rank, logger := Channel.logging.name
        message := "Failed to configure logging from file (" ++ problem.message ++
          "), using basic console logging at " ++ wordOr word ++ " level" }
  else throw problem

/-- The settings of a request and its level in capitals, which has to be one. -/
def prepare (w : Workspace) (r : Request) (load : Yaml.Load := Yaml.load) :
    Except Problem (Yaml.Document × String) :=
  match r.origin.document w load with
  | .error fault => .error (.document fault)
  | .ok d =>
    if r.level == "" then .ok (d, "")
    else if (Level.ofName? (capitals r.level)).isSome then .ok (d, capitals r.level)
    else .error (.unknownLevel r.level)

/-- Follow settings with a level in place of theirs, unless it is empty. -/
def followWithLevel (w : Workspace) (d : Yaml.Document) (word : String) : Step Unit := do
  if word == "" then follow w d.entries
  else follow w (← overrideLevel word d).entries

/-- Say that logging is set up. -/
def announce (origin : Origin) : Step Unit :=
  Loggers.write
    { level := Level.debug.rank, logger := Channel.logging.name
      message := "Logging configured from: " ++ origin.path
      pattern := "Logging configured from: %s" }

/-- Set up logging. -/
def setUp (w : Workspace) (r : Request) (load : Yaml.Load := Yaml.load) : Step Unit :=
  if r.isBasic then writeLong (wordOr r.level)
  else
    match prepare w r load with
    | .error problem => relent r.level problem
    | .ok (d, word) =>
      tryCatch (do followWithLevel w d word; announce r.origin) (relent word)

end RubyDoc.Logging
