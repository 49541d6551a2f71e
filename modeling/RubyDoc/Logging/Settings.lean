import RubyDoc.Logging.Sections

/-!
# Logging settings

Settings say in sections which formats, filters and handlers there are, and
which of them the loggers have. The sections are followed in order and loggers
change one by one, so that what came before a setting that cannot be followed
stays. Loggers that are not named, nor below a named one, are disabled unless
the settings say otherwise.
-/

namespace RubyDoc.Logging

open RubyDoc.Text

/-- Add handlers until one is not known. The flag says that all were. -/
def Logger.addHandlers (sections : Sections) (l : Logger) : List Value → Logger × Bool
  | [] => (l, true)
  | key :: rest =>
    match underKey? sections.handlers key with
    | some h => (l.addHandler h).addHandlers sections rest
    | none => (l, false)

/-- Add filters until one is not known. The flag says that all were. -/
def Logger.addFilters (sections : Sections) (l : Logger) : List Value → Logger × Bool
  | [] => (l, true)
  | key :: rest =>
    match underKey? sections.filters key with
    | some f => ({ l with filters := l.filters ++ [f] }).addFilters sections rest
    | none => (l, false)

/-- Change a logger as its entries say, up to one that cannot be followed. The
flag says that all were. -/
def Logger.follow (sections : Sections) (levelOnly : Bool) (config : Value) (l : Logger) :
    Logger × Bool :=
  match config with
  | .map entries =>
    match statedLevel? entries with
    | none => (l, false)
    | some level =>
      let l := { l with level := level.getD l.level }
      if levelOnly then (l, true)
      else
        let l := { l with handlers := [] }
        match listedOrNone? (stated? entries "handlers") with
        | none => (l, false)
        | some keys =>
          let (l, complete) := l.addHandlers sections keys
          if !complete then (l, false)
          else match listedOrNone? (stated? entries "filters") with
            | none => (l, false)
            | some keys => l.addFilters sections keys
  | _ => (l, false)

/-- The name of the logger that a key stands for. -/
def loggerName? : Value → Option String
  | .text s => some s
  | key => if key.isEmptyLike then some "" else none

/-- Change one logger. A logger that could be changed is enabled. -/
def followLogger (sections : Sections) (levelOnly : Bool) (key config : Value) : Step Unit := do
  match loggerName? key with
  | none => throw .badValue
  | some name =>
    let ls ← get
    let (l, complete) := (ls.get name).follow sections levelOnly config
    if complete then
      let propagates := match config with
        | .map entries => (nonNull? entries "propagate").elim l.propagates fun v => !v.isEmptyLike
        | _ => l.propagates
      set (ls.put name { l with disabled := false, propagates })
    else do
      set (ls.put name l)
      throw .badValue

/-- Change loggers one by one. -/
def followLoggers (sections : Sections) (levelOnly : Bool) : List (Value × Value) → Step Unit
  | [] => return
  | (key, config) :: rest => do
    followLogger sections levelOnly key config
    followLoggers sections levelOnly rest

/-- What becomes of a logger that was there before: one below a named logger
starts anew, any other is disabled or enabled. -/
def settleExisting (named : List String) (disable : Bool) (name : String) (l : Logger) : Logger :=
  if named.contains name then l
  else if named.any fun n => beginsWith (n ++ ".") name then
    { l with level := {}, handlers := [], propagates := true }
  else { l with disabled := disable }

/-- Change the root if the settings say something of it. -/
def followRoot (sections : Sections) (levelOnly : Bool) (entries : List (Value × Value)) :
    Step Unit := do
  match stated? entries "root" with
  | none => return
  | some config =>
    let ls ← get
    let (root, complete) := ls.root.follow sections levelOnly config
    set { ls with root }
    if !complete then throw .badValue

/-- Whether a value is the number of the one version there is. -/
def isVersionOne : Value → Bool
  | .int n => n == 1
  | .bool b => b
  | .real x => x.toInt? == some 1
  | _ => false

/-- Follow all settings. Incremental ones change levels only, and may name no
handlers, for none is known by name beforehand. -/
def follow (w : Workspace) (entries : List (Value × Value)) : Step Unit := do
  if !((Value.under entries "version").any isVersionOne) then throw .badValue
  if (stated? entries "incremental").isSome then
    if !(← (sectionEntries entries "handlers" : Except Problem _)).isEmpty then throw .badValue
    followLoggers {} true (← sectionEntries entries "loggers")
    followRoot {} true entries
  else
    let before := (← get).named.map Prod.fst
    let sections ← readSections w entries
    modify fun ls => { ls with handlers := sections.handlers, waiting := [] }
    let loggers ← sectionEntries entries "loggers"
    followLoggers sections false loggers
    let disable := match Value.under entries "disable_existing_loggers" with
      | none => true
      | some v => !v.isEmptyLike
    let named := loggers.filterMap fun e => loggerName? e.1
    modify fun ls => { ls with
      named := ls.named.map fun e =>
        if before.contains e.1 then (e.1, settleExisting named disable e.1 e.2) else e }
    followRoot sections false entries

end RubyDoc.Logging
