import RubyDoc.Logging.Logger

/-!
# Sections of logging settings

The settings name formats, filters and handlers in sections of their own, each
under a key by which other sections refer to it. Every kind of handler has
settings that it needs and others that it may have, and no more. A handler that
hands records on to another is made when that one is there.
-/

namespace RubyDoc.Logging

open RubyDoc.Text

/-- The formats, filters and handlers of some settings. -/
structure Sections where
  /-- The formats under their keys. -/
  formats : List (Value × Format) := []
  /-- The names that filters let through, under their keys. -/
  filters : List (Value × String) := []
  /-- The handlers under their keys. -/
  handlers : List (Value × Handler) := []

/-- What stands under a key. -/
def underKey? {α : Type} (entries : List (Value × α)) (key : Value) : Option α :=
  (entries.find? fun e => e.1.isSameKey key).map Prod.snd

/-- A setting that counts only if it is more than nothing. -/
def stated? (entries : List (Value × Value)) (key : String) : Option Value :=
  (Value.under entries key).filter fun v => !v.isEmptyLike

/-- A setting that counts unless it is null. -/
def nonNull? (entries : List (Value × Value)) (key : String) : Option Value :=
  match Value.under entries key with
  | some .null => none
  | other => other

/-- The values that a setting lists: items, characters, bytes or keys. -/
def listed? : Value → Option (List Value)
  | .list items | .set items => some items
  | .text s => some (s.toList.map fun c => .text (String.singleton c))
  | .bytes content => some (content.map fun b => .int b.toNat)
  | .map entries => some (entries.map Prod.fst)
  | _ => none

/-- The values that a setting lists; none if it says nothing. -/
def listedOrNone? : Option Value → Option (List Value)
  | none => some []
  | some v => listed? v

/-- What begins a text that stands for a thing outside the settings. -/
def outsideMark : String := "ext://"

/-- The name of the thing outside the settings that a text stands for. -/
def outsideName? (s : String) : Option String :=
  if beginsWith outsideMark s then some (String.ofList (s.toList.drop outsideMark.length))
  else none

/-- What begins the names of the things of logging. -/
def loggingMark : String := "logging."

/-- The number that a setting gives as a level: a number, a truth value, the name
of a level in capitals, or a name that stands for a level outside. -/
def levelOf? : Value → Option Bound
  | .int n => some { rank := n }
  | .bool b => some { rank := if b then 1 else 0, isTruth := true }
  | .text s =>
    let name := match outsideName? s with
      | none => some s
      | some outside =>
        if beginsWith loggingMark outside then
          some (String.ofList (outside.toList.drop loggingMark.length))
        else none
    (name.bind Level.ofName?).map .ofLevel
  | _ => none

/-- The level that a setting gives, if it gives one. -/
def statedLevel? (entries : List (Value × Value)) : Option (Option Bound) :=
  match nonNull? entries "level" with
  | none => some none
  | some v => (levelOf? v).map some

/-- Whether further attributes, if there are any, come in a map. -/
def hasGoodAttributes (entries : List (Value × Value)) : Bool :=
  match stated? entries "." with
  | none | some (.map _) => true
  | some _ => false

/-- Whether all keys are among some names. -/
def hasOnly (names : List String) (entries : List (Value × Value)) : Bool :=
  entries.all fun e => names.any fun name => e.1 == .text name

/-- The name of the maker that makes what an entry is about, if it names one. -/
def maker? (entries : List (Value × Value)) : Option Value := Value.under entries "()"

/-- Whether a value names a thing, directly or as one outside the settings. -/
def names (name : String) (v : Value) : Bool :=
  v == .text name || v == .text (outsideMark ++ name)

/-- Read the parts of a format. -/
def formatOf? (text style timeText validate : Option Value) : Option Format := do
  let style ← match style with
    | none => some Style.percent
    | some (.text s) => Style.ofName? s
    | some _ => none
  let text ← match text.filter fun v => !v.isEmptyLike with
    | none => some style.plain
    | some (.text s) => some s
    | some _ => none
  let timeText := match timeText with
    | some (.text s) => s
    | _ => ""
  let f : Format := { text, style, timeText }
  if validate.any Value.isEmptyLike || f.isAccepted then some f else none

/-- Read a format. -/
def readFormat? : Value → Option Format
  | .map entries =>
    let setting := Value.under entries
    match maker? entries with
    | none =>
      if (stated? entries "class").all (· == .text "logging.Formatter") then
        formatOf? (setting "format") (setting "style") (setting "datefmt") (setting "validate")
      else none
    | some maker =>
      if names "logging.Formatter" maker && hasGoodAttributes entries &&
          hasOnly ["()", ".", "fmt", "format", "datefmt", "style", "validate", "defaults"] entries
      then
        formatOf? ((setting "format").or (setting "fmt")) (setting "style") (setting "datefmt")
          (setting "validate")
      else none
  | _ => none

/-- Read a filter. -/
def readFilter? : Value → Option String
  | .map entries =>
    let isGood := match maker? entries with
      | none => true
      | some maker =>
        names "logging.Filter" maker && hasGoodAttributes entries &&
          hasOnly ["()", ".", "name"] entries
    match isGood, Value.under entries "name" with
    | true, none => some ""
    | true, some (.text s) => some s
    | _, _ => none
  | _ => none

/-- A kind of handler. -/
structure HandlerKind where
  /-- The name of the kind in settings. -/
  path : String
  /-- The settings that it needs. -/
  required : List String := []
  /-- The settings that it may have besides. -/
  optional : List String := []
deriving DecidableEq

namespace HandlerKind

/-- The name that a kind is shown by: what stands behind the last dot. -/
def name (kind : HandlerKind) : String :=
  String.ofList (kind.path.toList.reverse.takeWhile (· != '.')).reverse

/-- The kinds of handlers. -/
def all : List HandlerKind := [
  { path := "logging.Handler" },
  { path := "logging.NullHandler" },
  { path := "logging.StreamHandler", optional := ["stream"] },
  { path := "logging.FileHandler", required := ["filename"],
    optional := ["mode", "encoding", "delay", "errors"] },
  { path := "logging.handlers.WatchedFileHandler", required := ["filename"],
    optional := ["mode", "encoding", "delay", "errors"] },
  { path := "logging.handlers.RotatingFileHandler", required := ["filename"],
    optional := ["mode", "maxBytes", "backupCount", "encoding", "delay", "errors"] },
  { path := "logging.handlers.TimedRotatingFileHandler", required := ["filename"],
    optional := ["when", "interval", "backupCount", "encoding", "delay", "utc", "atTime",
      "errors"] },
  { path := "logging.handlers.BufferingHandler", required := ["capacity"] },
  { path := "logging.handlers.MemoryHandler", required := ["capacity"],
    optional := ["flushLevel", "target", "flushOnClose"] },
  { path := "logging.handlers.QueueHandler", required := ["queue"] },
  { path := "logging.handlers.SocketHandler", required := ["host", "port"] },
  { path := "logging.handlers.DatagramHandler", required := ["host", "port"] },
  { path := "logging.handlers.SysLogHandler", optional := ["address", "facility", "socktype"] },
  { path := "logging.handlers.SMTPHandler",
    required := ["mailhost", "fromaddr", "toaddrs", "subject"],
    optional := ["credentials", "secure", "timeout"] },
  { path := "logging.handlers.HTTPHandler", required := ["host", "url"],
    optional := ["method", "secure", "credentials", "context"] }]

/-- The kind that an entry asks for: by a maker, or by its class. -/
def ofEntries? (entries : List (Value × Value)) : Option HandlerKind :=
  match maker? entries, Value.under entries "class" with
  | some maker, none => all.find? fun kind => names kind.path maker
  | none, some c => all.find? fun kind => c == .text kind.path
  | _, _ => none

/-- Whether an entry has what the kind needs, and no settings of other kinds. -/
def fits (kind : HandlerKind) (entries : List (Value × Value)) : Bool :=
  hasOnly (["class", "()", ".", "formatter", "level", "filters"] ++ kind.required ++
      kind.optional) entries &&
    kind.required.all fun name => (Value.under entries name).isSome

end HandlerKind

/-- Streams besides the one that log lines are looked for on. -/
def otherStreams : List String := ["sys.stdout", "sys.__stdout__", "sys.__stderr__"]

/-- Read where a handler of streams writes. -/
def readStream? : Option Value → Option Outlet
  | none | some .null => some .errorStream
  | some (.text s) =>
    match outsideName? s with
    | none => some .elsewhere
    | some name =>
      if name == "sys.stderr" then some .errorStream
      else if otherStreams.contains name then some .elsewhere
      else none
  | some _ => some .elsewhere

/-- Read where a handler of files writes. A file that need not be opened at once
is not looked for. -/
def readFile? (w : Workspace) (entries : List (Value × Value)) : Option Outlet :=
  match Value.under entries "filename" with
  | some (.text path) =>
    if (stated? entries "delay").isSome || w.canWrite path then some .elsewhere else none
  | _ => none

/-- Read how a handler keeps records back. The target is one of the handlers
that are there already. -/
def readBuffer? (handlers : List (Value × Handler)) (entries : List (Value × Value)) :
    Option Outlet := do
  let target ← match Value.under entries "target" with
    | none => some none
    | some key =>
      if (maker? entries).isSome then none
      else (underKey? handlers key).map fun h => some h.key
  some (.buffer {
    capacity := (Value.under entries "capacity").getD .null
    urgency := (Value.under entries "flushLevel").getD (.int Level.error.rank)
    target
    flushesAtEnd := !(Value.under entries "flushOnClose").any Value.isEmptyLike })

/-- Read what a handler of a kind does with records. -/
def readOutlet? (w : Workspace) (handlers : List (Value × Handler)) (kind : HandlerKind)
    (entries : List (Value × Value)) : Option Outlet :=
  if kind.required.contains "filename" then readFile? w entries
  else
    match kind.name with
    | "Handler" => some .undefined
    | "StreamHandler" => readStream? (Value.under entries "stream")
    | "MemoryHandler" => readBuffer? handlers entries
    | "BufferingHandler" =>
      some (.buffer { capacity := (Value.under entries "capacity").getD .null })
    | "SysLogHandler" =>
      match Value.under entries "address" with
      | some (.text _) => none
      | _ => some .elsewhere
    | _ => some .elsewhere

/-- Read a handler. -/
def readHandler? (w : Workspace) (sections : Sections) (key : Value) : Value → Option Handler
  | .map entries => do
    let format ← match stated? entries "formatter" with
      | none => some none
      | some f => (underKey? sections.formats f).map some
    let level ← statedLevel? entries
    let kind ← HandlerKind.ofEntries? entries
    let outlet ← readOutlet? w sections.handlers kind entries
    let filterKeys ← listedOrNone? (stated? entries "filters")
    let filters ← filterKeys.mapM (underKey? sections.filters)
    if kind.fits entries && hasGoodAttributes entries then
      some { key, kindName := kind.name, outlet, level := level.getD {}, format, filters }
    else none
  | _ => none

/-- The entries of a section. One that is given but no map is refused unless it
is empty, and of no shape that has entries it is refused as such. -/
def sectionEntries (entries : List (Value × Value)) (name : String) :
    Except Problem (List (Value × Value)) :=
  match Value.under entries name with
  | none => .ok []
  | some (.map inner) => .ok inner
  | some v =>
    match listed? v with
    | some [] => .ok []
    | some _ => .error .badValue
    | none => .error .badShape

/-- Read all entries of a section. -/
def readSection {α : Type} (read? : Value → Option α) (inner : List (Value × Value)) :
    Except Problem (List (Value × α)) :=
  match inner.mapM fun e => (read? e.2).map fun a => (e.1, a) with
  | some items => .ok items
  | none => .error .badValue

/-- Whether one key comes before another or at its place. Keys are compared as
texts or as numbers; other keys stay where they are. -/
def comesBefore (a b : Value × Value) : Bool :=
  match a.1, b.1 with
  | .text s, .text t => s ≤ t
  | m, n =>
    match m.whole?, n.whole? with
    | some m, some n => m ≤ n
    | _, _ => true

/-- Whether keys can be put in order: all texts, or all numbers. -/
def areSortable (keys : List Value) : Bool :=
  let isText : Value → Bool
    | .text _ => true
    | _ => false
  let isNumber : Value → Bool
    | .int _ | .bool _ | .real _ => true
    | _ => false
  keys.length ≤ 1 || keys.all isText || keys.all isNumber

/-- Refuse a section whose keys cannot be put in order. -/
def requireSortable (entries : List (Value × Value)) (name : String) : Except Problem Unit :=
  match (Value.under entries name).bind listed? with
  | some keys => if areSortable keys then .ok () else .error .badShape
  | none => .ok ()

/-- The key of the target that a handler hands records on to. -/
def targetKey? : Value → Option Value
  | .map entries =>
    match (maker? entries).isNone, HandlerKind.ofEntries? entries with
    | true, some kind => if kind.name == "MemoryHandler" then Value.under entries "target" else none
    | _, _ => none
  | _ => none

/-- Read handlers one by one. One whose target is among the others, but not there
yet, is put off; those are the second part of the result. -/
def readHandlers? (w : Workspace) (all : List (Value × Value)) :
    Sections → List (Value × Value) → Option (Sections × List (Value × Value))
  | sections, [] => some (sections, [])
  | sections, (key, v) :: rest =>
    let isEarly := (targetKey? v).any fun target =>
      (underKey? all target).isSome && (underKey? sections.handlers target).isNone
    if isEarly then
      (readHandlers? w all sections rest).map fun r => (r.1, (key, v) :: r.2)
    else do
      let h ← readHandler? w sections key v
      readHandlers? w all { sections with handlers := sections.handlers ++ [(key, h)] } rest

/-- Read the section of handlers in the order of their keys, and then once more
those that were put off. -/
def readAllHandlers? (w : Workspace) (sections : Sections) (inner : List (Value × Value)) :
    Option Sections := do
  let (sections, late) ← readHandlers? w inner sections (inner.mergeSort comesBefore)
  let (sections, never) ← readHandlers? w inner sections late
  if never.isEmpty then some sections else none

/-- Read the formats, filters and handlers. -/
def readSections (w : Workspace) (entries : List (Value × Value)) : Except Problem Sections := do
  let formats ← readSection readFormat? (← sectionEntries entries "formatters")
  let filters ← readSection readFilter? (← sectionEntries entries "filters")
  requireSortable entries "handlers"
  match readAllHandlers? w { formats, filters } (← sectionEntries entries "handlers") with
  | some sections => return sections
  | none => throw .badValue

end RubyDoc.Logging
