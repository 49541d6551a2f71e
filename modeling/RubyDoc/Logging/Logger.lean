import RubyDoc.Logging.Handler
import RubyDoc.Logging.Problem

/-!
# Loggers

Loggers have dotted names and stand below the loggers whose names begin their
own; above all of them is the root. A record is written to the handlers of its
logger and of those above, up to the first that does not propagate. A logger
without a level of its own takes that of the nearest one above that has one.
Where no handler is met at all, warnings and what is above them are written
bare.
-/

namespace RubyDoc.Logging

/-- A logger. -/
structure Logger where
  /-- The lowest level that it takes; zero for none of its own. -/
  level : Bound := {}
  /-- Whether its records go on to the handlers above. -/
  propagates : Bool := true
  /-- Whether it takes no records at all. -/
  disabled : Bool := false
  /-- Its own handlers in order. -/
  handlers : List Handler := []
  /-- Names of loggers; a record has to come from one of each or from below it. -/
  filters : List String := []

/-- Add a handler unless it is there. -/
def Logger.addHandler (l : Logger) (h : Handler) : Logger :=
  if l.handlers.any fun other => other.key == h.key then l
  else { l with handlers := l.handlers ++ [h] }

/-- The root and the named loggers, and what was written. -/
structure Loggers where
  /-- The logger above all others. -/
  root : Logger := { level := .ofLevel .warning }
  /-- The other loggers, each under its name. -/
  named : List (String × Logger) := []
  /-- The handlers that were configured, each under its key. -/
  handlers : List (Value × Handler) := []
  /-- The records that handlers keep back, under the keys of the handlers. -/
  waiting : List (Value × List Record) := []
  /-- The lines on the error stream. -/
  written : List String := []

namespace Loggers

/-- Loggers as they are before anything is configured. -/
def ofNames (names : List String) : Loggers := { named := names.map fun n => (n, {}) }

/-- The loggers of all parts that log, and some others, as new. -/
def existing (others : List String) : Loggers :=
  ofNames (["sorbet_docs", "sorbet_docs.handlers"] ++ Channel.all.map Channel.name ++ others)

/-- Whether a name is the root's. -/
def isRootName (name : String) : Bool := name == "" || name == "root"

/-- The logger of a name; one that was never asked for is as new. -/
def get (ls : Loggers) (name : String) : Logger :=
  if isRootName name then ls.root else (ls.named.lookup name).getD {}

/-- Put a logger at its name, or at the end of the names. -/
def putNamed (name : String) (l : Logger) : List (String × Logger) → List (String × Logger)
  | [] => [(name, l)]
  | (n, other) :: rest =>
    if n == name then (n, l) :: rest else (n, other) :: putNamed name l rest

/-- Put a logger at its name. -/
def put (ls : Loggers) (name : String) (l : Logger) : Loggers :=
  if isRootName name then { ls with root := l }
  else { ls with named := putNamed name l ls.named }

/-- The names above a name, nearest first: those that end at one of its dots. -/
def namesAbove (name : String) : List String :=
  ((List.range name.toList.length).filter fun i => name.toList[i]? == some '.').reverse.map
    fun i => String.ofList (name.toList.take i)

/-- A logger and those above it, nearest first. -/
def chain (ls : Loggers) (name : String) : List Logger :=
  if isRootName name then [ls.root]
  else ls.get name :: ((namesAbove name).filterMap fun n => ls.named.lookup n) ++ [ls.root]

/-- The lowest level that the first logger of a chain takes. -/
def lowestLevel : List Logger → Int
  | [] => 0
  | l :: above => if l.level.rank == 0 then lowestLevel above else l.level.rank

/-- The handlers that a record meets on its way up a chain. -/
def handlersOn : List Logger → List Handler
  | [] => []
  | l :: above => l.handlers ++ if l.propagates then handlersOn above else []

/-- Whether a record is taken by its logger. -/
def takes (ls : Loggers) (r : Record) : Bool :=
  let l := ls.get r.logger
  !l.disabled && decide (0 < r.level) && decide (lowestLevel (ls.chain r.logger) ≤ r.level) &&
    l.filters.all (passes r.logger)

/-- The records that the handler of a key keeps back. -/
def waitingFor (ls : Loggers) (key : Value) : List Record := (ls.waiting.lookup key).getD []

/-- Let the handler of a key keep back some records and no others. -/
def putWaiting (ls : Loggers) (key : Value) (records : List Record) : Loggers :=
  { ls with waiting := (key, records) :: ls.waiting.filter fun e => !(e.1 == key) }

end Loggers

/-- A step of logging: loggers change until a problem is met. -/
abbrev Step := ExceptT Problem (StateM Loggers)

/-- Hand on the records of a buffer to its target, if it has one. They are kept
until all of them are handed on. -/
def Buffer.handOn (write : Handler → Record → Step Unit) (b : Buffer) (key : Value) :
    Step Unit := do
  let ls ← get
  match b.target.bind fun target => ls.handlers.lookup target with
  | none => return
  | some target =>
    (ls.waitingFor key).forM fun r => do
      if target.lets r then write target r
    modify fun ls => ls.putWaiting key []

/-- Keep back a record, and hand on all that are kept if that is due. -/
def Buffer.take (write : Handler → Record → Step Unit) (b : Buffer) (key : Value) (r : Record) :
    Step Unit := do
  let ls ← get
  let records := ls.waitingFor key ++ [r]
  set (ls.putWaiting key records)
  match b.isDue? records.length r with
  | none => throw .badShape
  | some due => if due then b.handOn write key

namespace Handler

/-- Let a handler deal with a record. The first argument bounds how many handlers
the record goes through. -/
def emit : Nat → Handler → Record → Step Unit
  | 0, _, _ => return
  | fuel + 1, h, r =>
    match h.outlet with
    | .errorStream => modify fun ls => { ls with written := ls.written ++ h.linesOf r }
    | .elsewhere => return
    | .undefined => throw .unwritable
    | .buffer b => b.take (emit fuel) h.key r

/-- Let a handler deal with a record that it lets through. -/
def handle (h : Handler) (r : Record) : Step Unit := do
  if h.lets r then h.emit ((← get).handlers.length + 1) r

/-- Take a handler away. One that keeps records back may hand them on. -/
def close (h : Handler) : Step Unit := do
  match h.outlet with
  | .buffer b => if b.flushesAtEnd then b.handOn (emit (← get).handlers.length) h.key
  | _ => return

end Handler

namespace Loggers

/-- Write a record. -/
def write (r : Record) : Step Unit := do
  let ls ← getThe Loggers
  if ls.takes r then
    match handlersOn (ls.chain r.logger) with
    | [] => if Handler.lastResort.level.rank ≤ r.level then Handler.lastResort.handle r
    | handlers => handlers.forM fun h => do
      if h.level.rank ≤ r.level then h.handle r

/-- Write a log. -/
def writeAll (log : Log) : Step Unit := log.forM fun e => write (Record.ofEntry e)

end Loggers

end RubyDoc.Logging
