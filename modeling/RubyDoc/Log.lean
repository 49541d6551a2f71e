/-!
# Log entries

A log is the list of entries in the order in which they were made. Every entry
has a level and comes through the channel of the part that made it. Which
entries are shown, and how, is decided by the logging configuration.
-/

namespace RubyDoc

/-- Levels of importance, from the one below all entries up. -/
inductive Level where
  | notSet | debug | info | warning | error | critical
deriving DecidableEq

namespace Level

/-- The number that levels are compared by. -/
def rank : Level → Nat
  | notSet => 0
  | debug => 10
  | info => 20
  | warning => 30
  | error => 40
  | critical => 50

/-- The name that a level is shown by. -/
def name : Level → String
  | notSet => "NOTSET"
  | debug => "DEBUG"
  | info => "INFO"
  | warning => "WARNING"
  | error => "ERROR"
  | critical => "CRITICAL"

/-- The level that a name in capitals stands for; two levels have two names. -/
def ofName? : String → Option Level
  | "NOTSET" => some notSet
  | "DEBUG" => some debug
  | "INFO" => some info
  | "WARNING" | "WARN" => some warning
  | "ERROR" => some error
  | "CRITICAL" | "FATAL" => some critical
  | _ => none

end Level

/-- The parts that log. -/
inductive Channel where
  | types | parser | store | processor | commandLine | logging
  | statements | namespaces | enums | methods | fields | constructors | signatures
deriving DecidableEq

/-- The dotted name of a channel, by which loggers are configured. -/
def Channel.name : Channel → String
  | types => "sorbet_docs.types"
  | parser => "sorbet_docs.parser"
  | store => "sorbet_docs.store"
  | processor => "sorbet_docs.processor"
  | commandLine => "sorbet_docs.cli"
  | logging => "sorbet_docs.logging"
  | statements => "sorbet_docs.handlers.base"
  | namespaces => "sorbet_docs.handlers.namespaces"
  | enums => "sorbet_docs.handlers.enums"
  | methods => "sorbet_docs.handlers.methods"
  | fields => "sorbet_docs.handlers.struct_fields"
  | constructors => "sorbet_docs.handlers.constructor"
  | signatures => "sorbet_docs.handlers.sig"

/-- Every channel. -/
def Channel.all : List Channel :=
  [.types, .parser, .store, .processor, .commandLine, .logging, .statements, .namespaces,
    .enums, .methods, .fields, .constructors, .signatures]

/-- One log entry. -/
structure Entry where
  /-- How important the entry is. -/
  level : Level
  /-- The part that made it. -/
  channel : Channel
  /-- What it says. -/
  message : String
deriving DecidableEq

/-- Entries in the order in which they were made. -/
abbrev Log := List Entry

end RubyDoc
