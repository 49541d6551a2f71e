import RubyDoc.TypeExpr.Basic
import RubyDoc.Reading

/-!
# Documentation types

The documentation types of a type expression are a list of strings that is
never empty; more than one string says that the value is of one of several
types. Nil goes last in a nilable type. Printing is total and pure. What it
could not make sense of is listed apart, in the order in which the expression
is gone through, and turned into warnings by `convert`.
-/

namespace RubyDoc

open RubyDoc.Text

namespace TypeExpr

/-- The type that stands for anything. -/
def anyType : String := "Object"

/-- The type of nil. -/
def nilType : String := "nil"

/-- The type of what returns nothing. -/
def voidType : String := "void"

/-- Classes of one value or a few are called by their values. -/
def aliases : List (String × String) :=
  [("T::Boolean", "Boolean"), ("FalseClass", "false"), ("NilClass", "nil"),
    ("TrueClass", "true")]

/-- What a class is called. -/
def displayName (name : String) : String := (aliases.lookup name).getD name

/-- Types separated by commas. -/
def listed (types : List String) : String := String.intercalate ", " types

/-- One place of a tuple: a choice of types stands in brackets. -/
def tuplePlace : List String → String
  | [type] => type
  | types => "[" ++ listed types ++ "]"

/-- Put the items into a list that are not in it yet. -/
def insertNew (known : List String) : List String → List String
  | [] => known
  | item :: items =>
    insertNew (if known.contains item then known else known ++ [item]) items

/-- A hash of key and value types. -/
def hashType (keys values : String) : String := "Hash\x7b" ++ keys ++ " => " ++ values ++ "\x7d"

/-- The type of a shape with these keys and value types, each listed once. -/
def shapeType (entries : List (List String × List String)) : String :=
  let keys := insertNew [] (entries.map fun e => listed e.1)
  let values := insertNew [] (entries.flatMap Prod.snd)
  if values.isEmpty then "Hash" else hashType (listed keys) (listed values)

mutual

/-- The documentation types of an expression. -/
def print : TypeExpr → List String
  | reference name => [displayName name]
  | nilLiteral => [nilType]
  | boolLiteral value => [if value then "true" else "false"]
  | procedure => ["Proc"]
  | untyped => [anyType]
  | noreturn => [voidType]
  | nilable inner => print inner ++ [nilType]
  | union members => (printAll members).flatten
  | classOf name => ["T.class_of(" ++ displayName name ++ ")"]
  | verbatim text => [text]
  | container name => [name]
  | collection name member => [name ++ "<" ++ listed (print member) ++ ">"]
  | hash key value => [hashType (listed (print key)) (listed (print value))]
  | generic name members => [name ++ "<" ++ listed ((printAll members).map listed) ++ ">"]
  | tuple members => ["Array(" ++ listed ((printAll members).map tuplePlace) ++ ")"]
  | shape entries => [shapeType (printEntries entries)]
  | group inner => print inner
  | missing => [anyType]
  | unsupported _ => [anyType]
  | illegible => [anyType]

/-- The documentation types of each expression of a list. -/
def printAll : List TypeExpr → List (List String)
  | [] => []
  | t :: ts => print t :: printAll ts

/-- The documentation types of keys and values. -/
def printEntries : ShapeEntries → List (List String × List String)
  | .nil => []
  | .cons key value rest => (print key, print value) :: printEntries rest

end

/-- Something in an expression that printing cannot make sense of. -/
inductive Issue where
  /-- No documentation type is known. -/
  | unsupported (what : Unsupported)
  /-- The text cuts a character. -/
  | illegible
deriving DecidableEq

mutual

/-- What in an expression makes no sense, in the order of going through it. -/
def issues : TypeExpr → List Issue
  | reference _ | nilLiteral | boolLiteral _ | procedure | untyped | noreturn | classOf _
  | verbatim _ | container _ | missing => []
  | nilable inner => issues inner
  | union members => issuesOfAll members
  | collection _ member => issues member
  | hash key value => issues key ++ issues value
  | generic _ members => issuesOfAll members
  | tuple members => issuesOfAll members
  | shape entries => issuesOfEntries entries
  | group inner => issues inner
  | unsupported what => [.unsupported what]
  | illegible => [.illegible]

/-- The issues of a list of expressions. -/
def issuesOfAll : List TypeExpr → List Issue
  | [] => []
  | t :: ts => issues t ++ issuesOfAll ts

/-- The issues of keys and values. -/
def issuesOfEntries : ShapeEntries → List Issue
  | .nil => []
  | .cons key value rest => issues key ++ issues value ++ issuesOfEntries rest

end

end TypeExpr

/-- The warning about an unsupported expression. -/
def Unsupported.message : Unsupported → String
  | expression text kind line =>
    "Unsupported type expression '" ++ text ++ "' (" ++ kind ++ ") at line " ++ toString line
  | call text => "Unsupported type call '" ++ text ++ "'"
  | method text => "Unsupported T method '" ++ text ++ "'"

namespace TypeExpr

/-- Warn about issues in order, up to one that makes the reading fail. -/
def report : List Issue → Reading Unit
  | [] => pure ()
  | .unsupported what :: rest => do
    Reading.note .warning .types what.message
    report rest
  | .illegible :: _ => throw .illegible

end TypeExpr

/-- The documentation types of a node, each on one line. -/
def convert (n : Node) : Reading (List String) := do
  let type := TypeExpr.ofNode n
  TypeExpr.report type.issues
  return type.print.map unbreak

/-- The documentation types of a type that may be left out. -/
def convertOptional : Option Node → Reading (List String)
  | some n => convert n
  | none => return [TypeExpr.anyType]

end RubyDoc
