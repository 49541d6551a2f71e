/-!
# Faults

What can go wrong while source is read and objects are registered. A fault is
a cause; its wording is one function. Faults met inside a statement are caught
there and logged, so most of these never leave a run.
-/

namespace RubyDoc

/-- A cause of failure. -/
inductive Fault where
  /-- The bytes of a node cut a character of the source in two. -/
  | illegible
  /-- A class or module declaration has no name. -/
  | nameless (kind : String) (line : Nat)
  /-- A node that should have a following statement has no parent. -/
  | noParent (kind : String)
  /-- A statement is the last one of its parent. -/
  | noneFollows (kind : String) (line : Nat)
  /-- A statement holds no definition that a signature could be about. -/
  | noDefinition (line : Nat)
  /-- Nothing is registered at a path. -/
  | objectMissing (path : String)
  /-- What is registered at a path is no namespace. -/
  | notNamespace (path : String)
  /-- A namespace lists a child that is not registered. -/
  | childMissing (path : String)
  /-- A namespace has no table for the attributes of a scope. -/
  | tableMissing (path : String)
  /-- The request leads back to itself without end. -/
  | endless
deriving DecidableEq

namespace Fault

/-- The wording of a fault. -/
def message : Fault → String
  | illegible => "text cuts a character"
  | nameless kind line => kind ++ " without a name at line " ++ toString line
  | noParent kind => "Node '" ++ kind ++ "' has no parent"
  | noneFollows kind line =>
    "No statement follows '" ++ kind ++ "' at line " ++ toString line
  | noDefinition line => "No signable definition at line " ++ toString line
  | objectMissing path => "Object '" ++ path ++ "' not found"
  | notNamespace path => "Object '" ++ path ++ "' is not a namespace"
  | childMissing path => path
  | tableMissing path => "No attribute table in '" ++ path ++ "'"
  | endless => "maximum depth exceeded"

/-- Whether a fault says that a neighbouring or enclosing node is missing. -/
def isNodeMissing : Fault → Bool
  | noParent _ | noneFollows _ _ | noDefinition _ => true
  | _ => false

end Fault

end RubyDoc
