import RubyDoc.Walk.Context
import RubyDoc.Outline

/-!
# Constants and enumerations

An assignment to a constant registers it with the source of its value. The
values of an enumeration are the constants assigned anywhere in its block, in
the order of the source.
-/

namespace RubyDoc

/-- Register the constant of an assignment. -/
def registerConstant (c : Context) (n left right : Node) : Action Entity := do
  let name ← left.read
  let docstring ← c.docstringOf n
  let source ← n.read
  let value ← right.read
  let constant := c.declaredAt n
    { name, home := c.home.path, docstring, source := some source, kind := .constant value }
  Action.register constant
  return constant

/-- Read an assignment to a constant. -/
def processConstant (c : Context) (n : Node) : Action Unit := do
  if let some (left, right) := n.constantAssignment then
    let _ ← registerConstant c n left right

/-- The assignments to constants in a block, in the order of the source. -/
def enumAssignments (block : Site) : Except Fault (List Node) :=
  match block.levelOrder with
  | (_, some fault) => .error fault
  | (visited, none) =>
    let found := (visited.map Site.node).filter fun n => n.constantAssignment.isSome
    .ok (found.mergeSort fun a b => decide (a.startByte ≤ b.startByte))

/-- Register the values of an enumeration. -/
def registerValues (c : Context) : List Node → Action Unit
  | [] => return
  | n :: rest => do
    if let some (left, right) := n.constantAssignment then
      let constant ← registerConstant c n left right
      Action.note .debug .enums ("Registered enum value " ++ constant.path)
    registerValues c rest

/-- Read an enumeration. -/
def processEnum (c : Context) (block : Site) : Action Unit := do
  registerValues c (← Action.ofExcept (enumAssignments block))

end RubyDoc
