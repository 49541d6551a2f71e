import RubyDoc.Proofs.Walk.Opening

/-!
# Steps of walks

A step of a walk is what one rule does to the records, in whatever context it is
read: to a statement without a body, to the opening or the closing of a class or
module, or to one name of a visibility call. A rule that ends in a fault has taken
a step too.
-/

namespace RubyDoc

open RubyDoc.Action

/-- One step of a walk. -/
inductive Handled : Records → Records → Prop
  /-- A method definition. -/
  | method (c : Context) (n : Node) (r : Records) : Handled r (runOn (processMethod c n) r).2
  /-- An accessor macro. -/
  | accessors (c : Context) (n : Node) (read write : Bool) (r : Records) :
      Handled r (runOn (processAccessors c n read write) r).2
  /-- An assignment to a constant. -/
  | constant (c : Context) (n : Node) (r : Records) : Handled r (runOn (processConstant c n) r).2
  /-- An enumeration. -/
  | enumValues (c : Context) (block : Site) (r : Records) :
      Handled r (runOn (processEnum c block) r).2
  /-- A field declaration. -/
  | field (c : Context) (n : Node) (isProp : Bool) (r : Records) :
      Handled r (runOn (processField c n isProp) r).2
  /-- A signature. -/
  | signature (c : Context) (site block : Site) (r : Records) :
      Handled r (runOn (processSignature c site block) r).2
  /-- One name of a visibility call. -/
  | visibility (c : Context) (name : String) (visibility : Visibility) (r : Records) :
      Handled r (runOn (setVisibility c name visibility) r).2
  /-- The opening of a class. -/
  | openClass (c : Context) (n : Node) (path : String) (r : Records) :
      Handled r (runOn (openClass c n path) r).2
  /-- The opening of a module. -/
  | openModule (c : Context) (n : Node) (path : String) (r : Records) :
      Handled r (runOn (openModule c n path) r).2
  /-- The closing of a class. -/
  | closeClass (c : Context) (n : Node) (path classPath : String) (r : Records) :
      Handled r (runOn (c.closeClass n path classPath) r).2
  /-- A log entry, of a fault that is caught for one. -/
  | logged (r : Records) (log : Log) : Handled r { r with log }
  /-- The start of a source: no node has been given a docstring. -/
  | source (r : Records) : Handled r { r with overridden := [] }

/-- Whatever a rule does, it changes the store step by step. -/
theorem Handled.changes {r r' : Records} (h : Handled r r') (hk : r.store.IsKeyed) :
    Store.Changes (fun _ => True) r.store r'.store := by
  have hplaceholders : ∀ path, AllowsPlaceholders (fun _ => True) path := fun path x _ =>
    ⟨⟨"", x, .placeholder⟩, trivial, rfl, rfl⟩
  cases h with
  | method c n => exact changesFrom_processMethod c n (fun _ _ => trivial) hk r rfl
  | accessors c n read write =>
    exact changesFrom_processAccessors c n read write (fun _ _ => trivial) r rfl
  | constant c n => exact changesFrom_processConstant c n (fun _ _ => trivial) r rfl
  | enumValues c block => exact changesFrom_processEnum c block (fun _ _ => trivial) r rfl
  | field c n isProp => exact changesFrom_processField c n isProp (fun _ _ => trivial) r rfl
  | signature c site block => exact changesFrom_processSignature c site block r rfl
  | visibility c name visibility => exact changesFrom_setVisibility c name visibility r rfl
  | openClass c n path =>
    exact changesFrom_openClass c n (hplaceholders _) hk ⟨⟨"", path, .classSpace⟩, trivial, rfl, rfl⟩
      r rfl
  | openModule c n path =>
    exact changesFrom_openModule c n (hplaceholders _) hk ⟨⟨"", path, .moduleSpace⟩, trivial, rfl, rfl⟩
      r rfl
  | closeClass c n path classPath =>
    exact changesFrom_closeClass c n path classPath trivial hk r rfl
  | logged log => exact .refl
  | source => exact .refl

end RubyDoc
