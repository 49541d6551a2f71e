import RubyDoc.Entity
import RubyDoc.Fault

/-!
# The store of documented objects

Entities are kept under their paths in the order of first registration; the
root namespace stands under the empty path. An entity that is registered at a
path that is taken replaces the one there and keeps its place.

A statement may still be at work on a namespace that another one replaces
meanwhile. A handle says which namespace is meant, the serial number telling
apart those at one path, and a change through a handle whose namespace is no
longer stored is lost. The first root is kept when it is replaced, because it
stays the namespace of the top level.
-/

namespace RubyDoc

/-- Which namespace is meant: its path and its serial number. -/
structure Handle where
  /-- The path of the namespace. -/
  path : String
  /-- The serial number of the namespace. -/
  serial : Nat
  /-- The scopes that it has attribute tables for; these never change. -/
  scopes : List Scope
deriving DecidableEq

/-- The handle of a namespace at a path. -/
def Members.handle (m : Members) (path : String) : Handle :=
  { path, serial := m.serial, scopes := m.scopes }

/-- Entities by path. -/
structure Store where
  /-- Paths and entities in the order of first registration. -/
  entries : List (String × Entity) := [("", Entity.newRoot)]
  /-- The first root, once another entity has taken the empty path. -/
  formerRoot : Option Entity := none
  /-- The serial number for the next namespace. -/
  nextSerial : Nat := 1

namespace Store

/-- What is registered at a path. -/
def find? (s : Store) (path : String) : Option Entity := s.entries.lookup path

/-- Whether anything is registered at a path. -/
def contains (s : Store) (path : String) : Bool := (s.find? path).isSome

/-- What is registered at a path, or the fault that nothing is. -/
def get (s : Store) (path : String) : Except Fault Entity :=
  match s.find? path with
  | some e => .ok e
  | none => .error (.objectMissing path)

/-- The namespace at a path with its members. -/
def namespaceAt (s : Store) (path : String) : Except Fault (Entity × Members) :=
  match s.find? path with
  | none => .error (.objectMissing path)
  | some e =>
    match e.members? with
    | some m => .ok (e, m)
    | none => .error (.notNamespace path)

/-- The first root, wherever it is kept. -/
def root (s : Store) : Entity := s.formerRoot.getD ((s.find? "").getD Entity.newRoot)

/-- The handle of the first root. -/
def rootHandle : Handle := Members.handle {} ""

/-- Set the entry of a path, at its place if it has one. -/
def setEntry (path : String) (e : Entity) : List (String × Entity) → List (String × Entity)
  | [] => [(path, e)]
  | (p, old) :: rest =>
    if p == path then (p, e) :: rest else (p, old) :: setEntry path e rest

/-- Change the entity at a path. -/
def modify (s : Store) (path : String) (f : Entity → Entity) : Store :=
  { s with entries := s.entries.map fun entry =>
      if entry.1 == path then (entry.1, f entry.2) else entry }

/-- Put another entity at a path. The first root is kept aside. -/
def place (s : Store) (path : String) (e : Entity) : Store :=
  { s with
    entries := setEntry path e s.entries
    formerRoot := if path == "" && s.formerRoot.isNone then s.find? "" else s.formerRoot }

/-- Whether an entity is the namespace that a handle means. -/
def isMeant (h : Handle) (e : Entity) : Bool := e.members?.any fun m => m.serial == h.serial

/-- Change the members of the namespace that a handle means, if it is kept. -/
def editMembers (s : Store) (h : Handle) (f : Members → Members) : Store :=
  if (s.find? h.path).any (isMeant h) then s.modify h.path (Entity.mapMembers f)
  else if s.formerRoot.any (isMeant h) then
    { s with formerRoot := s.formerRoot.map (Entity.mapMembers f) }
  else s

/-- Register an entity: its namespace has to be there and lists it as a child.
A namespace gets a serial number of its own. -/
def attach (s : Store) (e : Entity) : Except Fault Store :=
  (s.namespaceAt e.home).map fun home =>
    let numbered := e.mapMembers fun m => { m with serial := s.nextSerial }
    let placed := { s.place e.path numbered with nextSerial := s.nextSerial + 1 }
    placed.editMembers (home.2.handle e.home) fun m => m.adopt e.path

/-- The method with an identity, if a method is registered there. -/
def method? (s : Store) (home name : String) (scope : Scope) : Option Entity :=
  match s.find? (Entity.newMethod home name scope).path with
  | some e => if e.isMethod then some e else none
  | none => none

/-- The method with an identity, registered or new. -/
def findOrNewMethod (s : Store) (home name : String) (scope : Scope) : Entity :=
  (s.method? home name scope).getD (Entity.newMethod home name scope)

/-- Change the method at a path; anything else there stays as it is. -/
def editMethod (s : Store) (path : String) (f : Entity → Entity) : Store :=
  s.modify path fun e => if e.isMethod then f e else e

/-- The children of a namespace in order of registration. -/
def childrenOf (s : Store) (path : String) : Except Fault (List Entity) :=
  match s.namespaceAt path with
  | .error fault => .error fault
  | .ok (_, m) => m.children.mapM fun child =>
      match s.find? child with
      | some e => .ok e
      | none => .error (.childMissing child)

/-- All entities but the one at the empty path, in order of registration. -/
def entities (s : Store) : List Entity :=
  (s.entries.filter fun entry => entry.1 != "").map Prod.snd

/-- All paths but the empty one, in order of registration. -/
def paths (s : Store) : List String :=
  (s.entries.filter fun entry => entry.1 != "").map Prod.fst

/-- The number of entries, the one at the empty path not counted. -/
def size (s : Store) : Nat := s.entries.length - 1

end Store

end RubyDoc
