import RubyDoc.Logging.Problem

/-!
# Levels in settings

A level that is asked for goes in place of the levels of all loggers, of the
root, and of all handlers that have one. It is put into the very collections of
the settings: a map that is found at several places has it at all of them, and
one that is found among its own entries may not get longer while it is gone
through.
-/

namespace RubyDoc.Logging

open RubyDoc.Yaml

/-- Entries of a map with a level among them. -/
def levelled (word : String) (entries : List (Value × Part)) : List (Value × Part) :=
  Value.putEntry (.text "level") (.plain (.text word)) entries

/-- Put a level on a map. -/
def putLevel (word : String) (d : Document) : Part → Except Problem Document
  | .plain _ => .error .badShape
  | .shared place =>
    match d.cellAt place with
    | .map entries => .ok (d.put place (.map (levelled word entries)))
    | .list _ | .set _ => .error .badShape

/-- The place that a number stands for in a list, counted from the end if it is
below zero. -/
def placeIn (length : Nat) (n : Int) : Option Nat :=
  if 0 ≤ n ∧ n < length then some n.toNat
  else if n < 0 ∧ -(length : Int) ≤ n then some (n + length).toNat
  else none

/-- The number that a part stands for as a place. -/
def position? : Part → Option Int
  | .plain (.int n) => some n
  | .plain (.bool b) => some (if b then 1 else 0)
  | _ => none

/-- Put a level on a logger that a list names by its place in this list. -/
def putListedLevel (word : String) (items : List Part) (d : Document) (item : Part) :
    Except Problem Document :=
  match position? item with
  | none => .error .badShape
  | some n =>
    match (placeIn items.length n).bind fun i => items[i]? with
    | none => .error .outOfRange
    | some p => putLevel word d p

/-- Put a level on a logger that is an entry of a map, as it is by then. The map
may not have got longer than it was at first. -/
def putNamedLevel (word : String) (named : Part) (size : Nat) (d : Document) (i : Nat) :
    Except Problem Document :=
  match ((d.entriesOf? named).getD [])[i]? with
  | none => .error .badShape
  | some e => do
    let d ← putLevel word d e.2
    if (d.entriesOf? named).any (·.length != size) then throw .changedInUse
    return d

/-- Why a value without parts names no loggers. Empty ones name none; bytes are
numbers, and the first of them is taken for a place among them. -/
def problemOfPlain : Value → Option Problem
  | .text s => if s == "" then none else some .badShape
  | .bytes [] => none
  | .bytes (b :: rest) => some (if rest.length < b.toNat then .outOfRange else .badShape)
  | _ => some .badShape

/-- Put a level on all loggers. -/
def putLoggerLevels (word : String) (d : Document) : Part → Except Problem Document
  | .plain v => (problemOfPlain v).elim (.ok d) .error
  | .shared place =>
    match d.cellAt place with
    | .set items => if items.isEmpty then .ok d else .error .badShape
    | .list items => items.foldlM (putListedLevel word items) d
    | .map entries =>
      (List.range entries.length).foldlM (putNamedLevel word (.shared place) entries.length) d

/-- Put a level on a handler that is an entry of a map, as it is by then, if it
has one. -/
def putHandlerLevel (word : String) (handlers : Part) (d : Document) (i : Nat) :
    Except Problem Document :=
  match ((d.entriesOf? handlers).getD [])[i]? with
  | none => .ok d
  | some e =>
    if (d.entriesOf? e.2).any fun entries => (Value.under entries "level").isSome then
      putLevel word d e.2
    else .ok d

/-- Put a level on all handlers that have one. -/
def putHandlerLevels (word : String) (d : Document) (handlers : Part) :
    Except Problem Document :=
  match d.entriesOf? handlers with
  | none => .error .handlersNotMap
  | some entries => (List.range entries.length).foldlM (putHandlerLevel word handlers) d

/-- Change a setting that is there. -/
def changeSetting (key : String) (change : Document → Part → Except Problem Document)
    (d : Document) : Except Problem Document :=
  match d.setting? key with
  | none => .ok d
  | some p => change d p

/-- Put a level on all loggers, on the root and on handlers. -/
def overrideLevel (word : String) (d : Document) : Except Problem Document := do
  let d ← changeSetting "loggers" (putLoggerLevels word) d
  let d ← changeSetting "root" (putLevel word) d
  changeSetting "handlers" (putHandlerLevels word) d

end RubyDoc.Logging
