import RubyDoc.Report.Basic

/-!
# Consoles

A console prints items one after the other. It reads the markup in their texts,
and it refuses an item with markup that it cannot read, such as a closing tag
that closes nothing. Nothing of such an item is printed, and nothing behind it.
Which items are refused is for the console to say.
-/

namespace RubyDoc.Report

/-- What prints items. -/
structure Console where
  /-- Whether an item is refused. -/
  refuses : Item → Bool := fun _ => false

/-- What comes of printing items. -/
structure Printed where
  /-- The items that were printed. -/
  items : List Item := []
  /-- The item that was refused, if one was. -/
  refused : Option Item := none

namespace Console

/-- Print items up to the first that is refused. -/
def print (console : Console) : List Item → Printed
  | [] => {}
  | item :: rest =>
    if console.refuses item then { refused := some item }
    else
      let behind := console.print rest
      { behind with items := item :: behind.items }

/-- Print the tree of a store and the number of its objects. -/
def printStore (console : Console) (s : Store) (verbose : Bool) : Except Fault Printed :=
  (ofStore s verbose).map console.print

end Console

end RubyDoc.Report
