import RubyDoc.Logging.Record
import RubyDoc.Text.Word

/-!
# Formats with dollar signs

In this style a reference is a dollar sign and a name of letters, digits and
underscores, maybe in braces. Two dollar signs stand for one, and another dollar
sign has no meaning. A format is accepted if all of its dollar signs have one
and if it has a reference at all.
-/

namespace RubyDoc.Logging.Dollars

open RubyDoc.Text

/-- A piece of a format. -/
inductive Piece where
  /-- A character that stands for itself. -/
  | plain (c : Char)
  | reference (name : String)
  /-- A dollar sign without a meaning. -/
  | bare
deriving DecidableEq

/-- A character of a name: a letter of the English alphabet, a digit, or the
underscore. -/
def isNameChar (c : Char) : Bool := c.isAlphanum || c == '_'

/-- Read a name. -/
def readName? (cs : List Char) : Option (String × List Char) :=
  match cs with
  | c :: _ =>
    if isNameStart c then
      some (String.ofList (cs.takeWhile isNameChar), cs.dropWhile isNameChar)
    else none
  | [] => none

/-- Read what stands behind a dollar sign: a piece, and the number of characters
that belong to it. -/
def readPiece (cs : List Char) : Piece × Nat :=
  match cs with
  | '$' :: _ => (.plain '$', 1)
  | '\x7b' :: more =>
    match readName? more with
    | some (name, '\x7d' :: rest) => (.reference name, cs.length - rest.length)
    | _ => (.bare, 0)
  | _ =>
    match readName? cs with
    | some (name, rest) => (.reference name, cs.length - rest.length)
    | none => (.bare, 0)

/-- The pieces of a format. The number says how many characters still belong to
the piece read before. -/
def piecesFrom : Nat → List Char → List Piece
  | _, [] => []
  | n + 1, _ :: cs => piecesFrom n cs
  | 0, c :: cs =>
    if c == '$' then
      let (piece, length) := readPiece cs
      piece :: piecesFrom length cs
    else .plain c :: piecesFrom 0 cs

/-- Whether a piece is a reference. -/
def Piece.isReference : Piece → Bool
  | reference _ => true
  | _ => false

/-- Whether a format is accepted. -/
def isAccepted (format : List Char) : Bool :=
  let pieces := piecesFrom 0 format
  !pieces.contains .bare && pieces.any Piece.isReference

/-- What a piece shows. -/
def Piece.show? (fields : Fields) : Piece → Option (List Char)
  | plain c => some [c]
  | reference name => (fields name).map fun content => content.shown.toList
  | bare => none

/-- Show fields by a format, if that can be done. -/
def show? (format : List Char) (fields : Fields) : Option (List Char) :=
  ((piecesFrom 0 format).mapM (Piece.show? fields)).map List.flatten

end RubyDoc.Logging.Dollars
