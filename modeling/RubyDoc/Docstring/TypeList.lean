import RubyDoc.Text.Lines

/-!
# Type lists

A type list stands in square brackets and is separated by commas. Commas and
brackets nested inside other brackets belong to the types, and the `>` of an
arrow `=>` closes nothing. One scanner finds where a list ends, the other
splits it at its own commas.
-/

namespace RubyDoc.TypeList

open RubyDoc.Text

/-- The brackets that open a nested part of a type. -/
def isOpening (c : Char) : Bool := c == '[' || c == '<' || c == '{' || c == '('

/-- The brackets that close one. -/
def isClosing (c : Char) : Bool := c == ']' || c == '>' || c == '}' || c == ')'

/-- Whether a character closes a bracket after the given character: the `>` of
an arrow does not. -/
def closes (previous : Option Char) (c : Char) : Bool :=
  isClosing c && !(c == '>' && previous == some '=')

/-- The bracket depth after one more character. -/
def depthAfter (depth : Int) (previous : Option Char) (c : Char) : Int :=
  if isOpening c then depth + 1 else if closes previous c then depth - 1 else depth

/-- Cut a list at the commas outside all brackets. The arguments are the depth
so far and the character before. -/
def cutAtCommas : Int → Option Char → List Char → List (List Char)
  | _, _, [] => [[]]
  | depth, previous, c :: cs =>
    let now := depthAfter depth previous c
    if c == ',' && now == 0 then [] :: cutAtCommas now (some c) cs
    else consFirst c (cutAtCommas now (some c) cs)

/-- The items between the commas, trimmed; a blank last item does not count. -/
def itemsOf : List (List Char) → List (List Char)
  | [] => []
  | [last] => if (trim last).isEmpty then [] else [trim last]
  | item :: items => trim item :: itemsOf items

/-- The types of a comma separated list. -/
def split (s : String) : List String :=
  (itemsOf (cutAtCommas 0 none s.toList)).map String.ofList

/-- Read up to the bracket that brings the depth down to zero: what is before
it and what is after it. The depth is that of the characters already read. -/
def upToClose : Nat → Option Char → List Char → Option (List Char × List Char)
  | _, _, [] => none
  | depth, previous, c :: cs =>
    if isOpening c then
      (upToClose (depth + 1) (some c) cs).map fun r => (c :: r.1, r.2)
    else if closes previous c then
      if depth == 1 then some ([], cs)
      else (upToClose (depth - 1) (some c) cs).map fun r => (c :: r.1, r.2)
    else (upToClose depth (some c) cs).map fun r => (c :: r.1, r.2)

/-- Take a bracketed type list off the front of a text. A text that does not
begin with a square bracket, or never closes it, has none and stays whole. -/
def splitOff (s : String) : Option (List String) × String :=
  match s.toList with
  | '[' :: cs =>
    match upToClose 1 (some '[') cs with
    | some (inside, after) => (some (split (String.ofList inside)), String.ofList (trim after))
    | none => (none, s)
  | _ => (none, s)

end RubyDoc.TypeList
