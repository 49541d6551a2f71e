import RubyDoc.Text.Numeral

/-!
# Columns

What a format shows is set in columns. A column has a width, and what is shorter
is filled up on the left, on the right, on both sides, or behind the sign. What
is longer stays as it is.
-/

namespace RubyDoc.Logging

open RubyDoc.Text

/-- Where the fill of a column stands. -/
inductive Alignment where
  /-- Behind the content. -/
  | left
  /-- Before the content. -/
  | right
  /-- On both sides, the greater half behind. -/
  | center
  /-- Between the sign of a number and its digits. -/
  | behindSign
deriving DecidableEq

/-- A column. -/
structure Column where
  /-- The least number of characters. -/
  width : Nat := 0
  /-- Where the fill stands. -/
  alignment : Alignment := .left
  /-- The character it is filled up with. -/
  fill : Char := ' '
deriving DecidableEq

namespace Column

/-- Set a sign with what belongs to it, and the content behind it, in a column. -/
def set (column : Column) (sign content : List Char) : List Char :=
  let missing := column.width - (sign.length + content.length)
  let fill := List.replicate missing column.fill
  match column.alignment with
  | .left => sign ++ content ++ fill
  | .right => fill ++ sign ++ content
  | .center =>
    fill.take (missing / 2) ++ sign ++ content ++ fill.drop (missing / 2)
  | .behindSign => sign ++ fill ++ content

end Column

/-- The digits of a number in capitals. -/
def inCapitals (cs : List Char) : List Char := cs.map Char.toUpper

/-- Whether a letter, small or capital, is one of some small letters. The dotless
i, the dotted capital I and the long s count as the letters they look like. -/
def isLetterOf (letters : String) (c : Char) : Bool :=
  letters.toList.contains
    (if c == 'ı' || c == 'İ' then 'i' else if c == 'ſ' then 's' else c.toLower)

end RubyDoc.Logging
