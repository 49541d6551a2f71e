import RubyDoc.Logging.Format.Column
import RubyDoc.Logging.Record
import RubyDoc.Text.Word

/-!
# Formats with percent signs

In this style a reference is a percent sign, the name of a field in parentheses,
flags, a width, a precision, a letter for the length that says nothing, and the
letter of a conversion. Two percent signs stand for one. A format is accepted if
it has a plain reference somewhere; whether records can be shown by it is seen
when one is written. A reference without a name shows nothing.
-/

namespace RubyDoc.Logging.Percent

open RubyDoc.Text

/-- The characters that a plain reference ends with, letters in small. -/
def conversions : String := "diouxefgcrsa%"

/-- Whether a character is a flag. -/
def isFlag (c : Char) : Bool := "#0+ -".toList.contains c

/-- Leave out a star or digits, if there are any. -/
def skipExtent : List Char → List Char
  | '*' :: cs => cs
  | cs => cs.dropWhile Char.isDigit

/-- Whether a plain reference begins with what stands behind a percent sign. -/
def beginsReference : List Char → Bool
  | '(' :: cs =>
    match cs.takeWhile isWord, cs.dropWhile isWord with
    | _ :: _, ')' :: cs =>
      let cs := skipExtent (cs.dropWhile isFlag)
      let cs := match cs with
        | '.' :: more => if (skipExtent more).length < more.length then skipExtent more else cs
        | _ => cs
      cs.head?.any (isLetterOf conversions)
    | _, _ => false
  | _ => false

/-- Whether a format is accepted. -/
def isAccepted : List Char → Bool
  | [] => false
  | '%' :: cs => beginsReference cs || isAccepted cs
  | _ :: cs => isAccepted cs

/-- A reference. -/
structure Reference where
  /-- The name of a field. -/
  field : String
  /-- The flags. -/
  flags : List Char
  /-- The width of the column. -/
  width : Nat
  /-- The number of characters, digits or places to show, if it is said. -/
  precision : Option Nat
  /-- The letter of the conversion. -/
  conversion : Char
deriving DecidableEq

/-- Read a name up to the parenthesis that closes it; inner ones come in pairs.
The arguments are the number of inner ones that are open, and the name so far
from its end. -/
def readName : Nat → List Char → List Char → Option (String × List Char)
  | _, _, [] => none
  | 0, name, ')' :: cs => some (String.ofList name.reverse, cs)
  | depth + 1, name, ')' :: cs => readName depth (')' :: name) cs
  | depth, name, '(' :: cs => readName (depth + 1) ('(' :: name) cs
  | depth, name, c :: cs => readName depth (c :: name) cs

/-- Read a precision. One that is not said in digits is zero. -/
def readPrecision : List Char → Option Nat × List Char
  | '.' :: cs => (some (naturalOf (cs.takeWhile Char.isDigit)), cs.dropWhile Char.isDigit)
  | cs => (none, cs)

/-- Leave out a letter for the length. -/
def skipLength : List Char → List Char
  | 'h' :: cs | 'l' :: cs | 'L' :: cs => cs
  | cs => cs

/-- Read what stands behind the name of a reference. A star is no width. -/
def readTail (field : String) (cs : List Char) : Option (Reference × List Char) :=
  let flags := cs.takeWhile isFlag
  let cs := cs.dropWhile isFlag
  let width := naturalOf (cs.takeWhile Char.isDigit)
  let (precision, cs) := readPrecision (cs.dropWhile Char.isDigit)
  match skipLength cs with
  | conversion :: rest => some (⟨field, flags, width, precision, conversion⟩, rest)
  | [] => none

/-- Read a reference behind its percent sign. -/
def readReference? : List Char → Option (Reference × List Char)
  | '(' :: cs => do
    let (name, rest) ← readName 0 [] cs
    readTail name rest
  | _ => none

namespace Reference

/-- Whether a reference has a flag. -/
def has (ref : Reference) (flag : Char) : Bool := ref.flags.contains flag

/-- The column of texts. -/
def column (ref : Reference) : Column :=
  { width := ref.width, alignment := if ref.has '-' then .left else .right }

/-- The column of numbers, which may be filled up with zeros. -/
def numberColumn (ref : Reference) : Column :=
  if ref.has '0' && !ref.has '-' then
    { width := ref.width, alignment := .behindSign, fill := '0' }
  else ref.column

/-- The sign of a number. -/
def sign (ref : Reference) : List Char :=
  if ref.has '+' then ['+'] else if ref.has ' ' then [' '] else []

/-- Show a text, or as much of it as is asked for. -/
def showText (ref : Reference) (s : String) : List Char :=
  ref.column.set [] (ref.precision.elim s.toList s.toList.take)

/-- Show a number by its digits, with the mark of its base or without. -/
def showDigits (ref : Reference) (mark digits : List Char) : List Char :=
  ref.numberColumn.set (ref.sign ++ if ref.has '#' then mark else [])
    (Numeral.grouped none 3 (ref.precision.getD 0) digits)

/-- Show a number with places or a power of ten. -/
def showNumeral (ref : Reference) (write : Bool → Nat → Nat → Numeral) (n : Nat) : List Char :=
  ref.numberColumn.set ref.sign (write (ref.has '#') (ref.precision.getD 6) n).chars

/-- Show a number. -/
def showNumber (ref : Reference) (n : Nat) : Option (List Char) :=
  match ref.conversion with
  | 'd' | 'i' | 'u' => some (ref.showDigits [] (Nat.toDigits 10 n))
  | 'o' => some (ref.showDigits ['0', 'o'] (Nat.toDigits 8 n))
  | 'x' => some (ref.showDigits ['0', 'x'] (Nat.toDigits 16 n))
  | 'X' => some (ref.showDigits ['0', 'X'] (inCapitals (Nat.toDigits 16 n)))
  | 'f' | 'F' => some (ref.showNumeral Numeral.fixed n)
  | 'e' | 'E' => some (ref.showNumeral (fun keeps => Numeral.scientific keeps ref.conversion) n)
  | 'g' => some (ref.showNumeral (fun keeps => Numeral.general keeps 'e') n)
  | 'G' => some (ref.showNumeral (fun keeps => Numeral.general keeps 'E') n)
  | 'c' => if n < 0x110000 then some (ref.column.set [] [Char.ofNat n]) else none
  | _ => none

/-- Show the content of a field. -/
def showContent (ref : Reference) (content : Content) : Option (List Char) :=
  match ref.conversion, content with
  | 's', _ => some (ref.showText content.shown)
  | 'r', _ => some (ref.showText content.quoted)
  | 'a', _ => some (ref.showText content.quotedPlain)
  | 'c', .text s => if s.toList.length == 1 then some (ref.column.set [] s.toList) else none
  | _, .number n => ref.showNumber n
  | _, _ => none

/-- What a reference shows. -/
def show? (ref : Reference) (fields : Fields) : Option (List Char) :=
  (fields ref.field).bind ref.showContent

end Reference

/-- Show fields. The number says how many characters still belong to the
reference read before. -/
def showFrom (fields : Fields) : Nat → List Char → Option (List Char)
  | _, [] => some []
  | n + 1, _ :: cs => showFrom fields n cs
  | 0, '%' :: '%' :: cs => (showFrom fields 0 cs).map ('%' :: ·)
  | 0, '%' :: cs =>
    match readReference? cs with
    | some (ref, rest) => do
      let here ← ref.show? fields
      let after ← showFrom fields (cs.length - rest.length) cs
      some (here ++ after)
    | none => none
  | 0, c :: cs => (showFrom fields 0 cs).map (c :: ·)

/-- Show fields by a format, if that can be done. -/
def show? (format : List Char) (fields : Fields) : Option (List Char) := showFrom fields 0 format

end RubyDoc.Logging.Percent
