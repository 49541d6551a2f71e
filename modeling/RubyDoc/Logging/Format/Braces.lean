import RubyDoc.Logging.Format.Column
import RubyDoc.Logging.Record
import RubyDoc.Text.Word

/-!
# Formats with braces

In this style a reference stands in braces: the name of a field, an exclamation
mark and a letter for the way to write it, and a colon and a layout. Each part
but the name may be missing, and a layout may hold references of its own. Two
equal braces stand for one. A format is accepted if its braces fit together, if
all of its references are plain, and if it has one with a name at all.
-/

namespace RubyDoc.Logging.Braces

open RubyDoc.Text

/-- A reference. -/
structure Reference where
  /-- The name of a field, with what is picked out of it. -/
  name : List Char := []
  /-- The letter for the way to write it. -/
  conversion : Option Char := none
  /-- The layout. -/
  layout : List Char := []
deriving DecidableEq

/-- A piece of a format. -/
inductive Piece where
  /-- A character that stands for itself. -/
  | plain (c : Char)
  | reference (ref : Reference)
deriving DecidableEq

/-- Where in a format a reading stands. -/
inductive Place where
  /-- Among plain characters. -/
  | outside
  /-- Behind an opening brace. -/
  | opened
  /-- Behind a closing brace that closes nothing. -/
  | closed
  | inName
  /-- In brackets in a name. -/
  | inBrackets
  /-- Behind an exclamation mark. -/
  | atConversion
  /-- Behind the letter for the way to write a field. -/
  | behindConversion
  /-- In a layout, with a number of inner braces open. -/
  | inLayout (depth : Nat)
deriving DecidableEq

/-- What was read of a format. -/
structure Scan where
  /-- Where the reading stands. -/
  place : Place := .outside
  /-- The pieces so far from the last one on. -/
  pieces : List Piece := []
  /-- The reference at hand, its name and its layout from their ends. -/
  ref : Reference := {}
deriving DecidableEq

namespace Scan

/-- Go on at a place. -/
def moveTo (s : Scan) (place : Place) : Scan := { s with place }

/-- Take a plain character. -/
def plain (s : Scan) (c : Char) : Scan :=
  { s with place := .outside, pieces := .plain c :: s.pieces }

/-- The reference is complete. -/
def close (s : Scan) : Scan :=
  { place := .outside
    pieces := .reference
      { s.ref with name := s.ref.name.reverse, layout := s.ref.layout.reverse } :: s.pieces
    ref := {} }

/-- Take a character of a name. -/
def pushName (s : Scan) (place : Place) (c : Char) : Scan :=
  { s with place, ref := { s.ref with name := c :: s.ref.name } }

/-- Take a character of a layout. -/
def pushLayout (s : Scan) (depth : Nat) (c : Char) : Scan :=
  { s with place := .inLayout depth, ref := { s.ref with layout := c :: s.ref.layout } }

/-- Read a character inside a name. -/
def stepName (s : Scan) (c : Char) : Option Scan :=
  match c with
  | '\x7b' => none
  | '[' => some (s.pushName .inBrackets c)
  | '\x7d' => some s.close
  | ':' => some (s.moveTo (.inLayout 0))
  | '!' => some (s.moveTo .atConversion)
  | _ => some (s.pushName .inName c)

/-- Read a character. -/
def step (s : Scan) (c : Char) : Option Scan :=
  match s.place with
  | .outside =>
    match c with
    | '\x7b' => some (s.moveTo .opened)
    | '\x7d' => some (s.moveTo .closed)
    | _ => some (s.plain c)
  | .opened => if c == '\x7b' then some (s.plain c) else s.stepName c
  | .closed => if c == '\x7d' then some (s.plain c) else none
  | .inName => s.stepName c
  | .inBrackets => some (s.pushName (if c == ']' then .inName else .inBrackets) c)
  | .atConversion =>
    some { s with place := .behindConversion, ref := { s.ref with conversion := c } }
  | .behindConversion =>
    match c with
    | '\x7d' => some s.close
    | ':' => some (s.moveTo (.inLayout 0))
    | _ => none
  | .inLayout depth =>
    match c, depth with
    | '\x7b', _ => some (s.pushLayout (depth + 1) c)
    | '\x7d', 0 => some s.close
    | '\x7d', inner + 1 => some (s.pushLayout inner c)
    | _, _ => some (s.pushLayout depth c)

end Scan

/-- The pieces of a format, if its braces fit together. -/
def pieces? (format : List Char) : Option (List Piece) := do
  let s ← format.foldlM Scan.step {}
  if s.place = .outside then some s.pieces.reverse else none

/-- Leave out some word characters, one at least. -/
def skipWord? (cs : List Char) : Option (List Char) :=
  match cs with
  | c :: _ => if isWord c then some (cs.dropWhile isWord) else none
  | [] => none

/-- Leave out what is picked out of a field: names behind points, and anything
in brackets. The first argument bounds their number. -/
def skipPicks? : Nat → List Char → Option (List Char)
  | 0, _ => none
  | fuel + 1, cs =>
    match cs with
    | '.' :: more => (skipWord? more).bind (skipPicks? fuel)
    | '[' :: c :: more =>
      match c != ']', more.dropWhile (· != ']') with
      | true, ']' :: rest => skipPicks? fuel rest
      | _, _ => none
    | _ => some cs

/-- Whether nothing is left but one newline. -/
def isEnd (cs : List Char) : Bool := cs == [] || cs == ['\n']

/-- Whether the name of a reference is plain. -/
def isPlainName (name : List Char) : Bool :=
  ((skipWord? name).bind (skipPicks? (name.length + 1))).any isEnd

/-- Whether a character says where the fill of a column stands. -/
def isAlignment (c : Char) : Bool := "<>=^".toList.contains c

/-- Leave out a fill and an alignment. -/
def skipAlignment : List Char → List Char
  | a :: b :: cs =>
    if isAlignment b && a != '\n' then cs else if isAlignment a then b :: cs else a :: b :: cs
  | [a] => if isAlignment a then [] else [a]
  | [] => []

/-- Leave out a character if it is one of some. -/
def skipOne (characters : String) : List Char → List Char
  | c :: cs => if characters.toList.contains c then cs else c :: cs
  | [] => []

/-- Leave out digits, or a word in braces. -/
def skipCount (cs : List Char) : List Char :=
  match cs with
  | '\x7b' :: more =>
    match skipWord? more with
    | some ('\x7d' :: rest) => rest
    | _ => cs
  | _ => cs.dropWhile Char.isDigit

/-- Leave out a precision. -/
def skipPrecision (cs : List Char) : List Char :=
  match cs with
  | '.' :: more => if (skipCount more).length < more.length then skipCount more else cs
  | _ => cs

/-- Leave out the letter of a type. -/
def skipType : List Char → List Char
  | c :: cs => if isLetterOf "bcdefgnosx%" c then cs else c :: cs
  | [] => []

/-- Whether a layout is plain. -/
def isPlainLayout (layout : List Char) : Bool :=
  let cs := skipOne "#" (skipOne "+ -" (skipAlignment layout))
  let cs := skipOne ",_" (skipCount (skipOne "0" cs))
  isEnd (skipType (skipPrecision cs))

/-- Whether a reference is plain. One without a name is. -/
def Reference.isPlain (ref : Reference) : Bool :=
  (ref.name.isEmpty || isPlainName ref.name) && ref.conversion.all "rsa".toList.contains &&
    (ref.layout.isEmpty || isPlainLayout ref.layout)

/-- The references of some pieces. -/
def referencesOf (pieces : List Piece) : List Reference :=
  pieces.filterMap fun piece =>
    match piece with
    | .plain _ => none
    | .reference ref => some ref

/-- Whether a format is accepted. -/
def isAccepted (format : List Char) : Bool :=
  match pieces? format with
  | none => false
  | some pieces =>
    let refs := referencesOf pieces
    refs.all Reference.isPlain && refs.any fun ref => !ref.name.isEmpty

/-- A layout as it is followed. -/
structure Layout where
  /-- The character to fill up with, if it is said. -/
  fill : Option Char := none
  /-- Where the fill stands, if it is said. -/
  alignment : Option Alignment := none
  /-- How signs are shown, if it is said. -/
  sign : Option Char := none
  /-- Whether the mark of a base or the point is shown. -/
  isMarked : Bool := false
  /-- Whether zeros are the fill. -/
  isZeroed : Bool := false
  /-- The width of the column. -/
  width : Nat := 0
  /-- The character between groups of digits. -/
  separator : Option Char := none
  /-- The number of characters or places to show, if it is said. -/
  precision : Option Nat := none
  /-- The letter of a type, if there is one. -/
  type : Option Char := none
deriving DecidableEq

namespace Layout

/-- The alignment that a character stands for. -/
def alignmentOf? : Char → Option Alignment
  | '<' => some .left
  | '>' => some .right
  | '^' => some .center
  | '=' => some .behindSign
  | _ => none

/-- Read a fill and an alignment. -/
def readAlignment (l : Layout) (cs : List Char) : Layout × List Char :=
  match cs with
  | a :: b :: rest =>
    match alignmentOf? b, alignmentOf? a with
    | some alignment, _ => ({ l with fill := a, alignment }, rest)
    | none, some alignment => ({ l with alignment }, b :: rest)
    | none, none => (l, cs)
  | [a] => ({ l with alignment := alignmentOf? a }, if (alignmentOf? a).isSome then [] else cs)
  | [] => (l, [])

/-- Read a sign. -/
def readSign (l : Layout) (cs : List Char) : Layout × List Char :=
  match cs with
  | c :: rest => if "+ -".toList.contains c then ({ l with sign := c }, rest) else (l, cs)
  | [] => (l, [])

/-- Read the demand for a mark. -/
def readMark (l : Layout) : List Char → Layout × List Char
  | '#' :: rest => ({ l with isMarked := true }, rest)
  | cs => (l, cs)

/-- Read the demand for zeros. Where a fill is said a zero is a digit. -/
def readZero (l : Layout) (cs : List Char) : Layout × List Char :=
  match cs with
  | '0' :: rest => if l.fill.isSome then (l, cs) else ({ l with isZeroed := true }, rest)
  | _ => (l, cs)

/-- Read a width. -/
def readWidth (l : Layout) (cs : List Char) : Layout × List Char :=
  ({ l with width := naturalOf (cs.takeWhile Char.isDigit) }, cs.dropWhile Char.isDigit)

/-- Read a separator; two in a row are none. -/
def readSeparator (l : Layout) (cs : List Char) : Layout × List Char :=
  match cs with
  | c :: rest => if c == ',' || c == '_' then ({ l with separator := c }, rest) else (l, cs)
  | [] => (l, [])

/-- Read a precision, which needs a digit. -/
def readPrecision? (l : Layout) : List Char → Option (Layout × List Char)
  | '.' :: rest =>
    if rest.head?.any Char.isDigit then
      some ({ l with precision := naturalOf (rest.takeWhile Char.isDigit) },
        rest.dropWhile Char.isDigit)
    else none
  | cs => some (l, cs)

/-- Read a layout. -/
def ofChars? (cs : List Char) : Option Layout := do
  let (l, cs) := readAlignment {} cs
  let (l, cs) := l.readSign cs
  let (l, cs) := l.readMark cs
  let (l, cs) := l.readZero cs
  let (l, cs) := l.readWidth cs
  let (l, cs) := l.readSeparator cs
  let (l, cs) ← l.readPrecision? cs
  match cs with
  | [] => some l
  | [c] => some { l with type := some c }
  | _ => none

/-- The character to fill up with. -/
def fillChar (l : Layout) : Char := l.fill.getD (if l.isZeroed then '0' else ' ')

/-- Show a text. What is meant for numbers is refused. -/
def showText (l : Layout) (s : String) : Option (List Char) :=
  let isText := l.type.all (· == 's') && l.separator.isNone && l.sign.isNone && !l.isMarked &&
    l.alignment != some .behindSign
  if isText then
    let column : Column :=
      { width := l.width, alignment := l.alignment.getD .left, fill := l.fillChar }
    some (column.set [] (l.precision.elim s.toList s.toList.take))
  else none

/-- Whether the separator goes with the type of a number. -/
def hasGoodSeparator (l : Layout) : Bool :=
  match l.separator with
  | none => true
  | some separator =>
    l.type.all "defgEFG%".toList.contains ||
      (separator == '_' && l.type.any "boxX".toList.contains)

/-- The sign of a number. -/
def signChars (l : Layout) : List Char :=
  match l.sign with
  | some '+' => ['+']
  | some ' ' => [' ']
  | _ => []

/-- Set a number in its column. Zeros that fill it up are digits, and grouped as
such. -/
def setNumber (l : Layout) (mark : List Char) (groupSize : Nat) (x : Numeral) : List Char :=
  let column : Column :=
    { width := l.width
      alignment := l.alignment.getD (if l.isZeroed then .behindSign else .right)
      fill := l.fillChar }
  let sign := l.signChars ++ mark
  let isFilledByDigits := column.alignment = .behindSign ∧ column.fill = '0'
  let width := if isFilledByDigits then l.width - (sign.length + x.rest.length) else 0
  column.set sign (Numeral.grouped l.separator groupSize width x.whole ++ x.rest)

/-- Show a number by its digits, in groups of a size. Such numbers have no
precision. -/
def showDigits (l : Layout) (groupSize : Nat) (mark digits : List Char) : Option (List Char) :=
  if l.precision.isSome then none
  else some (l.setNumber (if l.isMarked then mark else []) groupSize { whole := digits })

/-- Show a number with places or a power of ten. -/
def showNumeral (l : Layout) (write : Bool → Nat → Nat → Numeral) (n : Nat) : List Char :=
  l.setNumber [] 3 (write l.isMarked (l.precision.getD 6) n)

/-- A number of hundredths as a share of a hundred. -/
def percentage (keepsPoint : Bool) (places n : Nat) : Numeral :=
  let x := Numeral.fixed keepsPoint places (n * 100)
  { x with rest := x.rest ++ ['%'] }

/-- Show the character that a number stands for. It has no sign, no mark and no
precision. -/
def showCharacter (l : Layout) (n : Nat) : Option (List Char) :=
  if l.sign.isSome || l.isMarked || l.precision.isSome || 0x110000 ≤ n then none
  else some (l.setNumber [] 3 { whole := [], rest := [Char.ofNat n] })

/-- Show a number by a type. -/
def showNumber (l : Layout) (n : Nat) : Option (List Char) :=
  if !l.hasGoodSeparator then none
  else
    match l.type.getD 'd' with
    | 'd' | 'n' => l.showDigits 3 [] (Nat.toDigits 10 n)
    | 'b' => l.showDigits 4 ['0', 'b'] (Nat.toDigits 2 n)
    | 'o' => l.showDigits 4 ['0', 'o'] (Nat.toDigits 8 n)
    | 'x' => l.showDigits 4 ['0', 'x'] (Nat.toDigits 16 n)
    | 'X' => l.showDigits 4 ['0', 'X'] (inCapitals (Nat.toDigits 16 n))
    | 'c' => l.showCharacter n
    | 'f' | 'F' => some (l.showNumeral Numeral.fixed n)
    | 'e' => some (l.showNumeral (fun keeps => Numeral.scientific keeps 'e') n)
    | 'E' => some (l.showNumeral (fun keeps => Numeral.scientific keeps 'E') n)
    | 'g' => some (l.showNumeral (fun keeps => Numeral.general keeps 'e') n)
    | 'G' => some (l.showNumeral (fun keeps => Numeral.general keeps 'E') n)
    | '%' => some (l.showNumeral percentage n)
    | _ => none

end Layout

/-- Show the content of a field by a layout. -/
def showContent (content : Content) (layout : List Char) : Option (List Char) :=
  if layout.isEmpty then some content.shown.toList
  else do
    let l ← Layout.ofChars? layout
    match content with
    | .text s => l.showText s
    | .number n => l.showNumber n
    | .empty => none

/-- The character of a text at a place that is written in brackets. -/
def pick? (content : Content) (place : List Char) : Option Content :=
  match content with
  | .text s =>
    if !place.isEmpty && place.all Char.isDigit then
      (s.toList[naturalOf place]?).map fun c => .text (String.singleton c)
    else none
  | _ => none

/-- Pick characters out of a field. The first argument bounds their number. -/
def pickAll? : Nat → Content → List Char → Option Content
  | 0, _, _ => none
  | fuel + 1, content, cs =>
    match cs with
    | [] => some content
    | '[' :: more =>
      match more.dropWhile (· != ']') with
      | ']' :: rest => do
        let picked ← pick? content (more.takeWhile (· != ']'))
        pickAll? fuel picked rest
      | _ => none
    | _ => none

/-- Whether a character ends the name of a field proper. -/
def isPick (c : Char) : Bool := c == '.' || c == '['

/-- The content that a reference means. Places that are counted, and names
behind points, mean none. -/
def Reference.content? (ref : Reference) (fields : Fields) : Option Content := do
  let content ← fields (String.ofList (ref.name.takeWhile fun c => !isPick c))
  let picked ← pickAll? (ref.name.length + 1) content (ref.name.dropWhile fun c => !isPick c)
  match ref.conversion with
  | none => some picked
  | some 's' => some (.text picked.shown)
  | some 'r' => some (.text picked.quoted)
  | some 'a' => some (.text picked.quotedPlain)
  | some _ => none

/-- Show fields. The first argument says how deep references may stand in
layouts of others. -/
def showWithin (fields : Fields) : Nat → List Char → Option (List Char)
  | 0, _ => none
  | depth + 1, format => do
    let pieces ← pieces? format
    let shown ← pieces.mapM fun piece =>
      match piece with
      | .plain c => some [c]
      | .reference ref => do
        let content ← ref.content? fields
        let layout ← if ref.layout.contains '\x7b' then showWithin fields depth ref.layout
          else some ref.layout
        showContent content layout
    some shown.flatten

/-- Show fields by a format, if that can be done. -/
def show? (format : List Char) (fields : Fields) : Option (List Char) := showWithin fields 2 format

end RubyDoc.Logging.Braces
