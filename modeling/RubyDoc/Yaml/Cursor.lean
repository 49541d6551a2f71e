/-!
# Places in a YAML text

A cursor stands in front of what is left of a text and knows how far it has
come. Lines end at five characters, and a carriage return takes a newline after
it along. Where nothing is left, every question for a blank is answered by yes.
-/

namespace RubyDoc.Yaml

/-- Whether a character ends a line. -/
def isBreak (c : Char) : Bool :=
  c == '\n' || c == '\r' || c == '\u0085' || c == '\u2028' || c == '\u2029'

/-- Whether a character is a space or a tab. -/
def isBlank (c : Char) : Bool := c == ' ' || c == '\t'

/-- Whether a field ends here: at a space, at a line end, or for want of more. -/
def endsField : Option Char → Bool
  | none => true
  | some c => c == ' ' || isBreak c

/-- Whether a word ends here: where a field does, or at a tab. -/
def endsWord (c? : Option Char) : Bool := endsField c? || c? == some '\t'

/-- Whether a line ends here. -/
def endsLine : Option Char → Bool
  | none => true
  | some c => isBreak c

/-- A place in a text. -/
structure Cursor where
  /-- What is left. -/
  rest : List Char
  /-- The number of characters passed. -/
  index : Nat := 0
  /-- The number of lines passed. -/
  line : Nat := 0
  /-- The number of characters passed on this line, byte order marks apart. -/
  column : Nat := 0

namespace Cursor

/-- The next character. -/
def peek (c : Cursor) : Option Char := c.rest.head?

/-- The character behind some others. -/
def peekAt (c : Cursor) (n : Nat) : Option Char := c.rest[n]?

/-- Whether the next character is a given one. -/
def isAt (c : Cursor) (char : Char) : Bool := c.peek == some char

/-- Pass one character. -/
def advance (c : Cursor) : Cursor :=
  match c.rest with
  | [] => c
  | char :: rest =>
    if isBreak char && !(char == '\r' && rest.head? == some '\n') then
      { rest, index := c.index + 1, line := c.line + 1, column := 0 }
    else
      { c with rest, index := c.index + 1
               column := if char == '\ufeff' then c.column else c.column + 1 }

/-- Pass some characters. -/
def advanceBy : Nat → Cursor → Cursor
  | 0, c => c
  | n + 1, c => advanceBy n c.advance

/-- Take the characters of a kind. -/
def span (c : Cursor) (isOfKind : Char → Bool) : List Char × Cursor :=
  let taken := c.rest.takeWhile isOfKind
  (taken, c.advanceBy taken.length)

/-- Pass the characters of a kind. -/
def skip (c : Cursor) (isOfKind : Char → Bool) : Cursor := (c.span isOfKind).2

/-- Pass spaces. -/
def skipSpaces (c : Cursor) : Cursor := c.skip (· == ' ')

/-- Pass a comment, if there is one. -/
def skipComment (c : Cursor) : Cursor :=
  if c.isAt '#' then c.skip fun char => !isBreak char else c

/-- Take a line end. Most of them count as a newline; nothing is taken elsewhere. -/
def lineBreak (c : Cursor) : List Char × Cursor :=
  match c.rest with
  | '\r' :: '\n' :: _ => (['\n'], c.advanceBy 2)
  | char :: _ =>
    if char == '\u2028' || char == '\u2029' then ([char], c.advance)
    else if isBreak char then (['\n'], c.advance)
    else ([], c)
  | [] => ([], c)

/-- Whether three dots or three dashes stand here as a word. -/
def isAtMark (c : Cursor) : Bool :=
  match c.rest with
  | '-' :: '-' :: '-' :: rest | '.' :: '.' :: '.' :: rest => endsWord rest.head?
  | _ => false

end Cursor

/-- The character lines around folded text: the first line end is a space if
nothing else stands for it. -/
def foldBreaks (first more : List Char) : List Char :=
  if first == ['\n'] then (if more.isEmpty then [' '] else more) else first ++ more

end RubyDoc.Yaml
