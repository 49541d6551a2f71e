import RubyDoc.Yaml.Token.Basic

/-!
# Plain scalars

A plain scalar has no marks of its own. It ends at a colon that ends a key, at
the punctuation of a flow collection, at a comment, and on a line that stands
less deep. Line ends inside it fold as in quoted scalars.
-/

namespace RubyDoc.Yaml

/-- Whether a character is punctuation of a flow collection. -/
def isFlowMark (c : Char) : Bool :=
  c == ',' || c == '[' || c == ']' || c == '\x7b' || c == '\x7d'

/-- Whether a character is an indicator that begins no plain scalar. -/
def isIndicator (c : Char) : Bool := "-?:,[]\x7b\x7d#&*!|>'\"%@`".toList.contains c

/-- Whether a plain scalar begins here. Dashes do if a word goes on behind
them, and outside flow collections question marks and colons too. -/
def beginsPlain (inFlow : Bool) (cs : List Char) : Bool :=
  match cs with
  | [] => false
  | c :: rest =>
    (!endsWord (some c) && !isIndicator c) ||
      (!endsWord rest.head? && (c == '-' || (!inFlow && (c == '?' || c == ':'))))

/-- Take the characters of a plain scalar up to a blank or its end. -/
def plainWord (inFlow : Bool) : List Char → List Char
  | [] => []
  | c :: rest =>
    let endsKey := c == ':' &&
      (endsWord rest.head? || (inFlow && rest.head?.any isFlowMark))
    if endsWord (some c) || endsKey || (inFlow && (isFlowMark c || c == '?')) then []
    else c :: plainWord inFlow rest

/-- Take the line ends and spaces between two words on different lines. Nothing
is left at a document mark. -/
def plainBreaks : Nat → Cursor → Option (List Char) × Cursor
  | 0, c => (none, c)
  | fuel + 1, c =>
    if c.isAtMark then (none, c)
    else
      let c := c.skipSpaces
      if c.peek.any isBreak then
        let (first, c) := c.lineBreak
        let (more, c) := plainBreaks fuel c
        (more.map (first ++ ·), c)
      else (some [], c)

/-- What stands between two words of a plain scalar. -/
structure PlainGap where
  /-- What it folds to; nothing if the scalar has to end. -/
  text : List Char
  /-- Whether it holds a line end. -/
  hasBreak : Bool
  /-- The place behind it. -/
  cursor : Cursor

/-- Read what stands between two words of a plain scalar. -/
def plainGap (c : Cursor) : PlainGap :=
  let (spaces, c) := c.span (· == ' ')
  if c.peek.any isBreak then
    let (first, c) := c.lineBreak
    match plainBreaks (c.rest.length + 1) c with
    | (some more, c) => ⟨foldBreaks first more, true, c⟩
    | (none, c) => ⟨[], true, c⟩
  else ⟨spaces, false, c⟩

/-- Read the words of a plain scalar. The flag of the result says whether a line
end was passed behind the last word. -/
def plainWords (inFlow : Bool) (indent : Int) : Nat → Cursor → List Char × Bool × Cursor
  | 0, c => ([], false, c)
  | fuel + 1, c =>
    let word := plainWord inFlow c.rest
    let gap := plainGap (c.advanceBy word.length)
    let c := gap.cursor
    let isOver := gap.text.isEmpty || c.isAt '#' || (!inFlow && (c.column : Int) < indent) ||
      (plainWord inFlow c.rest).isEmpty
    if isOver then (word, gap.hasBreak, c)
    else
      let (more, hasBreak, c) := plainWords inFlow indent fuel c
      (word ++ gap.text ++ more, hasBreak, c)

/-- Read a plain scalar that goes on at an indentation. -/
def plainScalar (inFlow : Bool) (indent : Int) (c : Cursor) : Token × Bool × Cursor :=
  let (text, hasBreak, c) := plainWords inFlow indent (c.rest.length + 1) c
  (.scalar (String.ofList text) true, hasBreak, c)

end RubyDoc.Yaml
