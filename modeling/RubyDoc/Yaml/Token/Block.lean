import RubyDoc.Yaml.Token.Basic

/-!
# Block scalars

A block scalar begins with a bar or an angle bracket, maybe with a sign for the
line ends at its end and a digit for its indentation, and holds the lines that
stand deep enough. Behind a bar line ends are kept. Behind an angle bracket a
line end between two lines that begin with no blank is folded.
-/

namespace RubyDoc.Yaml

/-- What becomes of the line ends at the end of a block scalar. -/
inductive Chomping where
  /-- None is kept. -/
  | strip
  /-- The first is kept. -/
  | clip
  /-- All are kept. -/
  | keep
deriving DecidableEq

/-- The sign of a chomping. -/
def chomping? (c : Char) : Option Chomping :=
  if c == '-' then some .strip else if c == '+' then some .keep else none

/-- Read an indentation digit, which is not zero. -/
def blockIndent? (c : Char) : Option Nat :=
  if c.isDigit then some (c.toNat - 48) else none

/-- Read the sign and the digit behind the mark of a block scalar, in either
order. -/
def blockHeader (c : Cursor) : Except Fault ((Chomping × Option Nat) × Cursor) :=
  let sign? := c.peek.bind chomping?
  let digit? := c.peek.bind blockIndent?
  let (found, c) : (Chomping × Option Nat) × Cursor :=
    match sign?, digit? with
    | some sign, _ =>
      let c := c.advance
      match c.peek.bind blockIndent? with
      | some digit => ((sign, some digit), c.advance)
      | none => ((sign, none), c)
    | none, some digit =>
      let c := c.advance
      match c.peek.bind chomping? with
      | some sign => ((sign, some digit), c.advance)
      | none => ((.clip, some digit), c)
    | none, none => ((.clip, none), c)
  if found.2 == some 0 || !endsField c.peek then .error .malformed else .ok (found, c)

/-- Pass the rest of a line, which holds nothing but a comment. -/
def emptyLine (c : Cursor) : Except Fault Cursor :=
  let c := c.skipSpaces.skipComment
  if endsLine c.peek then .ok c.lineBreak.2 else .error .malformed

/-- Take empty lines in front of the first line, and find the deepest
indentation among them. -/
def leadingBreaks : Nat → Nat → Cursor → List Char × Nat × Cursor
  | 0, deepest, c => ([], deepest, c)
  | fuel + 1, deepest, c =>
    if c.isAt ' ' then
      let c := c.advance
      leadingBreaks fuel (max deepest c.column) c
    else if c.peek.any isBreak then
      let (first, c) := c.lineBreak
      let (more, deepest, c) := leadingBreaks fuel deepest c
      (first ++ more, deepest, c)
    else ([], deepest, c)

/-- Pass spaces up to a column. -/
def indentTo (column : Nat) (c : Cursor) : Cursor :=
  c.advanceBy (min (column - c.column) (c.rest.takeWhile (· == ' ')).length)

/-- Take empty lines, each with no more spaces than an indentation. -/
def blockBreaks (indent : Nat) : Nat → Cursor → List Char × Cursor
  | 0, c => ([], c)
  | fuel + 1, c =>
    let c := indentTo indent c
    if c.peek.any isBreak then
      let (first, c) := c.lineBreak
      let (more, c) := blockBreaks indent fuel c
      (first ++ more, c)
    else ([], c)

/-- Read the lines of a block scalar, the empty ones in front of the first
given. -/
def blockLines (isFolded : Bool) (chomping : Chomping) (indent : Nat) :
    Nat → List Char → Cursor → List Char × Cursor
  | 0, _, c => ([], c)
  | fuel + 1, breaks, c =>
    if c.column != indent || c.peek.isNone then
      (if chomping == .keep then breaks else [], c)
    else
      let isWord (c : Cursor) : Bool := !c.peek.any isBlank
      let (line, after) := c.span fun char => !isBreak char
      let (own, after) := after.lineBreak
      let (more, after) := blockBreaks indent (after.rest.length + 1) after
      if after.column == indent && after.peek.isSome then
        let joint :=
          if isFolded && own == ['\n'] && isWord c && isWord after then
            (if more.isEmpty then [' '] else [])
          else own
        let (rest, after) := blockLines isFolded chomping indent fuel more after
        (breaks ++ line ++ joint ++ rest, after)
      else
        let ending := match chomping with
          | .strip => []
          | .clip => own
          | .keep => own ++ more
        (breaks ++ line ++ ending, after)

/-- Read a block scalar inside a block at an indentation. -/
def blockScalar (outer : Int) (c : Cursor) : Except Fault (Token × Cursor) := do
  let isFolded := c.isAt '>'
  let ((chomping, digit?), c) ← blockHeader c.advance
  let c ← emptyLine c
  let least := (max (outer + 1) 1).toNat
  let fuel := c.rest.length + 1
  let (breaks, indent, c) := match digit? with
    | none =>
      let (breaks, deepest, c) := leadingBreaks fuel 0 c
      (breaks, max least deepest, c)
    | some digit =>
      let indent := least + digit - 1
      let (breaks, c) := blockBreaks indent fuel c
      (breaks, indent, c)
  let (text, c) := blockLines isFolded chomping indent fuel breaks c
  return (.scalar (String.ofList text) false, c)

end RubyDoc.Yaml
