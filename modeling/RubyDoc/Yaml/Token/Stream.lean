import RubyDoc.Yaml.Token.Block
import RubyDoc.Yaml.Token.Plain
import RubyDoc.Yaml.Token.Property

/-!
# The tokens of a text

A text is cut into tokens one after the other. Outside flow collections the
indentation opens and closes blocks. That something is a key shows only at the
colon behind it, so wherever a key may begin its place is remembered, one for
every flow collection that is open; at a colon the key mark is put in there. A
key stands on one line and is no longer than 1024 characters.

A text that cannot be cut to its end gives the tokens in front of the first
place that is still open, with the reason.
-/

namespace RubyDoc.Yaml

/-- A place where a key may begin. -/
structure KeyPlace where
  /-- The number of tokens in front of it. -/
  number : Nat
  /-- Whether nothing but a key may begin there. -/
  isRequired : Bool
  /-- The cursor in front of it. -/
  cursor : Cursor

/-- A text that is being cut into tokens. -/
structure Cutting where
  /-- The place that has been reached. -/
  cursor : Cursor
  /-- The tokens so far, latest first. -/
  tokens : List Token := []
  /-- The number of tokens so far. -/
  count : Nat := 0
  /-- The column of the innermost block, below zero for none. -/
  indent : Int := -1
  /-- The columns of the blocks around it. -/
  outer : List Int := []
  /-- Whether a key may begin at the next token. -/
  allowsKey : Bool := true
  /-- Where keys may have begun, for every open flow collection, innermost
  first, and last for the blocks. -/
  places : List (Option KeyPlace) := [none]

namespace Cutting

/-- Whether a flow collection is open. -/
def inFlow (s : Cutting) : Bool := 1 < s.places.length

/-- Put a token at the end. -/
def push (s : Cutting) (token : Token) : Cutting :=
  { s with tokens := token :: s.tokens, count := s.count + 1 }

/-- Put a token in front of the tokens from a number on. -/
def insertAt (s : Cutting) (number : Nat) (token : Token) : Cutting :=
  let later := s.count - number
  { s with tokens := s.tokens.take later ++ token :: s.tokens.drop later, count := s.count + 1 }

/-- Forget a place for a key; one that needs a key is an error. -/
def dropPlace : Option KeyPlace → Except Fault (Option KeyPlace)
  | some place => if place.isRequired then .error .malformed else .ok none
  | none => .ok none

/-- Whether a key that began at a place is on another line by now, or too long. -/
def isStale (c : Cursor) (place : KeyPlace) : Bool :=
  place.cursor.line != c.line || 1024 < c.index - place.cursor.index

/-- Forget the places that are too far away. -/
def dropStale (s : Cutting) : Except Fault Cutting := do
  let places ← s.places.mapM fun place? =>
    if place?.any (isStale s.cursor) then dropPlace place? else .ok place?
  return { s with places }

/-- Forget the place of the innermost collection. -/
def dropInnermost (s : Cutting) : Except Fault Cutting :=
  match s.places with
  | [] => .ok s
  | innermost :: others => (dropPlace innermost).map fun p => { s with places := p :: others }

/-- Remember that a key may begin here. -/
def savePlace (s : Cutting) : Except Fault Cutting := do
  if s.allowsKey then
    let s ← s.dropInnermost
    let place : KeyPlace :=
      { number := s.count
        isRequired := !s.inFlow && s.indent == (s.cursor.column : Int)
        cursor := s.cursor }
    return { s with places := some place :: s.places.drop 1 }
  else return s

/-- Close the blocks that stand deeper than a column; those around the innermost
one are given. -/
def closeFrom (column : Int) : List Int → Cutting → Cutting
  | [], s => s
  | around :: outer, s =>
    if column < s.indent then
      closeFrom column outer { s.push .blockEnd with indent := around, outer }
    else s

/-- Close the blocks that stand deeper than a column, outside flow collections. -/
def closeBlocks (s : Cutting) (column : Int) : Cutting :=
  if s.inFlow then s else closeFrom column s.outer s

/-- Open a block at a column if it stands deeper than the innermost one. -/
def openBlock (s : Cutting) (column number : Nat) (token : Token) : Cutting :=
  if s.indent < column then
    { s.insertAt number token with indent := column, outer := s.indent :: s.outer }
  else s

/-- Pass spaces, comments and line ends. Behind a line end of a block a key may
begin. -/
def skipBetween : Nat → Cutting → Cutting
  | 0, s => s
  | fuel + 1, s =>
    let c := s.cursor.skipSpaces.skipComment
    if c.peek.any isBreak then
      skipBetween fuel { s with cursor := c.lineBreak.2, allowsKey := s.allowsKey || !s.inFlow }
    else { s with cursor := c }

/-- Take one token of known length. -/
def take (s : Cutting) (length : Nat) (token : Token) : Cutting :=
  { s.push token with cursor := s.cursor.advanceBy length }

/-- Take a document mark, which closes all blocks. -/
def takeMark (s : Cutting) (token : Token) : Except Fault Cutting := do
  let s ← (s.closeBlocks (-1)).dropInnermost
  return { s.take 3 token with allowsKey := false }

/-- Take a directive. -/
def takeDirective (s : Cutting) : Except Fault Cutting := do
  let s ← (s.closeBlocks (-1)).dropInnermost
  let (token, cursor) ← directive s.cursor
  return { s.push token with cursor, allowsKey := false }

/-- Open a flow collection, which may be a key itself. -/
def openFlow (s : Cutting) (token : Token) : Except Fault Cutting := do
  let s ← s.savePlace
  return { s.take 1 token with allowsKey := true, places := none :: s.places }

/-- Close a flow collection. -/
def closeFlow (s : Cutting) (token : Token) : Except Fault Cutting := do
  let s ← s.dropInnermost
  if s.inFlow then return { s.take 1 token with allowsKey := false, places := s.places.drop 1 }
  throw .malformed

/-- Take the comma of a flow collection. -/
def takeComma (s : Cutting) : Except Fault Cutting := do
  let s ← s.dropInnermost
  return { s.take 1 .flowEntry with allowsKey := true }

/-- Take the dash of a block sequence. -/
def takeDash (s : Cutting) : Except Fault Cutting := do
  if !s.inFlow && !s.allowsKey then throw .malformed
  let s := if s.inFlow then s
    else s.openBlock s.cursor.column s.count .blockSequenceStart
  let s ← s.dropInnermost
  return { s.take 1 .blockEntry with allowsKey := true }

/-- Take the question mark of a key. -/
def takeKeyMark (s : Cutting) : Except Fault Cutting := do
  if !s.inFlow && !s.allowsKey then throw .malformed
  let s := if s.inFlow then s
    else s.openBlock s.cursor.column s.count .blockMappingStart
  let s ← s.dropInnermost
  return { s.take 1 .key with allowsKey := !s.inFlow }

/-- Take the colon of a value. If a key may have begun it did. -/
def takeColon (s : Cutting) : Except Fault Cutting := do
  match s.places with
  | some place :: others =>
    let s := { s with places := none :: others }.insertAt place.number .key
    let s := if s.inFlow then s
      else s.openBlock place.cursor.column place.number .blockMappingStart
    return { s.take 1 .value with allowsKey := false }
  | _ =>
    if !s.inFlow && !s.allowsKey then throw .malformed
    let s := if s.inFlow then s
      else s.openBlock s.cursor.column s.count .blockMappingStart
    let s ← s.dropInnermost
    return { s.take 1 .value with allowsKey := !s.inFlow }

/-- Take a token that may be a key or begin one. -/
def takeNode (s : Cutting) (scan : Cursor → Except Fault (Token × Cursor)) :
    Except Fault Cutting := do
  let s ← s.savePlace
  let (token, cursor) ← scan s.cursor
  return { s.push token with cursor, allowsKey := false }

/-- Take a block scalar. -/
def takeBlockScalar (s : Cutting) : Except Fault Cutting := do
  let s ← s.dropInnermost
  let (token, cursor) ← blockScalar s.indent s.cursor
  return { s.push token with cursor, allowsKey := true }

/-- Take a plain scalar. A line end behind it lets a key begin. -/
def takePlain (s : Cutting) : Except Fault Cutting := do
  let s ← s.savePlace
  let (token, hasBreak, cursor) := plainScalar s.inFlow (s.indent + 1) s.cursor
  return { s.push token with cursor, allowsKey := hasBreak }

/-- Take the end of the text. -/
def takeEnd (s : Cutting) : Except Fault Cutting := do
  let s ← (s.closeBlocks (-1)).dropInnermost
  return { s.push .streamEnd with places := [] }

/-- Take the token that begins with a character. -/
def takeToken (s : Cutting) (char : Char) : Except Fault Cutting :=
  let c := s.cursor
  let endsHere := endsWord (c.peekAt 1)
  if char == '%' && c.column == 0 then s.takeDirective
  else if char == '-' && c.column == 0 && c.isAtMark then s.takeMark .documentStart
  else if char == '.' && c.column == 0 && c.isAtMark then s.takeMark .documentEnd
  else if char == '[' then s.openFlow .flowSequenceStart
  else if char == '\x7b' then s.openFlow .flowMappingStart
  else if char == ']' then s.closeFlow .flowSequenceEnd
  else if char == '\x7d' then s.closeFlow .flowMappingEnd
  else if char == ',' then s.takeComma
  else if char == '-' && endsHere then s.takeDash
  else if char == '?' && (s.inFlow || endsHere) then s.takeKeyMark
  else if char == ':' && (s.inFlow || endsHere) then s.takeColon
  else if char == '*' then s.takeNode reference
  else if char == '&' then s.takeNode anchor
  else if char == '!' then s.takeNode tag
  else if (char == '|' || char == '>') && !s.inFlow then s.takeBlockScalar
  else if char == '\'' || char == '"' then s.takeNode quotedScalar
  else if beginsPlain s.inFlow c.rest then s.takePlain
  else .error .malformed

/-- Take the next token. -/
def step (s : Cutting) : Except Fault Cutting := do
  let s ← (s.skipBetween (s.cursor.rest.length + 1)).dropStale
  let s := s.closeBlocks s.cursor.column
  match s.cursor.peek with
  | none => s.takeEnd
  | some char => s.takeToken char

/-- The number of tokens that no open place holds back. -/
def settled (s : Cutting) : Nat :=
  s.places.foldl (fun n place? => place?.elim n fun place => min n place.number) s.count

end Cutting

/-- Tokens, and why there are no more of them if the text goes on. -/
structure TokenStream where
  /-- The tokens in order. -/
  tokens : List Token
  /-- Why the text could not be cut further. -/
  fault : Fault := .malformed
deriving DecidableEq

/-- Cut a text into tokens. The number bounds the tokens. -/
def cut : Nat → Cutting → TokenStream
  | 0, s => { tokens := s.tokens.reverse }
  | fuel + 1, s =>
    match s.step with
    | .error fault => { tokens := s.tokens.reverse.take s.settled, fault }
    | .ok next =>
      if next.places.isEmpty then { tokens := next.tokens.reverse } else cut fuel next

/-- Whether a character may stand in a text at all. -/
def isAllowed (c : Char) : Bool :=
  c == '\t' || c == '\n' || c == '\r' || c == '\u0085' || (' ' ≤ c && c ≤ '~') ||
    (0xA0 ≤ c.toNat && c.toNat != 0xFFFE && c.toNat != 0xFFFF)

/-- The tokens of a text. A byte order mark at its front is left out. -/
def TokenStream.ofText (text : List Char) : TokenStream :=
  if text.all isAllowed then
    let start : Cursor := { rest := text }
    cut (text.length + 2) { cursor := if start.isAt '\ufeff' then start.advance else start }
  else { tokens := [] }

end RubyDoc.Yaml
