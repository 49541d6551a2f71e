import RubyDoc.Binary64
import RubyDoc.Date
import RubyDoc.Text.Blank
import RubyDoc.Text.Numeral

/-!
# Document values

Settings, properties and documents are given as values without a schema. This
module holds the values and the liberal readings of single fields: a whole
number may be given as text or as a truth value, a truth value as a word, and a
text as the bytes that encode it. The schemas built on these readings are said
elsewhere.
-/

namespace RubyDoc

/-- A value of a document. -/
inductive Value where
  | null
  | bool (b : Bool)
  | int (n : Int)
  | real (x : Binary64)
  | text (s : String)
  | bytes (content : List UInt8)
  | date (d : Date)
  | moment (m : Moment)
  | list (items : List Value)
  | set (items : List Value)
  | map (entries : List (Value × Value))
deriving Inhabited

namespace Value

mutual

/-- Whether two values are the same. -/
def isSame : Value → Value → Bool
  | .null, .null => true
  | .bool a, .bool b => a == b
  | .int m, .int n => m == n
  | .real x, .real y => x == y
  | .text s, .text t => s == t
  | .bytes xs, .bytes ys => xs == ys
  | .date d, .date e => d == e
  | .moment m, .moment n => m == n
  | .list xs, .list ys | .set xs, .set ys => areSame xs ys
  | .map es, .map fs => haveSameEntries es fs
  | _, _ => false

/-- Whether two lists have the same values in the same order. -/
def areSame : List Value → List Value → Bool
  | [], [] => true
  | x :: xs, y :: ys => isSame x y && areSame xs ys
  | _, _ => false

/-- Whether two maps have the same entries in the same order. -/
def haveSameEntries : List (Value × Value) → List (Value × Value) → Bool
  | [], [] => true
  | (k, v) :: es, (k', v') :: fs => isSame k k' && isSame v v' && haveSameEntries es fs
  | _, _ => false

end

mutual

theorem isSame_iff (a b : Value) : isSame a b = true ↔ a = b := by
  match a with
  | .list xs => cases b <;> simp [isSame, areSame_iff xs]
  | .set xs => cases b <;> simp [isSame, areSame_iff xs]
  | .map es => cases b <;> simp [isSame, haveSameEntries_iff es]
  | .null | .bool _ | .int _ | .real _ | .text _ | .bytes _ | .date _ | .moment _ =>
    cases b <;> simp [isSame]

theorem areSame_iff (xs ys : List Value) : areSame xs ys = true ↔ xs = ys := by
  match xs with
  | [] => cases ys <;> simp [areSame]
  | x :: xs => cases ys <;> simp [areSame, isSame_iff x, areSame_iff xs]

theorem haveSameEntries_iff (es fs : List (Value × Value)) :
    haveSameEntries es fs = true ↔ es = fs := by
  match es with
  | [] => cases fs <;> simp [haveSameEntries]
  | (k, v) :: es =>
    cases fs <;>
      simp [haveSameEntries, isSame_iff k, isSame_iff v, haveSameEntries_iff es, Prod.ext_iff,
        and_assoc]

end

instance : DecidableEq Value := fun a b => decidable_of_iff _ (isSame_iff a b)

/-- The entry of a map under a text key. -/
def under {α : Type} (entries : List (Value × α)) (key : String) : Option α :=
  match entries with
  | [] => none
  | (.text k, v) :: rest => if k == key then some v else under rest key
  | _ :: rest => under rest key

/-- The whole number that a value is, truth values being one and zero. -/
def whole? : Value → Option Int
  | .int n => some n
  | .bool b => some (if b then 1 else 0)
  | .real x => x.toInt?
  | _ => none

/-- Whether two values are one key of a map: numbers are compared as numbers. -/
def isSameKey (a b : Value) : Bool :=
  match a.whole?, b.whole? with
  | some m, some n => m == n
  | none, none => a == b
  | _, _ => false

/-- Put an entry into a map at the place of an equal key, or at the end. The
first of equal keys is kept. -/
def putEntry {α : Type} (key : Value) (value : α) : List (Value × α) → List (Value × α)
  | [] => [(key, value)]
  | (k, v) :: rest =>
    if k.isSameKey key then (k, value) :: rest else (k, v) :: putEntry key value rest

/-- Whether a value counts as nothing: null, false, zero, or empty. -/
def isEmptyLike : Value → Bool
  | .null | .bool false => true
  | .int n => n == 0
  | .real x => x.isZero
  | .text s => s == ""
  | .bytes content => content.isEmpty
  | .list items | .set items => items.isEmpty
  | .map entries => entries.isEmpty
  | .bool true | .date _ | .moment _ => false

end Value

/-- Why a value does not fit a field. -/
inductive Misfit where
  | listType | mapType | tooShort | stringType | stringUnicode | valueError (message : String)
  | intType | intParsing | intParsingSize | intFromFloat | finiteNumber | greaterThan
  | boolType | boolParsing | literalError | extraForbidden | invalidKey
deriving DecidableEq

/-- The name of a misfit. -/
def Misfit.name : Misfit → String
  | listType => "list_type"
  | mapType => "dict_type"
  | tooShort => "too_short"
  | stringType => "string_type"
  | stringUnicode => "string_unicode"
  | valueError _ => "value_error"
  | intType => "int_type"
  | intParsing => "int_parsing"
  | intParsingSize => "int_parsing_size"
  | intFromFloat => "int_from_float"
  | finiteNumber => "finite_number"
  | greaterThan => "greater_than"
  | boolType => "bool_type"
  | boolParsing => "bool_parsing"
  | literalError => "literal_error"
  | extraForbidden => "extra_forbidden"
  | invalidKey => "invalid_key"

namespace Value

open RubyDoc.Text

/-- Blanks that may stand around a number: all but the information separators. -/
def isPadding (c : Char) : Bool := isBlank c && !(28 ≤ c.toNat && c.toNat ≤ 31)

/-- Whether a character is a sign. -/
def isSign (c : Char) : Bool := c == '-' || c == '+'

/-- Split off one sign: whether it is a minus, and what is behind it. Two signs
in a row are refused. -/
def splitSign? (cs : List Char) : Option (Bool × List Char) :=
  match cs with
  | c :: rest =>
    if isSign c then
      if rest.head?.any isSign then none else some (c == '-', rest)
    else some (false, cs)
  | [] => some (false, [])

/-- Leave out a decimal point with one or more zeros behind it. -/
def withoutZeroFraction (cs : List Char) : List Char :=
  let fraction := (cs.dropWhile (· != '.')).drop 1
  if !fraction.isEmpty && fraction.all (· == '0') then cs.takeWhile (· != '.') else cs

/-- Leave out the zeros and underscores behind a leading zero. What follows has
to be a digit or a minus; of nothing but zeros the last character stays. -/
def withoutLeadingZeros (cs : List Char) : Option (List Char) :=
  match cs with
  | '0' :: _ =>
    match cs.dropWhile fun c => c == '0' || c == '_' with
    | [] => some (cs.drop (cs.length - 1))
    | c :: rest => if c.isDigit || c == '-' then some (c :: rest) else none
  | c :: _ => if c.isDigit then some cs else none
  | [] => none

/-- Leave out underscores, unless one begins or ends the text or two stand
together. -/
def withoutUnderscores (cs : List Char) : List Char :=
  let isLoose := cs.head? == some '_' || cs.getLast? == some '_' ||
    (cs.zip cs.tail).any fun pair => pair.1 == '_' && pair.2 == '_'
  if isLoose then cs else cs.filter (· != '_')

/-- Longer numbers in writing are refused. -/
def maxDigits : Nat := 4300

/-- Read digits with a minus before them or not; zero leads no other digit. -/
def readDigits (cs : List Char) : Except Misfit Int :=
  let (negative, digits) := match cs with
    | '-' :: rest => (true, rest)
    | _ => (false, cs)
  if digits.isEmpty || !digits.all Char.isDigit || (digits.head? == some '0' && digits != ['0'])
  then .error .intParsing
  else if maxDigits < cs.length then .error .intParsingSize
  else
    let n : Int := naturalOf digits
    .ok (if negative then -n else n)

/-- The whole number that a text writes. -/
def intOfText (s : String) : Except Misfit Int :=
  let cs := ((s.toList.dropWhile isPadding).reverse.dropWhile isPadding).reverse
  match splitSign? cs with
  | none => .error .intParsing
  | some (negative, cs) =>
    match withoutLeadingZeros (withoutZeroFraction cs) with
    | none => .error .intParsing
    | some cs =>
      let digits := withoutUnderscores cs
      readDigits (if negative then '-' :: digits else digits)

/-- Whole numbers of 64 bits. -/
def isShort (n : Int) : Bool := -9223372036854775808 ≤ n && n ≤ 9223372036854775807

/-- The whole number that a number with a fraction is. The bounds of the whole
numbers of 64 bits are out already. -/
def intOfReal (x : Binary64) : Except Misfit Int :=
  if !x.isFinite then .error .finiteNumber
  else match x.toInt? with
    | none => .error .intFromFloat
    | some n =>
      if -9223372036854775808 < n ∧ n < 9223372036854775808 then .ok n
      else .error .intParsingSize

/-- The text that some bytes encode. -/
def textOfBytes? (content : List UInt8) : Option String :=
  String.fromUTF8? ⟨content.toArray⟩

/-- Read a whole number. -/
def toInt : Value → Except Misfit Int
  | .int n => .ok n
  | .bool b => .ok (if b then 1 else 0)
  | .real x => intOfReal x
  | .text s => intOfText s
  | .bytes content => (textOfBytes? content).elim (.error .intParsing) intOfText
  | .null | .date _ | .moment _ | .list _ | .set _ | .map _ => .error .intType

/-- The truth value that a word stands for. -/
def boolOfWord? (s : String) : Option Bool :=
  let word := String.ofList (s.toList.map Char.toLower)
  if ["1", "t", "true", "y", "yes", "on"].contains word then some true
  else if ["0", "f", "false", "n", "no", "off"].contains word then some false
  else none

/-- The truth value that a word stands for. -/
def boolOfText (s : String) : Except Misfit Bool := (boolOfWord? s).elim (.error .boolParsing) .ok

/-- The truth value that a whole number stands for. -/
def boolOfInt (n : Int) : Except Misfit Bool :=
  if n == 1 then .ok true else if n == 0 then .ok false else .error .boolParsing

/-- Read a truth value. -/
def toBool : Value → Except Misfit Bool
  | .bool b => .ok b
  | .int n => if isShort n then boolOfInt n else .error .boolType
  | .real x =>
    match intOfReal x with
    | .ok n => boolOfInt n
    | .error _ => .error .boolType
  | .text s => boolOfText s
  | .bytes content => (textOfBytes? content).elim (.error .boolParsing) boolOfText
  | .null | .date _ | .moment _ | .list _ | .set _ | .map _ => .error .boolType

/-- Read a text. -/
def toText : Value → Except Misfit String
  | .text s => .ok s
  | .bytes content => (textOfBytes? content).elim (.error .stringUnicode) .ok
  | _ => .error .stringType

/-- Read something that may be null. -/
def toOptional {α : Type} (read : Value → Except Misfit α) : Value → Except Misfit (Option α)
  | .null => .ok none
  | v => (read v).map some

/-- The items of a list, or of a set in their order. -/
def items? : Value → Option (List Value)
  | .list items | .set items => some items
  | _ => none

/-- Read a list, each item alike. -/
def toListOf {α : Type} (read : Value → Except Misfit α) (v : Value) : Except Misfit (List α) :=
  match v.items? with
  | some items => items.mapM read
  | none => .error .listType

/-- Read one of some words. -/
def toWord {α : Type} (ofName? : String → Option α) : Value → Except Misfit α
  | .text s => (ofName? s).elim (.error .literalError) .ok
  | _ => .error .literalError

end Value

end RubyDoc
