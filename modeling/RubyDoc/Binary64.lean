/-!
# Floating-point numbers

Fractions in documents are numbers of the binary format of 64 bits: a sign, a
mantissa of at most 53 bits and a power of two, an infinity, or no number at
all. They are kept as exact whole numbers, so that rounding is a rule that can
be read off: a ratio goes to the nearest number of the format, and one half way
between two goes to the even mantissa. A number is written with the fewest
digits that read back as it.
-/

namespace RubyDoc

/-- A number of the binary format of 64 bits. The mantissa of a finite number
other than zero is odd. -/
inductive Binary64 where
  /-- A mantissa times a power of two. -/
  | finite (negative : Bool) (mantissa : Nat) (exponent : Int)
  /-- An infinity. -/
  | infinite (negative : Bool)
  /-- No number. -/
  | nan
deriving DecidableEq

namespace Binary64

/-- Zero with a sign. -/
def zero (negative : Bool) : Binary64 := finite negative 0 0

/-- The quotient of two whole numbers to the nearest one; a half goes to the
even one. -/
def roundDiv (num den : Nat) : Nat :=
  let quotient := num / den
  let rest := 2 * (num % den)
  if rest < den then quotient
  else if den < rest then quotient + 1
  else quotient + quotient % 2

/-- Move factors of two from the mantissa into the exponent. The first argument
bounds their number. -/
def reduce : Nat → Nat → Int → Nat × Int
  | 0, mantissa, exponent => (mantissa, exponent)
  | fuel + 1, mantissa, exponent =>
    if mantissa == 0 then (0, 0)
    else if mantissa % 2 == 0 then reduce fuel (mantissa / 2) (exponent + 1)
    else (mantissa, exponent)

/-- A ratio times a power of two, as a ratio. -/
def shiftRatio (num den : Nat) (exponent : Int) : Nat × Nat :=
  if 0 ≤ exponent then (num <<< exponent.toNat, den) else (num, den <<< (-exponent).toNat)

/-- The exponent of the greatest power of two that is no more than a ratio. -/
def binaryOrder (num den : Nat) : Int :=
  let guess : Int := (Nat.log2 num : Int) - (Nat.log2 den : Int)
  let (n, d) := shiftRatio num den (-guess)
  if d ≤ n then guess else guess - 1

/-- The number that is nearest to a ratio of whole numbers. -/
def ofRatio (negative : Bool) (num den : Nat) : Binary64 :=
  if num == 0 then zero negative
  else
    let exponent := max (binaryOrder num den - 52) (-1074)
    let (n, d) := shiftRatio num den (-exponent)
    let (mantissa, exponent) := reduce 64 (roundDiv n d) exponent
    if mantissa == 0 then zero negative
    else if 1024 ≤ (Nat.log2 mantissa : Int) + exponent then infinite negative
    else finite negative mantissa exponent

/-- The number of decimal digits of a whole number. -/
def digitCount (n : Nat) : Nat := (Nat.toDigits 10 n).length

/-- The number that is nearest to some units of a power of ten. Beyond 400
decimal places in either direction the result is plain. -/
def ofDecimal (negative : Bool) (units : Nat) (scale : Int) : Binary64 :=
  if units == 0 then zero negative
  else
    let order := (digitCount units : Int) + scale
    if 400 < order then infinite negative
    else if order < -400 then zero negative
    else if 0 ≤ scale then ofRatio negative (Nat.mul units (Nat.pow 10 scale.toNat)) 1
    else ofRatio negative units (Nat.pow 10 (-scale).toNat)

/-- The number that is nearest to a whole number. -/
def ofNat (n : Nat) : Binary64 := ofRatio false n 1

/-- The size of a finite number as a ratio. -/
def ratio (mantissa : Nat) (exponent : Int) : Nat × Nat := shiftRatio mantissa 1 exponent

/-- The sum of two numbers that are not below zero. -/
def plus : Binary64 → Binary64 → Binary64
  | nan, _ | _, nan => nan
  | infinite _, _ | _, infinite _ => infinite false
  | finite _ m e, finite _ n f =>
    let (a, b) := ratio m e
    let (c, d) := ratio n f
    ofRatio false (a * d + c * b) (b * d)

/-- The product of two numbers that are not below zero. -/
def times : Binary64 → Binary64 → Binary64
  | nan, _ | _, nan => nan
  | infinite _, finite _ n _ => if n == 0 then nan else infinite false
  | finite _ m _, infinite _ => if m == 0 then nan else infinite false
  | infinite _, infinite _ => infinite false
  | finite _ m e, finite _ n f =>
    let (a, b) := ratio m e
    let (c, d) := ratio n f
    ofRatio false (a * c) (b * d)

/-- The same number with the other sign. -/
def negate : Binary64 → Binary64
  | finite negative mantissa exponent => finite (!negative) mantissa exponent
  | infinite negative => infinite (!negative)
  | nan => nan

/-- Whether a number is zero. -/
def isZero : Binary64 → Bool
  | finite _ mantissa _ => mantissa == 0
  | _ => false

/-- Whether a number is finite. -/
def isFinite : Binary64 → Bool
  | finite _ _ _ => true
  | _ => false

/-- The whole number that a number is, if it is one. -/
def toInt? : Binary64 → Option Int
  | finite negative mantissa exponent =>
    if mantissa == 0 then some 0
    else if 0 ≤ exponent then
      let size : Int := mantissa <<< exponent.toNat
      some (if negative then -size else size)
    else none
  | _ => none

/-- Whether a number is no more than a whole number. -/
def isAtMost (x : Binary64) (n : Nat) : Bool :=
  match x with
  | nan => false
  | infinite negative => negative
  | finite negative mantissa exponent =>
    let (num, den) := ratio mantissa exponent
    negative || num ≤ Nat.mul n den

/-- The exponent of the greatest power of ten that is no more than a ratio
below one. The first argument bounds the search. -/
def decimalOrderBelow : Nat → Nat → Nat → Int → Int
  | 0, _, _, order => order
  | fuel + 1, num, den, order =>
    if den ≤ num then order else decimalOrderBelow fuel (10 * num) den (order - 1)

/-- The exponent of the greatest power of ten that is no more than a ratio. -/
def decimalOrder (num den : Nat) : Int :=
  if den ≤ num then (digitCount (num / den) : Int) - 1 else decimalOrderBelow 400 num den 0

/-- The decimal of some number of digits that reads back as a positive number,
as units of a power of ten; of two such decimals the nearer one, and the even
one of two equally near. -/
def decimalOf? (mantissa : Nat) (exponent : Int) (digits : Nat) : Option (Nat × Int) :=
  let (num, den) := ratio mantissa exponent
  let scale := decimalOrder num den - (digits : Int) + 1
  let (n, d) := if 0 ≤ scale then (num, Nat.mul den (Nat.pow 10 scale.toNat))
    else (Nat.mul num (Nat.pow 10 (-scale).toNat), den)
  let low := n / d
  let readsBack (units : Nat) : Bool :=
    ofDecimal false units scale == finite false mantissa exponent
  let near := roundDiv n d
  let far := if near == low then low + 1 else low
  if readsBack near then some (near, scale)
  else if readsBack far then some (far, scale)
  else none

/-- The shortest decimal that reads back as a positive number. Seventeen digits
are always enough. -/
def shortest (mantissa : Nat) (exponent : Int) : Nat × Int :=
  ((List.range 17).findSome? fun n => decimalOf? mantissa exponent (n + 1)).getD (0, 0)

/-- Write digits with a point at a place, or with a power of ten if the place is
far away. -/
def writeDigits (digits : List Char) (scale : Int) : String :=
  let order := (digits.length : Int) + scale - 1
  if order < -4 ∨ 16 ≤ order then
    let point := match digits with
      | [] | [_] => digits
      | d :: rest => d :: '.' :: rest
    let size := toString order.natAbs
    String.ofList point ++ (if order < 0 then "e-" else "e+") ++
      (if size.length < 2 then "0" ++ size else size)
  else if order < 0 then
    "0." ++ String.ofList (List.replicate (-order - 1).toNat '0' ++ digits)
  else if 0 ≤ scale then
    String.ofList (digits ++ List.replicate scale.toNat '0') ++ ".0"
  else
    let whole := (order + 1).toNat
    String.ofList (digits.take whole) ++ "." ++ String.ofList (digits.drop whole)

/-- A number in writing. -/
def text : Binary64 → String
  | nan => "nan"
  | infinite negative => if negative then "-inf" else "inf"
  | finite negative mantissa exponent =>
    let size :=
      if mantissa == 0 then "0.0"
      else
        let (units, scale) := shortest mantissa exponent
        let digits := Nat.toDigits 10 units
        let zeros := (digits.reverse.takeWhile (· == '0')).length
        writeDigits (digits.take (digits.length - zeros)) (scale + zeros)
    if negative then "-" ++ size else size

end Binary64

end RubyDoc
