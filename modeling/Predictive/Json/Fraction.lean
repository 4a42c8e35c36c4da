/-!
# Numbers with a fractional part

A fraction is kept as it is written, a sign and digits times a power of ten. What it stands for is
the nearest binary number with 53 significant bits and the exponent range of 64 bits; it is shown
with the fewest decimal digits that stand for the same binary number. All arithmetic is on natural
numbers.
-/

namespace Predictive.Json

/-- A number that is not written as an integer: digits times a power of ten, or a word. -/
inductive Fraction where
  | finite (negative : Bool) (digits : Nat) (exponent : Int)
  | infinite (negative : Bool)
  | notANumber
deriving DecidableEq, Repr

/-- A binary number: `mantissa` times two to the power `exponent`. -/
structure Binary where
  mantissa : Nat
  exponent : Int
deriving DecidableEq, Repr

/-- Two to the power `n`. -/
def powerOfTwo (n : Nat) : Nat :=
  Nat.pow 2 n

/-- Ten to the power `n`. -/
def powerOfTen (n : Nat) : Nat :=
  Nat.pow 10 n

namespace Binary

/-- The least exponent. -/
def leastExponent : Int := -1074

/-- The greatest exponent. -/
def greatestExponent : Int := 971

/-- The quotient, rounded to the nearest number and a half to the even one. -/
def roundedQuotient (numerator denominator : Nat) : Nat :=
  let quotient := numerator / denominator
  let twice := 2 * (numerator % denominator)
  if twice < denominator then quotient
  else if twice > denominator then quotient + 1
  else quotient + quotient % 2

/-- Numerator and denominator after division by two to the power `exponent`. -/
def scaledDown (numerator denominator : Nat) (exponent : Int) : Nat × Nat :=
  (numerator * powerOfTwo (-exponent).toNat, denominator * powerOfTwo exponent.toNat)

/-- The nearest binary number to a positive quotient, of unbounded size. -/
def nearest (numerator denominator : Nat) : Binary :=
  let guess : Int := (numerator.log2 : Int) - denominator.log2 - 53
  let (n, d) := scaledDown numerator denominator guess
  let fitted := if n / d < powerOfTwo 53 then guess else guess + 1
  let exponent := max fitted leastExponent
  let (n, d) := scaledDown numerator denominator exponent
  let mantissa := roundedQuotient n d
  if mantissa = powerOfTwo 53 then { mantissa := powerOfTwo 52, exponent := exponent + 1 }
  else { mantissa := mantissa, exponent := exponent }

end Binary

namespace Fraction

/-- What written digits stand for: nothing larger than zero, a binary number, or more than the
greatest one. -/
inductive Magnitude where
  | zero
  | binary (b : Binary)
  | overflow
deriving DecidableEq, Repr

/-- The number of decimal digits. -/
def digitCount (n : Nat) : Nat :=
  (Nat.toDigits 10 n).length

/-- The binary number that digits times a power of ten stand for. -/
def magnitudeOf (digits : Nat) (exponent : Int) : Magnitude :=
  let place := exponent + digitCount digits
  if digits = 0 || place < -330 then .zero
  else if place > 310 then .overflow
  else
    let b := Binary.nearest (digits * powerOfTen exponent.toNat) (powerOfTen (-exponent).toNat)
    if b.mantissa = 0 then .zero
    else if b.exponent > Binary.greatestExponent then .overflow
    else .binary b

/-- Does the fraction stand for zero? -/
def isZero : Fraction → Bool
  | finite _ digits exponent => magnitudeOf digits exponent == .zero
  | _ => false

/-- Is the product of `c` and ten to the power `exponent` within the numbers that are rounded to
`b`? The ends belong to them if the mantissa is even. -/
def roundsTo (b : Binary) (c : Nat) (exponent : Int) : Bool :=
  let below := if b.mantissa = powerOfTwo 52 && b.exponent > Binary.leastExponent then 1 else 2
  let unit := powerOfTwo (b.exponent - 2).toNat * powerOfTen (-exponent).toNat
  let value := c * powerOfTen exponent.toNat * powerOfTwo (2 - b.exponent).toNat
  let low := (4 * b.mantissa - below) * unit
  let high := (4 * b.mantissa + 2) * unit
  if b.mantissa % 2 = 0 then low ≤ value && value ≤ high else low < value && value < high

/-- The number of zeros between the decimal point and the first digit of a quotient below one. -/
def leadingZeros (numerator denominator : Nat) : Nat → Nat
  | 0 => 0
  | fuel + 1 =>
    if numerator * 10 ≥ denominator then 0
    else leadingZeros (numerator * 10) denominator fuel + 1

/-- The place of the decimal point of a quotient, counted from its first digit. -/
def pointOf (numerator denominator : Nat) : Int :=
  if numerator ≥ denominator then digitCount (numerator / denominator)
  else -(leadingZeros numerator denominator 400 : Int)

/-- The nearest number of `count` digits to a quotient, if it is rounded to `b`: the digits and
the power of ten of the last one. -/
def withDigits? (b : Binary) (numerator denominator : Nat) (count : Nat) : Option (Nat × Int) :=
  let exponent := pointOf numerator denominator - count
  let n := numerator * powerOfTen (-exponent).toNat
  let d := denominator * powerOfTen exponent.toNat
  let low := n / d
  let near := Binary.roundedQuotient n d
  let far := if near = low then low + 1 else low
  if roundsTo b near exponent then some (near, exponent)
  else if roundsTo b far exponent then some (far, exponent)
  else none

/-- The fewest digits that stand for a binary number, with the power of ten of the last one. -/
def shortest (b : Binary) : Nat × Int :=
  let numerator := b.mantissa * powerOfTwo b.exponent.toNat
  let denominator := powerOfTwo (-b.exponent).toNat
  ((List.range' 1 17).findSome? (withDigits? b numerator denominator)).getD (0, 0)

/-- Digits with a decimal point after the first `point` of them. -/
def positional (digits : List Char) (point : Int) : List Char :=
  if point ≤ 0 then
    '0' :: '.' :: List.replicate (-point).toNat '0' ++ digits
  else
    let filled := digits ++ List.replicate (point.toNat - digits.length) '0'
    let fraction := filled.drop point.toNat
    filled.take point.toNat ++ '.' :: if fraction.isEmpty then ['0'] else fraction

/-- Digits with a decimal point after the first and a power of ten of at least two digits. -/
def scientific (digits : List Char) (point : Int) : List Char :=
  let power := point - 1
  let powerDigits := Nat.toDigits 10 power.natAbs
  let fraction := if digits.length ≤ 1 then [] else '.' :: digits.drop 1
  digits.take 1 ++ fraction ++ 'e' :: (if power < 0 then '-' else '+') ::
    (List.replicate (2 - powerDigits.length) '0' ++ powerDigits)

/-- The text of a binary number: positional from a ten thousandth up to below ten to the power
sixteen. -/
def binaryText (b : Binary) : List Char :=
  let (number, exponent) := shortest b
  let digits := Nat.toDigits 10 number
  let point := exponent + digits.length
  let significant := (digits.reverse.dropWhile (· == '0')).reverse
  if -4 < point && point ≤ 16 then positional significant point
  else scientific significant point

/-- A text with the sign before it. -/
def signed (negative : Bool) (text : List Char) : String :=
  String.ofList (if negative then '-' :: text else text)

/-- The shortest text that stands for the same number. -/
def text : Fraction → String
  | finite negative digits exponent =>
    signed negative <| match magnitudeOf digits exponent with
      | .zero => ['0', '.', '0']
      | .binary b => binaryText b
      | .overflow => ['i', 'n', 'f']
  | infinite negative => signed negative ['i', 'n', 'f']
  | notANumber => "nan"

end Fraction

end Predictive.Json
