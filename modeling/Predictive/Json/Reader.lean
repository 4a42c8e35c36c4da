import Predictive.Json.Value

/-!
# Reading JSON

Each reader takes the characters that are left and gives what it has read and what is left after
it, or nothing where the text is malformed. Besides the words of the standard the words for
infinity and for what is not a number are read; an integer of more than 4300 digits is refused.
Of fields with one name the last value counts, in the place of the first.

Texts are made of whole characters. A numeric escape may write one half of a pair without the other,
which is no character: U+FFFD is read in its place, and texts that differ in such halves alone are
not told apart.
-/

namespace Predictive.Json

/-- White space between the parts of a value. -/
def isSpace (c : Char) : Bool :=
  c = ' ' || c = '\t' || c = '\n' || c = '\r'

/-- The text from its first character that is no white space. -/
def skipSpace (text : List Char) : List Char :=
  text.dropWhile isSpace

/-- The value of a digit in base sixteen. -/
def hexDigit? (c : Char) : Option Nat :=
  if '0' ≤ c && c ≤ '9' then some (c.toNat - '0'.toNat)
  else if 'a' ≤ c && c ≤ 'f' then some (c.toNat - 'a'.toNat + 10)
  else if 'A' ≤ c && c ≤ 'F' then some (c.toNat - 'A'.toNat + 10)
  else none

/-- The number that four digits in base sixteen write. -/
def hexUnit? (a b c d : Char) : Option Nat := do
  return ((← hexDigit? a) * 16 + (← hexDigit? b)) * 256 + (← hexDigit? c) * 16 + (← hexDigit? d)

/-- The character that a letter behind a backslash stands for. -/
def escaped? (c : Char) : Option Char :=
  match c with
  | '\x22' => some '\x22'
  | '\\' => some '\\'
  | '/' => some '/'
  | 'b' => some '\x08'
  | 'f' => some '\x0c'
  | 'n' => some '\n'
  | 'r' => some '\r'
  | 't' => some '\t'
  | _ => none

/-- The code points of a string up to its closing quote. A numeric escape gives one code unit,
which may be half of a pair. -/
def readUnits : List Char → Option (List Nat × List Char)
  | [] => none
  | '\x22' :: rest => some ([], rest)
  | '\\' :: 'u' :: a :: b :: c :: d :: rest => do
    let unit ← hexUnit? a b c d
    let (units, rest) ← readUnits rest
    return (unit :: units, rest)
  | '\\' :: c :: rest => do
    let c ← escaped? c
    let (units, rest) ← readUnits rest
    return (c.toNat :: units, rest)
  | c :: rest =>
    if c.toNat < 0x20 then none
    else do
      let (units, rest) ← readUnits rest
      return (c.toNat :: units, rest)

/-- Is the unit the first half of a pair? -/
def isHigh (unit : Nat) : Bool :=
  0xd800 ≤ unit && unit ≤ 0xdbff

/-- Is the unit the second half of a pair? -/
def isLow (unit : Nat) : Bool :=
  0xdc00 ≤ unit && unit ≤ 0xdfff

/-- The character of a unit that is not in a pair. A lone half is no character and is replaced. -/
def unitChar (unit : Nat) : Char :=
  if isHigh unit || isLow unit then '\ufffd' else Char.ofNat unit

/-- The characters of code units: two halves in a row are one character. -/
def joinUnits : List Nat → List Char
  | high :: low :: rest =>
    if isHigh high && isLow low then
      Char.ofNat (0x10000 + (high - 0xd800) * 0x400 + (low - 0xdc00)) :: joinUnits rest
    else
      unitChar high :: joinUnits (low :: rest)
  | [unit] => [unitChar unit]
  | [] => []

/-- A string, from behind its opening quote. -/
def readString (text : List Char) : Option (String × List Char) := do
  let (units, rest) ← readUnits text
  return (String.ofList (joinUnits units), rest)

/-- The number that decimal digits write. -/
def numberOf (digits : List Char) : Nat :=
  digits.foldl (fun n c => n * 10 + (c.toNat - '0'.toNat)) 0

/-- The fraction digits behind a decimal point, if both are there. -/
def readFractionDigits (text : List Char) : List Char × List Char :=
  match text with
  | '.' :: rest =>
    let digits := rest.takeWhile Char.isDigit
    if digits.isEmpty then ([], text) else (digits, rest.dropWhile Char.isDigit)
  | _ => ([], text)

/-- The digits of a power of ten with its sign, if they are there. -/
def readSignedDigits (text : List Char) : Option (Int × List Char) :=
  let (negative, text) := match text with
    | '-' :: rest => (true, rest)
    | '+' :: rest => (false, rest)
    | _ => (false, text)
  let digits := text.takeWhile Char.isDigit
  if digits.isEmpty then none
  else
    let n : Int := numberOf digits
    some (if negative then -n else n, text.dropWhile Char.isDigit)

/-- The power of ten behind its letter, if both are there. -/
def readPower (text : List Char) : Option (Int × List Char) :=
  match text with
  | 'e' :: rest => readSignedDigits rest
  | 'E' :: rest => readSignedDigits rest
  | _ => none

/-- The greatest number of digits of an integer. -/
def digitLimit : Nat := 4300

/-- A number, from behind its sign. -/
def readNumber (negative : Bool) (text : List Char) : Option (Json × List Char) :=
  let whole := match text with
    | '0' :: _ => ['0']
    | _ => text.takeWhile Char.isDigit
  if whole.isEmpty then none
  else
    let rest := text.drop whole.length
    let (part, rest) := readFractionDigits rest
    match readPower rest, part with
    | none, [] =>
      if whole.length > digitLimit then none
      else
        let n : Int := numberOf whole
        some (integer (if negative then -n else n), rest)
    | none, _ =>
      some (fraction (.finite negative (numberOf (whole ++ part)) (-(part.length : Int))), rest)
    | some (power, rest), _ =>
      some (fraction (.finite negative (numberOf (whole ++ part)) (power - part.length)), rest)

/-- A word at the front of a text, and its value. -/
def readWord (word : String) (value : Json) (text : List Char) : Option (Json × List Char) :=
  if word.toList.isPrefixOf text then some (value, text.drop word.length) else none

/-- A value that is no array and no object. -/
def readScalar (text : List Char) : Option (Json × List Char) :=
  match text with
  | [] => none
  | '\x22' :: rest => (readString rest).map fun (s, rest) => (string s, rest)
  | 'n' :: _ => readWord "null" null text
  | 't' :: _ => readWord "true" (bool true) text
  | 'f' :: _ => readWord "false" (bool false) text
  | 'N' :: _ => readWord "NaN" (fraction .notANumber) text
  | 'I' :: _ => readWord "Infinity" (fraction (.infinite false)) text
  | '-' :: 'I' :: _ => readWord "-Infinity" (fraction (.infinite true)) text
  | '-' :: rest => readNumber true rest
  | _ => readNumber false text

mutual

/-- A value. Every call is charged to `fuel`. -/
def readValue : Nat → List Char → Option (Json × List Char)
  | 0, _ => none
  | fuel + 1, '[' :: rest =>
    match skipSpace rest with
    | ']' :: rest => some (array [], rest)
    | text => (readItems fuel text).map fun (items, rest) => (array items, rest)
  | fuel + 1, '\x7b' :: rest =>
    match skipSpace rest with
    | '\x7d' :: rest => some (object [], rest)
    | text => (readFields fuel [] text).map fun (fields, rest) => (object fields, rest)
  | _ + 1, text => readScalar text

/-- The items of an array, from the first one on, and the closing bracket. -/
def readItems : Nat → List Char → Option (List Json × List Char)
  | 0, _ => none
  | fuel + 1, text => do
    let (item, rest) ← readValue fuel text
    match skipSpace rest with
    | ']' :: rest => return ([item], rest)
    | ',' :: rest =>
      let (items, rest) ← readItems fuel (skipSpace rest)
      return (item :: items, rest)
    | _ => none

/-- The fields of an object, from the name of one on, and the closing brace; `before` are the
fields that have been read. -/
def readFields : Nat → List (String × Json) → List Char → Option (List (String × Json) × List Char)
  | 0, _, _ => none
  | fuel + 1, before, '\x22' :: text => do
    let (name, rest) ← readString text
    match skipSpace rest with
    | ':' :: rest =>
      let (value, rest) ← readValue fuel (skipSpace rest)
      let fields := put before name value
      match skipSpace rest with
      | '\x7d' :: rest => return (fields, rest)
      | ',' :: rest => readFields fuel fields (skipSpace rest)
      | _ => none
    | _ => none
  | _ + 1, _, _ => none

end

/-- The value that characters write. -/
def readChars? (text : List Char) : Option Json :=
  match readValue (2 * text.length + 2) (skipSpace text) with
  | some (value, rest) => if (skipSpace rest).isEmpty then some value else none
  | none => none

/-- The value that a text writes. -/
def read? (text : String) : Option Json :=
  readChars? text.toList

end Predictive.Json
