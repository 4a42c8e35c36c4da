import Predictive.Json.Value

/-!
# Writing JSON

A value is written on one line without blanks. Quotes, backslashes and control characters in
strings are escaped.
-/

namespace Predictive.Json

/-- One character inside a written string. -/
def writtenChar (c : Char) : List Char :=
  if c = '\x22' || c = '\\' then ['\\', c]
  else if c.toNat < 0x20 then '\\' :: 'u' :: Text.hex 4 c.toNat
  else [c]

/-- A string between double quotes. -/
def writtenString (s : String) : String :=
  String.ofList ('\x22' :: s.toList.flatMap writtenChar ++ ['\x22'])

/-- A fraction as digits and a power of ten, or as a word. -/
def writtenFraction : Fraction → String
  | .finite negative digits exponent =>
    (if negative then "-" else "") ++ toString digits ++ "e" ++ toString exponent
  | .infinite negative => if negative then "-Infinity" else "Infinity"
  | .notANumber => "NaN"

mutual

/-- The value as a text. -/
def write : Json → String
  | null => "null"
  | bool true => "true"
  | bool false => "false"
  | integer n => toString n
  | fraction f => writtenFraction f
  | string s => writtenString s
  | array items => "[" ++ ",".intercalate (writeItems items) ++ "]"
  | object fields => "\x7b" ++ ",".intercalate (writeFields fields) ++ "\x7d"

/-- The items of an array as texts. -/
def writeItems : List Json → List String
  | [] => []
  | item :: rest => item.write :: writeItems rest

/-- The fields of an object as texts. -/
def writeFields : List (String × Json) → List String
  | [] => []
  | (name, value) :: rest => (writtenString name ++ ":" ++ value.write) :: writeFields rest

end

mutual

/-- The same value with the fields of every object in the order of their names. -/
def sortFields : Json → Json
  | array items => array (sortItems items)
  | object fields => object ((sortEach fields).mergeSort fun a b => a.1 ≤ b.1)
  | value => value

/-- The items of an array with sorted fields. -/
def sortItems : List Json → List Json
  | [] => []
  | item :: rest => item.sortFields :: sortItems rest

/-- The fields of an object with sorted fields inside them. -/
def sortEach : List (String × Json) → List (String × Json)
  | [] => []
  | (name, value) :: rest => (name, value.sortFields) :: sortEach rest

end

end Predictive.Json
