import Predictive.Json.Fraction
import Predictive.Text.Quoted

/-!
# JSON values

Objects keep their fields in the order in which the names first come. Integers are exact; other
numbers are fractions.
-/

namespace Predictive

/-- A JSON value. -/
inductive Json where
  | null
  | bool (b : Bool)
  | integer (n : Int)
  | fraction (f : Json.Fraction)
  | string (s : String)
  | array (items : List Json)
  | object (fields : List (String × Json))
deriving Inhabited

namespace Json

/-- The words that name the kinds of values in error texts. -/
def kind : Json → String
  | null => "NoneType"
  | bool _ => "bool"
  | integer _ => "int"
  | fraction _ => "float"
  | string _ => "str"
  | array _ => "list"
  | object _ => "dict"

/-- Is the value something? Null, false, zero and whatever is empty are nothing. -/
def isSomething : Json → Bool
  | null => false
  | bool b => b
  | integer n => n != 0
  | fraction f => !f.isZero
  | string s => !s.isEmpty
  | array items => !items.isEmpty
  | object fields => !fields.isEmpty

/-- The value of a field. -/
def get? (name : String) : Json → Option Json
  | object fields => fields.lookup name
  | _ => none

/-- Fields with one more. A name that is there already keeps its place and takes the new value. -/
def put (fields : List (String × Json)) (name : String) (value : Json) : List (String × Json) :=
  match fields with
  | [] => [(name, value)]
  | field :: rest =>
    if field.1 = name then (name, value) :: rest else field :: put rest name value

/-- An array of strings. -/
def strings (items : List String) : Json :=
  array (items.map string)

mutual

/-- The value as a literal: single quotes, capitals on the words. -/
def literal : Json → String
  | null => "None"
  | bool true => "True"
  | bool false => "False"
  | integer n => toString n
  | fraction f => f.text
  | string s => Text.quoted s
  | array items => "[" ++ ", ".intercalate (literals items) ++ "]"
  | object fields => "\x7b" ++ ", ".intercalate (fieldLiterals fields) ++ "\x7d"

/-- The literals of the items of an array. -/
def literals : List Json → List String
  | [] => []
  | item :: rest => item.literal :: literals rest

/-- The literals of the fields of an object. -/
def fieldLiterals : List (String × Json) → List String
  | [] => []
  | (name, value) :: rest => (Text.quoted name ++ ": " ++ value.literal) :: fieldLiterals rest

end

/-- The value as a message shows it: a string stands for itself. -/
def shown : Json → String
  | string s => s
  | value => value.literal

end Json

end Predictive
