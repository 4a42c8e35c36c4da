import Predictive.Json.Reader

/-!
# Encodings of JSON

JSON comes as bytes in one of five encodings. A text begins with an ASCII character, so the zeros
among its first bytes tell how wide its units are and which byte of a unit comes first. A byte
order mark of UTF-8 is skipped; the others are not looked for, since no body in UTF-8 begins with
them.

Bytes can write one half of a pair without the other, too. In UTF-8 they are refused, and of wide
units U+FFFD is read in its place.
-/

namespace Predictive.Json

/-- How characters are written as bytes; of wide units the greatest byte may come first. -/
inductive Encoding where
  | utf8
  | utf16 (greatestFirst : Bool)
  | utf32 (greatestFirst : Bool)
deriving DecidableEq, Repr

namespace Encoding

/-- The encoding that the first bytes show. -/
def detect : List UInt8 → Encoding
  | [a, b] => if a = 0 then utf16 true else if b = 0 then utf16 false else utf8
  | a :: b :: c :: d :: _ =>
    if a = 0 then (if b = 0 then utf32 true else utf16 true)
    else if b = 0 then (if c = 0 && d = 0 then utf32 false else utf16 false)
    else utf8
  | _ => utf8

/-- The units of two bytes each; none if a byte is left. -/
def pairs? (greatestFirst : Bool) : List UInt8 → Option (List Nat)
  | [] => some []
  | a :: b :: rest =>
    let unit := if greatestFirst then a.toNat * 256 + b.toNat else b.toNat * 256 + a.toNat
    (pairs? greatestFirst rest).map (unit :: ·)
  | _ => none

/-- The number that four bytes write, the greatest first. -/
def quadruple (a b c d : UInt8) : Nat :=
  ((a.toNat * 256 + b.toNat) * 256 + c.toNat) * 256 + d.toNat

/-- The characters of four bytes each; none if bytes are left or a number is too great. -/
def quadruples? (greatestFirst : Bool) : List UInt8 → Option (List Char)
  | [] => some []
  | a :: b :: c :: d :: rest =>
    let unit := if greatestFirst then quadruple a b c d else quadruple d c b a
    if unit > 0x10ffff then none
    else (quadruples? greatestFirst rest).map (unitChar unit :: ·)
  | _ => none

/-- The characters that bytes write in an encoding. -/
def decode? (bytes : ByteArray) : Encoding → Option (List Char)
  | utf8 => (String.fromUTF8? bytes).map String.toList
  | utf16 greatestFirst => (pairs? greatestFirst bytes.toList).map joinUnits
  | utf32 greatestFirst => quadruples? greatestFirst bytes.toList

end Encoding

/-- The value that bytes write in any of the encodings. -/
def readBytes? (bytes : ByteArray) : Option Json := do
  let encoding := Encoding.detect bytes.toList
  match encoding, ← encoding.decode? bytes with
  | .utf8, '\ufeff' :: text => readChars? text
  | _, text => readChars? text

end Predictive.Json
