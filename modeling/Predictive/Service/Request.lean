import Predictive.Json.Encoding
import Predictive.Json.Writer
import Predictive.Text.Blank

/-!
# Requests

A request has a target, a method and a body. The body is read as JSON if the media type says so.
-/

namespace Predictive.Service

/-- A request as it comes in. -/
structure Request where
  target : String
  method : String := "POST"
  contentType : Option String := none
  body : ByteArray := .empty

namespace Request

/-- A request that sends a value as JSON; null is not sent at all. -/
def ofJson (target method : String) : Json → Request
  | .null => { target := target, method := method }
  | value => {
      target := target
      method := method
      contentType := some "application/json"
      body := value.sortFields.write.toUTF8 }

/-- The capital form of a character, if it is made of letters of ASCII; any other character stays
as it is. -/
def capital (c : Char) : List Char :=
  match c with
  | 'ß' => ['S', 'S']
  | 'ı' => ['I']
  | 'ſ' => ['S']
  | 'ﬀ' => ['F', 'F']
  | 'ﬁ' => ['F', 'I']
  | 'ﬂ' => ['F', 'L']
  | 'ﬃ' => ['F', 'F', 'I']
  | 'ﬄ' => ['F', 'F', 'L']
  | 'ﬅ' | 'ﬆ' => ['S', 'T']
  | c => [c.toUpper]

/-- The method in capitals. -/
def verb (r : Request) : String :=
  String.ofList (r.method.toList.flatMap capital)

/-- The white space that may stand around the parts of a header. -/
def isHeaderSpace (c : Char) : Bool :=
  c = ' ' || c = '\t'

/-- The media type: what stands before the parameters of the content type, in small letters. -/
def mediaType (r : Request) : List Char :=
  let beforeParameters := (r.contentType.getD "").toList.takeWhile (· != ';')
  (Text.trimWhere isHeaderSpace beforeParameters).map Char.toLower

/-- Does the media type announce JSON? -/
def announcesJson (r : Request) : Bool :=
  r.mediaType == "application/json".toList ||
    ("application/".toList.isPrefixOf r.mediaType && "+json".toList.isSuffixOf r.mediaType)

/-- The value that was sent. What is not announced as JSON, is malformed or is nothing counts as
an object without fields. -/
def data (r : Request) : Json :=
  let sent := if r.announcesJson then (Json.readBytes? r.body).getD .null else .null
  if sent.isSomething then sent else .object []

end Request

end Predictive.Service
