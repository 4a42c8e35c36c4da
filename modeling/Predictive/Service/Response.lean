import Predictive.Json.Value
import Predictive.Service.Escape

/-!
# Responses

A response has a status, a JSON value if it has one at all, and the lines that were logged on the
way to it.
-/

namespace Predictive.Service

/-- A response and what was logged for it. -/
structure Response where
  status : Nat
  json : Option Json := none
  log : List String := []

namespace Response

/-- The log as a text. -/
def logText (r : Response) : String :=
  String.join (r.log.map (· ++ "\n"))

/-- A response with a value. -/
def ok (json : Json) (log : List String) : Response where
  status := 200
  json := some json
  log := log

/-- A request that cannot be served. -/
def badRequest (json : Json) (log : List String) : Response where
  status := 400
  json := some json
  log := log

/-- A request that lacks something. -/
def lacking (message : String) : Response :=
  badRequest (.object [("error", .string message)]) []

/-- A failure that was not expected. -/
def unexpected (message : String) : Response where
  status := 500
  json := some (.object [
    ("error", .string ("Unexpected server error: " ++ escapeValue (.string message))),
    ("error_type", .string "system_error")])

end Response

end Predictive.Service
