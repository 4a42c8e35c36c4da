import Predictive.Json.Value

/-!
# Escaping messages

The service escapes a message by one replacement after the other over the whole text. The
ampersand comes first, since the entities that the later replacements bring in begin with it.
-/

namespace Predictive.Service

/-- The text with every occurrence of a character replaced. -/
def replaceChar (c : Char) (replacement : List Char) (text : List Char) : List Char :=
  text.flatMap fun d => if d = c then replacement else [d]

/-- The replacements in their order. -/
def replacements : List (Char × List Char) :=
  [('&', "&amp;".toList), ('<', "&lt;".toList), ('>', "&gt;".toList), ('\x22', "&quot;".toList),
    ('\x27', "&#039;".toList)]

/-- A text after all replacements. -/
def escapeChars (text : List Char) : List Char :=
  replacements.foldl (fun done r => replaceChar r.1 r.2 done) text

/-- A message with the characters that have a meaning in markup replaced. -/
def escapeMessage (message : String) : String :=
  String.ofList (escapeChars message.toList)

/-- A value as it stands in a message, escaped. Null stands for no text at all. -/
def escapeValue : Json → String
  | .null => ""
  | value => escapeMessage value.shown

@[simp]
theorem escapeValue_string (message : String) :
    escapeValue (.string message) = escapeMessage message :=
  rfl

end Predictive.Service
