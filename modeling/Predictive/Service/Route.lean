import Predictive.Service.Request

/-!
# Routes

A route is what a path leads to: one of the two endpoints or a file. There are no files, but their
names are routes all the same. Each route has the methods that it takes.
-/

namespace Predictive.Service

/-- What a path leads to. -/
inductive Route where
  /-- The report on a grammar. -/
  | report
  /-- The verdict on an input. -/
  | verdict
  /-- A file. -/
  | file
deriving DecidableEq, Repr

namespace Route

/-- Where the names of files begin. -/
def fileRoot : List Char := "static/".toList

/-- Is the text the name of a file? It may hold slashes, but not at its front, and a line feed
nowhere else. -/
def isFileName : List Char → Bool
  | [] => false
  | first :: rest => first != '/' && !rest.contains '\n'

/-- The route of a path without the slashes before it. -/
def ofPath? (path : List Char) : Option Route :=
  if path = "analyze-grammar".toList then some report
  else if path = "parse-input".toList then some verdict
  else if fileRoot.isPrefixOf path && isFileName (path.drop fileRoot.length) then some file
  else none

/-- The methods that a route takes. -/
def methods : Route → List String
  | report | verdict => ["POST", "OPTIONS"]
  | file => ["GET", "HEAD", "OPTIONS"]

/-- Does the route take the method of a request? -/
def allows (route : Route) (r : Request) : Bool :=
  route.methods.contains r.verb

end Route

end Predictive.Service
