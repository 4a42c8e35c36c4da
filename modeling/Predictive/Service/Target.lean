import Predictive.Json.Reader

/-!
# Targets of requests

A target is a reference: a scheme, an authority, a path, a query and a fragment, all but the path
optional. Of these the service looks at the scheme and the path. A client reads the target twice,
for the address to send to and for what to ask for there, and what looks like a scheme or an
authority is taken off each time.
-/

namespace Predictive.Service

/-- The parts of a reference that are looked at. -/
structure Reference where
  scheme : List Char
  path : List Char
  query : List Char
deriving DecidableEq, Repr

namespace Reference

/-- Characters that are dropped before a reference: the controls of ASCII and the space. -/
def isControl (c : Char) : Bool :=
  c.toNat ≤ 0x20

/-- Characters that are dropped inside a reference. -/
def isIgnored (c : Char) : Bool :=
  c = '\t' || c = '\n' || c = '\r'

/-- Is the text a scheme: a letter, and then letters, digits, plus, minus and dots? -/
def isScheme : List Char → Bool
  | [] => false
  | first :: rest => first.isAlpha && rest.all fun c => c.isAlphanum || "+-.".toList.contains c

/-- A scheme in small letters, if there is one before the first colon, and the rest. -/
def splitScheme (text : List Char) : List Char × List Char :=
  let before := text.takeWhile (· != ':')
  match text.dropWhile (· != ':') with
  | _ :: rest => if isScheme before then (before.map Char.toLower, rest) else ([], text)
  | [] => ([], text)

/-- What stands behind the authority, which two slashes announce. -/
def dropAuthority : List Char → List Char
  | '/' :: '/' :: rest => rest.dropWhile fun c => !"/?#".toList.contains c
  | text => text

/-- Reads a reference. -/
def ofText (text : List Char) : Reference :=
  let (scheme, rest) := splitScheme ((text.dropWhile isControl).filter fun c => !isIgnored c)
  let rest := (dropAuthority rest).takeWhile (· != '#')
  { scheme := scheme
    path := rest.takeWhile (· != '?')
    query := (rest.dropWhile (· != '?')).drop 1 }

/-- The path with the query behind it, if there is one. -/
def pathAndQuery (r : Reference) : List Char :=
  if r.query.isEmpty then r.path else r.path ++ '?' :: r.query

end Reference

/-- The scheme that a request is sent with, if the target has one, and the path that it asks for,
without the slashes before it. -/
structure Target where
  scheme : List Char
  path : List Char
deriving DecidableEq, Repr

namespace Target

/-- The characters of a path with each escaped one of ASCII in its place. -/
def unescape : List Char → List Char
  | '%' :: a :: b :: rest =>
    match Json.hexDigit? a, Json.hexDigit? b with
    | some high, some low =>
      if high < 8 then Char.ofNat (high * 16 + low) :: unescape rest
      else '%' :: unescape (a :: b :: rest)
    | _, _ => '%' :: unescape (a :: b :: rest)
  | c :: rest => c :: unescape rest
  | [] => []

/-- Reads a target. -/
def ofText (text : String) : Target :=
  let address := Reference.ofText text.toList
  let wanted := Reference.ofText address.pathAndQuery
  { scheme := address.scheme
    path := (unescape (wanted.path.dropWhile Reference.isControl)).dropWhile (· == '/') }

/-- Is a socket asked for, and not a response? -/
def isSocket (t : Target) : Bool :=
  t.scheme == "ws".toList || t.scheme == "wss".toList

/-- The path with each run of slashes made one. -/
def mergeSlashes : List Char → List Char
  | [] => []
  | c :: rest =>
    if c = '/' ∧ rest.head? = some '/' then mergeSlashes rest else c :: mergeSlashes rest

end Target

end Predictive.Service
