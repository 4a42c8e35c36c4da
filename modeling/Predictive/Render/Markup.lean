import Predictive.Text.Blank

/-!
# Markup

A document is a list of lines, a line a list of pieces, and a piece is a tag or a text. Texts are
escaped when they are written, so that no text, wherever it comes from, can open or close a tag.
-/

namespace Predictive.Markup

/-- What stands for a character in a text: the five characters with a meaning in markup become
entities, the apostrophe the given one. -/
def escapeChar (apostrophe : List Char) (c : Char) : List Char :=
  match c with
  | '&' => "&amp;".toList
  | '<' => "&lt;".toList
  | '>' => "&gt;".toList
  | '\x22' => "&quot;".toList
  | '\x27' => apostrophe
  | c => [c]

/-- The entity of an apostrophe in documents, by its number in base sixteen. -/
def apostropheEntity : List Char := "&#x27;".toList

/-- A text with all characters that have a meaning in markup replaced at once. -/
def escape (text : String) : String :=
  String.ofList (text.toList.flatMap (escapeChar apostropheEntity))

/-- A tag or a text. The values of attributes are written as they are. -/
inductive Piece where
  | opening (name : String) (attributes : List (String × String))
  | closing (name : String)
  | text (content : String)
deriving DecidableEq, Repr

/-- An attribute inside a tag. -/
def attributeText (item : String × String) : String :=
  " " ++ item.1 ++ "=\"" ++ item.2 ++ "\""

/-- A piece as it is written. -/
def Piece.render : Piece → String
  | opening name attributes => "<" ++ name ++ String.join (attributes.map attributeText) ++ ">"
  | closing name => "</" ++ name ++ ">"
  | text content => escape content

/-- Pieces on one line. -/
abbrev Line := List Piece

/-- A line as it is written. -/
def Line.render (line : Line) : String :=
  String.join (line.map Piece.render)

/-- Lines as they are written, one below the other. -/
def render (lines : List Line) : String :=
  Text.unlines (lines.map Line.render)

/-- Pieces between an opening tag and its closing tag. -/
def element (name : String) (attributes : List (String × String)) (content : Line) : Line :=
  .opening name attributes :: content ++ [.closing name]

/-- A text between an opening tag and its closing tag. -/
def textElement (name : String) (attributes : List (String × String)) (content : String) : Line :=
  element name attributes [.text content]

/-- Lines between an opening tag and its closing tag, each of the two on a line of its own. -/
def block (name : String) (attributes : List (String × String)) (content : List Line) :
    List Line :=
  [.opening name attributes] :: content ++ [[.closing name]]

/-- The attribute that lists classes. -/
def classes (names : String) : List (String × String) :=
  [("class", names)]

/-- A rule of a style sheet. -/
def styleRule (selector declarations : String) : Line :=
  [.text (selector ++ " \x7b " ++ declarations ++ " \x7d")]

/-- A style sheet with an empty line before and after it. -/
def styleSheet (rules : List Line) : List Line :=
  [] :: block "style" [] rules ++ [[]]

end Predictive.Markup
