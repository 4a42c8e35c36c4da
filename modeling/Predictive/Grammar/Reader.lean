import Predictive.Grammar.Error

/-!
# Reading a grammar

A grammar is written with one production a line: a head, an equals sign and the words of a body.
The head is all that stands before the first equals sign, without the blanks around it. A line
without an equals sign, without a head or without a body declares nothing.
-/

namespace Predictive

/-- The production that a line declares. -/
def Production.ofLine? (line : List Char) : Option Production :=
  match line.dropWhile (· != '=') with
  | [] => none
  | _ :: body =>
    let head := Text.trim (line.takeWhile (· != '='))
    if head.isEmpty || (Text.wordsOf body).isEmpty then none
    else some (.ofText (String.ofList head) (String.ofList body))

/-- The productions that the lines of a text declare. -/
def Production.readAll (text : String) : List Production :=
  (Text.linesOf text.toList).filterMap Production.ofLine?

namespace Grammar

/-- The grammar of the productions that a text declares. -/
def ofText (text : String) : Except GrammarError Grammar :=
  match Production.readAll text with
  | [] => .error .noRules
  | first :: others => .ok (ofProductions first others)

/-- Only a text that declares nothing is refused. -/
theorem ofText_eq_error_iff {text : String} {e : GrammarError} :
    ofText text = .error e ↔ e = .noRules ∧ Production.readAll text = [] := by
  cases h : Production.readAll text with
  | nil => exact ⟨fun he => ⟨by simpa [ofText, h, eq_comm] using he, rfl⟩, fun he => by
      simp [ofText, h, he.1]⟩
  | cons first others => simp [ofText, h]

end Grammar

end Predictive
