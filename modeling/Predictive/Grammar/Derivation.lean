import Predictive.Grammar.Basic

/-!
# Derivations

A form, that is, a list of symbols, is rewritten by replacing one head with the body of one of its
rules. What a form derives is what it becomes by any number of rewritings. The language of a
grammar holds the lists of terminals that the start symbol derives.

Main statements: derivations compose (`Derives.trans`) and may go on inside a longer form
(`Derives.within`, `Derives.append`).
-/

namespace Predictive.Grammar

variable (g : Grammar)

/-- One head in a form is replaced by the body of one of its rules. -/
inductive Rewrites : List Symbol → List Symbol → Prop where
  | byRule {r : Rule} (declared : r ∈ g.rules) (before after : List Symbol) :
      Rewrites (before ++ r.head :: after) (before ++ r.body ++ after)

/-- A form becomes another by any number of rewritings. -/
inductive Derives : List Symbol → List Symbol → Prop where
  | refl (form : List Symbol) : Derives form form
  | step {first second last : List Symbol} (rewrites : g.Rewrites first second)
      (derives : Derives second last) : Derives first last

/-- The lists of terminals that the start symbol derives. -/
def Language (tokens : List Symbol) : Prop :=
  g.Derives [g.start] tokens ∧ ∀ t ∈ tokens, g.isTerminal t

/-- A variable can begin with a symbol after one rule: what stands before it in the body derives
the empty string. -/
def LeftCorner (v s : Symbol) : Prop :=
  ∃ r ∈ g.rules, r.head = v ∧ ∃ before after, r.body = before ++ s :: after ∧ g.Derives before []

/-- Some declared variable derives a form in which a terminal stands right behind the symbol. -/
def Follows (s t : Symbol) : Prop :=
  g.isTerminal t ∧ ∃ v ∈ g.nonterminals, ∃ before after, g.Derives [v] (before ++ s :: t :: after)

/-- What follows a head also follows the symbol: the symbol stands in a body of the head, and what
stands behind it derives the empty string. -/
def Propagates (s head : Symbol) : Prop :=
  ∃ r ∈ g.rules, r.head = head ∧ ∃ before after, r.body = before ++ s :: after ∧ g.Derives after []

variable {g}

theorem Derives.trans {first second last : List Symbol} (h : g.Derives first second)
    (h' : g.Derives second last) : g.Derives first last := by
  induction h with
  | refl => exact h'
  | step rewrites _ ih => exact .step rewrites (ih h')

/-- The body of a rule is derived from its head. -/
theorem Derives.ofRule {r : Rule} (declared : r ∈ g.rules) : g.Derives [r.head] r.body := by
  simpa using Derives.step (Rewrites.byRule declared [] []) (.refl _)

theorem Rewrites.within {first second : List Symbol} (h : g.Rewrites first second)
    (before after : List Symbol) :
    g.Rewrites (before ++ first ++ after) (before ++ second ++ after) := by
  obtain ⟨declared, b, a⟩ := h
  simpa using Rewrites.byRule declared (before ++ b) (a ++ after)

/-- A derivation may go on between other symbols. -/
theorem Derives.within {first last : List Symbol} (h : g.Derives first last)
    (before after : List Symbol) :
    g.Derives (before ++ first ++ after) (before ++ last ++ after) := by
  induction h with
  | refl => exact .refl _
  | step rewrites _ ih => exact .step (rewrites.within before after) ih

/-- Two derivations may go on side by side. -/
theorem Derives.append {first last first' last' : List Symbol} (h : g.Derives first last)
    (h' : g.Derives first' last') : g.Derives (first ++ first') (last ++ last') := by
  have left : g.Derives (first ++ first') (last ++ first') := by simpa using h.within [] first'
  have right : g.Derives (last ++ first') (last ++ last') := by simpa using h'.within last []
  exact left.trans right

end Predictive.Grammar
