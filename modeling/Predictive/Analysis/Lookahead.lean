import Predictive.Analysis.Follow

/-!
# The terminals that select a rule

A rule is selected by what its body begins with and, where the body derives the empty string, also
by what follows its head. The listings at the end give the sets of a whole grammar, variables and
rules in the order of declaration.
-/

namespace Predictive

open Analysis (lookUp remember forEach)

namespace Grammar

variable (g : Grammar)

/-- The terminals that select a rule among the alternatives of its variable. -/
def lookahead (r : Rule) : Analysis SymbolSet := do
  match ← lookUp (·.lookahead[r.index]?) with
  | some known => pure known
  | none =>
    let found ← g.first r.body
    let further ← if ← g.ruleCanBeEmpty r then g.follow r.head else pure ∅
    let selected := found ∪ further
    remember fun memo => { memo with lookahead := memo.lookahead.insert r.index selected }
    pure selected

/-- What every variable begins with. -/
def allFirst : Analysis (List (Symbol × SymbolSet)) :=
  forEach (fun v => do return (v, ← g.first [v])) g.nonterminals

/-- What can follow every variable. -/
def allFollow : Analysis (List (Symbol × SymbolSet)) :=
  forEach (fun v => do return (v, ← g.follow v)) g.nonterminals

/-- What selects every rule. -/
def allLookahead : Analysis (List (Rule × SymbolSet)) :=
  forEach (fun r => do return (r, ← g.lookahead r)) g.rules

end Grammar

end Predictive
