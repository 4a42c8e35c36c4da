import Predictive.Analysis.Memo

/-!
# Which symbols derive the empty string

A sequence derives the empty string when all its symbols do, a variable when the body of one of
its alternatives does. The search guards the variables that it is expanding: a guarded variable
counts as not empty, and the answer is cut there. A positive answer is final in any case, a
negative one only if it was not cut, and only final answers are remembered.
-/

namespace Predictive

open Analysis (lookUp rememberIf)

namespace Emptiness

/-- A sequence, by way of its symbols: the first that is not empty decides. -/
def ofSequence (symbol : Symbol → Analysis (Cut Bool)) : List Symbol → Analysis (Cut Bool)
  | [] => pure { value := true }
  | s :: rest => do
    let answer ← symbol s
    if answer.value then ofSequence symbol rest
    else pure answer

/-- A rule, by way of the symbols of its body. -/
def ofRule (symbol : Symbol → Analysis (Cut Bool)) (r : Rule) : Analysis (Cut Bool) := do
  match ← lookUp (·.ruleEmptiness[r.index]?) with
  | some known => pure { value := known }
  | none =>
    let answer ← ofSequence symbol r.body
    rememberIf (answer.value || answer.isFinal) fun memo =>
      { memo with ruleEmptiness := memo.ruleEmptiness.insert r.index answer.value }
    pure answer

/-- Alternatives, by way of the symbols of their bodies: the first that is empty decides, and
otherwise the cuts of all of them add up. -/
def ofRules (symbol : Symbol → Analysis (Cut Bool)) : List Rule → Analysis (Cut Bool)
  | [] => pure { value := false }
  | r :: rest => do
    let answer ← ofRule symbol r
    if answer.value then
      pure { value := true }
    else
      let others ← ofRules symbol rest
      if others.value then
        pure { value := true }
      else
        pure { value := false, cuts := answer.cuts ∪ others.cuts }

end Emptiness

namespace Grammar

variable (g : Grammar)

/-- Does a symbol derive the empty string without a guarded variable? -/
def symbolEmptiness (guard : SymbolSet) (s : Symbol) : Analysis (Cut Bool) := do
  if g.isTerminal s then
    pure { value := false }
  else if _hguard : s ∈ guard then
    pure { value := false, cuts := {s} }
  else
    match ← lookUp (·.emptiness[s]?) with
    | some known => pure { value := known }
    | none =>
      if _hrules : g.alternatives s = [] then
        throw (.undeclaredVariable s)
      else
        let answer ← Emptiness.ofRules (fun t => symbolEmptiness (guard.insert s) t)
          (g.alternatives s)
        let result : Cut Bool := { value := answer.value, cuts := answer.cuts.erase s }
        rememberIf (result.value || result.isFinal) fun memo =>
          { memo with emptiness := memo.emptiness.insert s result.value }
        pure result
termination_by openCount g.nonterminals guard
decreasing_by exact openCount_insert_lt (mem_nonterminals_of_alternatives_ne_nil _hrules) _hguard

/-- Does a sequence derive the empty string without a guarded variable? -/
def sequenceEmptiness (guard : SymbolSet) (symbols : List Symbol) : Analysis (Cut Bool) :=
  Emptiness.ofSequence (g.symbolEmptiness guard) symbols

/-- Does the body of a rule derive the empty string without a guarded variable? -/
def bodyEmptiness (guard : SymbolSet) (r : Rule) : Analysis (Cut Bool) :=
  Emptiness.ofRule (g.symbolEmptiness guard) r

/-- Does a symbol derive the empty string? -/
def symbolCanBeEmpty (s : Symbol) : Analysis Bool := do
  return (← g.symbolEmptiness ∅ s).value

/-- Do all symbols of a sequence derive the empty string? -/
def sequenceCanBeEmpty (symbols : List Symbol) : Analysis Bool := do
  return (← g.sequenceEmptiness ∅ symbols).value

/-- Does the body of a rule derive the empty string? -/
def ruleCanBeEmpty (r : Rule) : Analysis Bool := do
  return (← g.bodyEmptiness ∅ r).value

end Grammar

end Predictive
