import Predictive.Analysis.Emptiness

/-!
# The terminals that a sequence can begin with

A sequence begins with what its first symbol begins with and, where that symbol derives the empty
string, also with what the rest begins with. The search guards the variables that it is expanding
at the front of one another; to meet one of them again is left recursion.
-/

namespace Predictive

open Analysis (lookUp remember unionOver)

namespace Grammar

variable (g : Grammar)

/-- The terminals that a sequence begins with, by way of what a variable begins with. -/
def firstVia (start : Symbol → Analysis SymbolSet) : List Symbol → Analysis SymbolSet
  | [] => pure ∅
  | s :: rest => do
    if g.isTerminal s then
      pure {s}
    else
      let found ← start s
      if rest.isEmpty then
        pure found
      else if ← g.symbolCanBeEmpty s then
        let further ← firstVia start rest
        pure (found ∪ further)
      else
        pure found

/-- The terminals that a variable begins with, while the guarded ones are being expanded. -/
def variableFirst (guard : SymbolSet) (s : Symbol) : Analysis SymbolSet := do
  if _hguard : s ∈ guard then
    throw (.leftRecursion s)
  else
    match ← lookUp (·.first[s]?) with
    | some known => pure known
    | none =>
      if _hrules : g.alternatives s = [] then
        throw (.undeclaredVariable s)
      else
        let found ← unionOver
          (fun r : Rule => g.firstVia (fun t => variableFirst (guard.insert s) t) r.body)
          (g.alternatives s)
        remember fun memo => { memo with first := memo.first.insert s found }
        pure found
termination_by openCount g.nonterminals guard
decreasing_by exact openCount_insert_lt (mem_nonterminals_of_alternatives_ne_nil _hrules) _hguard

/-- The terminals that a sequence begins with, while the guarded variables are being expanded. -/
def guardedFirst (guard : SymbolSet) (symbols : List Symbol) : Analysis SymbolSet :=
  g.firstVia (g.variableFirst guard) symbols

/-- The terminals that a sequence begins with. -/
def first (symbols : List Symbol) : Analysis SymbolSet :=
  g.guardedFirst ∅ symbols

end Grammar

end Predictive
