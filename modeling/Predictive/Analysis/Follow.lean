import Predictive.Analysis.First

/-!
# The terminals that can follow a symbol

Where a symbol occurs in a body, it is followed by what the rest of the body begins with and,
where that rest derives the empty string, also by what follows the head. The search guards the
symbols that it is expanding: a guarded one adds nothing, and the answer is cut there. An answer
that was not cut is remembered.
-/

namespace Predictive

open Analysis (lookUp remember rememberIf)

/-- An occurrence of a symbol: the rule, and the rest of its body behind the symbol. -/
structure Occurrence (g : Grammar) where
  rule : Rule
  declared : rule ∈ g.rules
  rest : List Symbol

/-- What stands behind each occurrence of a symbol in a list, from left to right. -/
def restsBehind (s : Symbol) : List Symbol → List (List Symbol)
  | [] => []
  | t :: rest => if t = s then rest :: restsBehind s rest else restsBehind s rest

namespace Grammar

variable (g : Grammar)

/-- The occurrences of a symbol in the first `count` rules. -/
def occurrencesIn (count : Nat) (s : Symbol) : List (Occurrence g) :=
  (g.rules.attach.take count).flatMap fun r =>
    (restsBehind s r.1.body).map fun rest => { rule := r.1, declared := r.2, rest := rest }

/-- The occurrences of a symbol in the rules that there were when they were first asked for. -/
def occurrences (s : Symbol) : Analysis (List (Occurrence g)) := do
  match ← lookUp (·.scanned[s]?) with
  | some count => pure (g.occurrencesIn count s)
  | none =>
    remember fun memo => { memo with scanned := memo.scanned.insert s g.rules.length }
    pure (g.occurrencesIn g.rules.length s)

/-- What follows at the given occurrences, by way of what follows the heads of their rules. -/
def followVia (head : (o : Occurrence g) → Analysis (Cut SymbolSet)) :
    List (Occurrence g) → Analysis (Cut SymbolSet)
  | [] => pure { value := ∅ }
  | o :: others => do
    let found ← g.first o.rest
    let further : Cut SymbolSet ←
      if ← g.sequenceCanBeEmpty o.rest then head o else pure { value := ∅ }
    let answer ← followVia head others
    pure { value := found ∪ further.value ∪ answer.value, cuts := further.cuts ∪ answer.cuts }

/-- Bounds the depth of the search: one step may lead from any symbol to a head, and all others
lead from a head that is not guarded to another one. -/
def followDepth (guard : SymbolSet) (s : Symbol) : Nat :=
  openCount g.heads guard + if s ∈ g.heads then 0 else 1

variable {g} in
theorem followDepth_lt {guard : SymbolSet} {s head : Symbol} (hguard : s ∉ guard)
    (hhead : head ∈ g.heads) : g.followDepth (guard.insert s) head < g.followDepth guard s := by
  unfold followDepth
  by_cases hs : s ∈ g.heads
  · have := openCount_insert_lt hs hguard
    simp only [hhead, hs, if_true]
    omega
  · have := openCount_insert_le g.heads guard s
    simp only [hhead, hs, if_true, if_false]
    omega

/-- The terminals that can follow a symbol, without what comes by way of a guarded one. -/
def guardedFollow (guard : SymbolSet) (s : Symbol) : Analysis (Cut SymbolSet) := do
  if _hguard : s ∈ guard then
    pure { value := ∅, cuts := {s} }
  else
    match ← lookUp (·.follow[s]?) with
    | some known => pure { value := known }
    | none =>
      let answer ← g.followVia (fun o => guardedFollow (guard.insert s) o.rule.head)
        (← g.occurrences s)
      let result : Cut SymbolSet := { value := answer.value, cuts := answer.cuts.erase s }
      rememberIf result.isFinal fun memo =>
        { memo with follow := memo.follow.insert s result.value }
      pure result
termination_by g.followDepth guard s
decreasing_by exact followDepth_lt _hguard (mem_heads o.declared)

/-- The terminals that can follow a symbol. -/
def follow (s : Symbol) : Analysis SymbolSet := do
  return (← g.guardedFollow ∅ s).value

end Grammar

end Predictive
