import Predictive.Grammar.Basic

/-!
# What can be wrong with a grammar

An error names its cause; `GrammarError.code` is its short word for programs and
`GrammarError.message` its sentence for readers.
-/

namespace Predictive

/-- A symbol of the input that selects two alternatives of one variable. -/
structure Collision where
  owner : Symbol
  symbol : Symbol
  first : Rule
  second : Rule
deriving DecidableEq, Repr

namespace Collision

/-- Names the variable, the symbol and both alternatives. -/
def message (c : Collision) : String :=
  "There is a collision on variable " ++ c.owner ++ ": '" ++ c.symbol ++ "' selects both [" ++
    c.first.text ++ "] and [" ++ c.second.text ++ "]"

end Collision

/-- Why a grammar, or an analysis of it, was given up. -/
inductive GrammarError where
  /-- The text declares no rule. -/
  | noRules
  /-- A symbol is neither a terminal nor the owner of a rule. -/
  | undeclaredVariable (name : Symbol)
  /-- A variable can begin with itself. -/
  | leftRecursion (name : Symbol)
  /-- Two alternatives share a symbol that selects them. -/
  | collision (c : Collision)
  /-- The table expands variables for ever without reading a token. -/
  | endlessExpansion
deriving DecidableEq, Repr

namespace GrammarError

/-- The word for the kind of error. -/
def code : GrammarError → String
  | noRules => "no_rules"
  | undeclaredVariable _ => "undeclared_variable"
  | leftRecursion _ => "left_recursion"
  | collision _ => "collision"
  | endlessExpansion => "endless_expansion"

/-- The sentence that describes the error. -/
def message : GrammarError → String
  | noRules => "No rules found in this grammar"
  | undeclaredVariable name => "Variable " ++ name ++ " not found"
  | leftRecursion name => "Variable " ++ name ++ " is left recursive"
  | collision c => c.message
  | endlessExpansion => "Variables are expanded without end"

end GrammarError

/-- The alternatives of a variable. A symbol without any is refused. -/
def Grammar.rulesOf (g : Grammar) (v : Symbol) : Except GrammarError (List Rule) :=
  match g.alternatives v with
  | [] => .error (.undeclaredVariable v)
  | rules => .ok rules

end Predictive
