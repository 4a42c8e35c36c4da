import Predictive.Analysis.Lookahead

/-!
# Deterministic grammars

A grammar is deterministic when no terminal selects two alternatives of one variable. The
alternatives of a variable claim their terminals one after the other; a terminal stays with the
first that claims it, and every later claim on it is a collision. `collisions` lists them all,
`requireDeterministic` stops at the first.
-/

namespace Predictive

open Analysis (forEach)

/-- The rules that terminals have been claimed by. -/
abbrev Claims := Std.ExtTreeMap Symbol Rule

namespace Claims

/-- Claims the terminals that are still free for a rule. -/
def add (claims : Claims) (r : Rule) (selected : SymbolSet) : Claims :=
  selected.toList.foldl (fun held s => held.insertIfNew s r) claims

/-- The collisions of a rule of `owner` with the claims before it, in the order of terminals. -/
def collisions (claims : Claims) (owner : Symbol) (r : Rule) (selected : SymbolSet) :
    List Collision :=
  selected.toList.filterMap fun s =>
    claims[s]?.map fun first => { owner := owner, symbol := s, first := first, second := r }

end Claims

namespace Grammar

variable (g : Grammar)

/-- The collisions among alternatives of `owner`, given the claims of those before them. -/
def collisionsAmong (owner : Symbol) : List Rule → Claims → Analysis (List Collision)
  | [], _ => pure []
  | r :: rest, claims => do
    let selected ← g.lookahead r
    let later ← collisionsAmong owner rest (claims.add r selected)
    pure (claims.collisions owner r selected ++ later)

/-- All collisions of the grammar, variables and alternatives in the order of declaration. -/
def collisions : Analysis (List Collision) := do
  let found ← forEach (fun v => g.collisionsAmong v (g.alternatives v) ∅) g.nonterminals
  pure found.flatten

/-- Stops at the first collision among alternatives of `owner`, given the claims before them. -/
def checkAmong (owner : Symbol) : List Rule → Claims → Analysis Unit
  | [], _ => pure ()
  | r :: rest, claims => do
    let selected ← g.lookahead r
    match claims.collisions owner r selected with
    | c :: _ => throw (.collision c)
    | [] => checkAmong owner rest (claims.add r selected)

/-- Stops at the first collision among the alternatives of the given variables. -/
def checkVariables : List Symbol → Analysis Unit
  | [] => pure ()
  | v :: rest => do
    g.checkAmong v (g.alternatives v) ∅
    checkVariables rest

/-- Ends in an error unless the grammar is deterministic. -/
def requireDeterministic : Analysis Unit :=
  g.checkVariables g.nonterminals

/-- Is the grammar deterministic? Only a collision says no; any other error stays one. -/
def isDeterministic : Analysis Bool :=
  tryCatch (do g.requireDeterministic; return true) fun
    | .collision _ => pure false
    | e => throw e

end Grammar

end Predictive
