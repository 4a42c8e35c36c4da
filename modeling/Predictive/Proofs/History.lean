import Predictive.Proofs.Parsing.Recognition

/-!
# What a grammar remembers

Everything that can be asked of a grammar is a `Query`: the sets, with any guard and about any
symbols, the listings, the checks and the parses. `Reachable` holds of all that a new grammar can
remember after queries in any order, of which any may have ended in an error. The invariant is
`Memo.Exact`: every query keeps it (`Query.exact_runFrom`), so it always holds
(`Grammar.Reachable.exact`).
-/

namespace Predictive

/-- A question to a grammar. -/
inductive Query (g : Grammar) where
  | symbolEmptiness (guard : SymbolSet) (s : Symbol)
  | sequenceEmptiness (guard : SymbolSet) (symbols : List Symbol)
  | bodyEmptiness (guard : SymbolSet) (r : Rule) (declared : r ∈ g.rules)
  | first (guard : SymbolSet) (symbols : List Symbol)
  | occurrences (s : Symbol)
  | follow (guard : SymbolSet) (s : Symbol)
  | lookahead (r : Rule) (declared : r ∈ g.rules)
  | allFirst
  | allFollow
  | allLookahead
  | collisions
  | requireDeterministic
  | isDeterministic
  | buildTable
  | table
  | runTokens (tokens : List Symbol)
  | parseText (text : String)
  | accepts (text : String)

namespace Query

variable {g : Grammar}

/-- The kind of answer that a query gets. -/
def Answer : Query g → Type
  | symbolEmptiness _ _ | sequenceEmptiness _ _ | bodyEmptiness _ _ _ => Cut Bool
  | first _ _ | lookahead _ _ => SymbolSet
  | occurrences _ => List (Occurrence g)
  | follow _ _ => Cut SymbolSet
  | allFirst | allFollow => List (Symbol × SymbolSet)
  | allLookahead => List (Rule × SymbolSet)
  | collisions => List Collision
  | requireDeterministic => Unit
  | isDeterministic | accepts _ => Bool
  | buildTable | table => Table
  | runTokens _ | parseText _ => ParseOutcome

/-- Asks a grammar. -/
def ask : (q : Query g) → Analysis q.Answer
  | symbolEmptiness guard s => g.symbolEmptiness guard s
  | sequenceEmptiness guard symbols => g.sequenceEmptiness guard symbols
  | bodyEmptiness guard r _ => g.bodyEmptiness guard r
  | first guard symbols => g.guardedFirst guard symbols
  | occurrences s => g.occurrences s
  | follow guard s => g.guardedFollow guard s
  | lookahead r _ => g.lookahead r
  | allFirst => g.allFirst
  | allFollow => g.allFollow
  | allLookahead => g.allLookahead
  | collisions => g.collisions
  | requireDeterministic => g.requireDeterministic
  | isDeterministic => g.isDeterministic
  | buildTable => g.buildTable
  | table => g.table
  | runTokens tokens => g.runTokens tokens
  | parseText text => g.parseText text
  | accepts text => g.accepts text

end Query

/-- What a new grammar remembers after some queries. -/
inductive Grammar.Reachable (g : Grammar) : Memo → Prop where
  | new : Reachable g {}
  | ask {memo : Memo} (reachable : Reachable g memo) (q : Query g) :
      Reachable g (q.ask.runFrom memo).2

namespace Query

variable {g : Grammar}

/-- A query to a well-formed grammar keeps all that is remembered true, however it ends. -/
theorem exact_runFrom (wf : g.WellFormed) (q : Query g) {memo : Memo} (hmemo : memo.Exact g) :
    Memo.Exact g (q.ask.runFrom memo).2 := by
  cases q with
  | symbolEmptiness guard s => exact (wf.symbolEmptiness_ensures guard s memo hmemo).1
  | sequenceEmptiness guard symbols =>
    exact (wf.sequenceEmptiness_ensures guard symbols memo hmemo).1
  | bodyEmptiness guard r declared => exact (wf.bodyEmptiness_ensures guard declared memo hmemo).1
  | first guard symbols => exact (wf.guardedFirst_ensures guard symbols memo hmemo).1
  | occurrences s =>
    exact (@Grammar.occurrences_ensures g (fun _ => True) s memo hmemo).1
  | follow guard s => exact (wf.guardedFollow_ensures guard s memo hmemo).1
  | lookahead r declared => exact (wf.lookahead_ensures declared memo hmemo).1
  | allFirst => exact (wf.allFirst_ensures memo hmemo).1
  | allFollow => exact (wf.allFollow_ensures memo hmemo).1
  | allLookahead => exact (wf.allLookahead_ensures memo hmemo).1
  | collisions => exact (wf.collisions_ensures memo hmemo).1
  | requireDeterministic => exact (wf.requireDeterministic_ensures memo hmemo).1
  | isDeterministic => exact (wf.isDeterministic_ensures memo hmemo).1
  | buildTable => exact (wf.buildTable_ensures memo hmemo).1
  | table => exact (wf.table_ensures memo hmemo).1
  | runTokens tokens => exact (wf.runTokens_ensures tokens memo hmemo).1
  | parseText text => exact (wf.parseText_ensures text memo hmemo).1
  | accepts text => exact (wf.accepts_ensures text memo hmemo).1

end Query

/-- Whatever was asked of a well-formed grammar, all that it remembers is true. -/
theorem Grammar.Reachable.exact {g : Grammar} (wf : g.WellFormed) {memo : Memo}
    (h : g.Reachable memo) : memo.Exact g := by
  induction h with
  | new => exact Memo.exact_empty
  | ask _ q ih => exact q.exact_runFrom wf ih

end Predictive
