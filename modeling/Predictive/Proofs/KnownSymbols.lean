import Mathlib
import Predictive.Proofs.Analysis.Declared
import Predictive.Proofs.Grammar.Declarations
import Predictive.Proofs.LeftRecursion
import Predictive.Workflow.Basic

/-!
# No symbol of a grammar is unknown to it

Reading a text splits the symbols into terminals and declared variables, and a rule that is added
over these symbols takes none of them away. So the grammar stays closed
(`Session.ReachedFrom.closed`), and whatever has been asked of it before, a question about its
symbols never comes upon an undeclared variable (`Grammar.never_undeclared`). Only the look-up of
the alternatives itself refuses a symbol of the grammar, if it is a terminal.
-/

namespace Predictive

/-- A query about symbols of a closed grammar, under any guard, comes upon no undeclared
variable. -/
theorem Query.declared {g : Grammar} (hclosed : g.Closed) {q : Query g} (hq : q.OfSymbols) :
    q.ask.Declared := by
  cases q with
  | symbolEmptiness guard s => exact hclosed.symbolEmptiness guard s hq
  | sequenceEmptiness guard symbols => exact hclosed.sequenceEmptiness guard hq
  | bodyEmptiness guard r declared => exact hclosed.bodyEmptiness guard declared
  | first guard symbols => exact hclosed.guardedFirst guard hq
  | occurrences s => exact (hclosed.occurrences_ensures s).mono_value fun _ _ => trivial
  | follow guard s => exact hclosed.guardedFollow guard s
  | lookahead r declared => exact hclosed.lookahead declared
  | allFirst =>
    refine Analysis.Declared.forEach fun v hv => ?_
    have hsymbols : ∀ s ∈ [v], g.IsSymbol s := by
      simp only [List.mem_singleton, forall_eq]
      exact .inr hv
    exact (hclosed.guardedFirst ∅ hsymbols).bind fun _ => .pure _
  | allFollow =>
    exact Analysis.Declared.forEach fun v _ => (hclosed.follow v).bind fun _ => .pure _
  | allLookahead =>
    exact Analysis.Declared.forEach fun r hr => (hclosed.lookahead hr).bind fun _ => .pure _
  | collisions => exact hclosed.collisions
  | requireDeterministic => exact hclosed.checkVariables g.nonterminals
  | isDeterministic => exact hclosed.isDeterministic
  | buildTable => exact hclosed.buildTable
  | table => exact hclosed.table
  | runTokens tokens => exact hclosed.runTokens tokens
  | parseText text => exact hclosed.parseText text
  | accepts text => exact (hclosed.parseText text).bind fun _ => .pure _

namespace Grammar

variable {g : Grammar}

/-- A declared variable has its alternatives. -/
theorem rulesOf_of_mem {v : Symbol} (hv : v ∈ g.nonterminals) :
    g.rulesOf v = .ok (g.alternatives v) := by
  obtain ⟨first, others, halternatives⟩ :=
    List.exists_cons_of_ne_nil (alternatives_ne_nil_of_mem hv)
  rw [rulesOf, halternatives]

/-- Any other symbol is refused. -/
theorem rulesOf_of_not_mem {v : Symbol} (hv : v ∉ g.nonterminals) :
    g.rulesOf v = .error (.undeclaredVariable v) := by
  have hnone : g.alternatives v = [] :=
    not_not.1 fun hne => hv (mem_nonterminals_of_alternatives_ne_nil hne)
  rw [rulesOf, hnone]

variable (g) in
/-- With the given memory, no question about symbols of the grammar comes upon a symbol that is
neither a terminal nor declared. -/
structure KnowsItsSymbols (memo : Memo) : Prop where
  rulesOf : ∀ v ∈ g.nonterminals, g.rulesOf v = .ok (g.alternatives v)
  query : ∀ q : Query g, q.OfSymbols →
    ∀ v, (q.ask.runFrom memo).1 ≠ .error (.undeclaredVariable v)
  /-- The questions that leave out where an answer was cut. -/
  symbolCanBeEmpty : ∀ s, g.IsSymbol s →
    ∀ v, ((g.symbolCanBeEmpty s).runFrom memo).1 ≠ .error (.undeclaredVariable v)
  sequenceCanBeEmpty : ∀ symbols, (∀ s ∈ symbols, g.IsSymbol s) →
    ∀ v, ((g.sequenceCanBeEmpty symbols).runFrom memo).1 ≠ .error (.undeclaredVariable v)
  ruleCanBeEmpty : ∀ r ∈ g.rules,
    ∀ v, ((g.ruleCanBeEmpty r).runFrom memo).1 ≠ .error (.undeclaredVariable v)
  follow : ∀ s, g.IsSymbol s →
    ∀ v, ((g.follow s).runFrom memo).1 ≠ .error (.undeclaredVariable v)

/-- A closed grammar knows its symbols, whatever is remembered. -/
theorem Closed.knowsItsSymbols (hclosed : g.Closed) (memo : Memo) : g.KnowsItsSymbols memo where
  rulesOf _ hv := rulesOf_of_mem hv
  query _ hq := (Query.declared hclosed hq).run_ne memo
  symbolCanBeEmpty _ hs := (hclosed.symbolCanBeEmpty hs).run_ne memo
  sequenceCanBeEmpty _ hsymbols := (hclosed.sequenceCanBeEmpty hsymbols).run_ne memo
  ruleCanBeEmpty _ hr := (hclosed.ruleCanBeEmpty hr).run_ne memo
  follow s _ := (hclosed.follow s).run_ne memo

end Grammar

namespace Session

/-- The session begins with the grammar as it was read. Since then the grammar has been asked, and
rules over its symbols have been added, in any order. -/
inductive ReachedFrom (g : Grammar) : Session → Prop where
  | new : ReachedFrom g { grammar := g }
  | ask {s : Session} (reached : ReachedFrom g s) (q : Query s.grammar) :
      ReachedFrom g (s.run fun _ => q.ask).2
  | addRule {s : Session} (reached : ReachedFrom g s) (owner : Symbol) (p : Production)
      (hbody : ∀ t ∈ p.body, s.grammar.IsSymbol t) : ReachedFrom g (s.addRule owner p)

/-- The grammar stays closed. -/
theorem ReachedFrom.closed {g : Grammar} (hclosed : g.Closed) {s : Session}
    (h : ReachedFrom g s) : s.grammar.Closed := by
  induction h with
  | new => exact hclosed
  | ask _ q ih => exact ih
  | addRule _ owner p hbody ih => exact ih.addRule owner hbody

end Session

namespace Grammar

variable {g : Grammar}

/-- Reading a text splits the rules by their heads and the symbols into terminals and variables. So
no question about symbols of the grammar, under any guard and whatever was asked or added before,
comes upon an undeclared one, but for the look-up of the alternatives of a terminal. -/
theorem never_undeclared {text : String} (hread : ofText text = .ok g) :
    g.Partitioned ∧ (∀ t, g.isTerminal t → g.rulesOf t = .error (.undeclaredVariable t)) ∧
      ∀ s, Session.ReachedFrom g s → s.grammar.KnowsItsSymbols s.memo := by
  have wf := wellFormed_ofText hread
  refine ⟨wf.partitioned, fun t ht => rulesOf_of_not_mem (wf.not_mem_nonterminals ht), ?_⟩
  exact fun s hs => (hs.closed wf.closed).knowsItsSymbols s.memo

/-- A variable with the reserved spelling, and one that is declared after its use. -/
def emptyDeclared : Grammar :=
  .ofProductions ⟨"S", ["A", "x"]⟩ [⟨"EMPTY", ["S"]⟩, ⟨"A", []⟩]

/-- A foreign symbol is unknown, and it still is after a rule has been added to a terminal. All
symbols of the grammar are known then. -/
theorem never_undeclared_of_emptyDeclared :
    ofText "S = A x\nmalformed\nEMPTY = S EMPTY\nA = EMPTY" = .ok emptyDeclared ∧
      emptyDeclared.Partitioned ∧
      ((emptyDeclared.first ["Z"]).runFrom {}).1 = .error (.undeclaredVariable "Z") ∧
      ∃ s, Session.ReachedFrom emptyDeclared s ∧ "x" ∈ s.grammar.nonterminals ∧
        ((s.grammar.first ["Z"]).runFrom s.memo).1 = .error (.undeclaredVariable "Z") ∧
        s.grammar.KnowsItsSymbols s.memo := by
  have hread : ofText "S = A x\nmalformed\nEMPTY = S EMPTY\nA = EMPTY" = .ok emptyDeclared := by
    cbv
  have hunknown : ((emptyDeclared.first ["Z"]).runFrom {}).1 =
      .error (.undeclaredVariable "Z") := by
    cbv
  obtain ⟨hpartitioned, -, hknows⟩ := never_undeclared hread
  have hasked := Session.ReachedFrom.ask (g := emptyDeclared) .new (.first ∅ ["Z"])
  have hbody : ∀ t ∈ ["A", "S"], emptyDeclared.IsSymbol t := by
    intro t ht
    exact .inr (by revert t; decide)
  have hadded := hasked.addRule "x" ⟨"x", ["A", "S"]⟩ hbody
  exact ⟨hread, hpartitioned, hunknown, _, hadded, by decide, by cbv, hknows _ hadded⟩

/-- The only symbol of a body. -/
def oneTerminal : Grammar :=
  .ofProductions ⟨"S", ["x"]⟩ []

/-- The look-up of alternatives refuses a symbol of the grammar. -/
theorem rulesOf_oneTerminal :
    ofText "S = x" = .ok oneTerminal ∧ oneTerminal.IsSymbol "x" ∧
      oneTerminal.rulesOf "x" = .error (.undeclaredVariable "x") := by
  refine ⟨rfl, .inl (by decide), rulesOf_of_not_mem (by decide)⟩

end Grammar

end Predictive
