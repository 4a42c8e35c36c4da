import Predictive.Proofs.Answers
import Predictive.Proofs.Independence

/-!
# Left recursion is reported everywhere

The listings of a whole grammar, the table and the parser come to what every rule begins with, each
by a way of its own: from the variables themselves, from the bodies of their rules, or from what
follows a head. None of them ends in a value unless all bodies are grounded
(`Query.ensures_of_exhaustive`), so each reports left recursion wherever there is any. Without it
nothing but a collision can go wrong, and that only where a deterministic grammar is asked for
(`Query.ensures_of_ofSymbols`).
-/

namespace Predictive

open Analysis (Ensures)

namespace Query

variable {g : Grammar}

/-- The query is about symbols of the grammar. -/
def OfSymbols : Query g → Prop
  | symbolEmptiness _ s | occurrences s | follow _ s => g.IsSymbol s
  | sequenceEmptiness _ symbols | first _ symbols => ∀ s ∈ symbols, g.IsSymbol s
  | _ => True

/-- The answer to the query needs what every rule of the grammar begins with. -/
def Exhaustive : Query g → Prop
  | allFirst | allLookahead | collisions | buildTable | table | runTokens _ => True
  | _ => False

/-- The query is refused by a grammar that is not deterministic. -/
def NeedsDeterminism : Query g → Prop
  | requireDeterministic | parseText _ | accepts _ => True
  | _ => False

/-- An exhaustive query ends in a value only where no variable is left recursive, and otherwise it
names one that is. -/
theorem ensures_of_exhaustive (wf : g.WellFormed) {q : Query g} (hq : q.Exhaustive) :
    Ensures (Memo.Exact g) q.ask (fun _ => ∀ v, ¬g.LeftRecursive v) g.IsLeftRecursion := by
  have hbodies : (∀ r ∈ g.rules, g.GroundedForm r.body) → ∀ v, ¬g.LeftRecursive v :=
    Grammar.not_leftRecursive_of_bodies
  cases q with
  | allFirst =>
    refine wf.allFirst_ensures.mono_value fun found hfound v hv => ?_
    obtain ⟨_, -, -, hgrounded, -⟩ :=
      Analysis.exists_right_of_forall₂ hfound (hv.mem_nonterminals wf)
    have hcorner : g.Corner [v] v := Grammar.corner_cons_iff.2 (.inl rfl)
    exact (hgrounded v hcorner).not_leftRecursive hv
  | allLookahead =>
    refine wf.allLookahead_ensures.mono_value fun found hfound => hbodies fun r hr => ?_
    obtain ⟨_, -, -, hgrounded, -⟩ := Analysis.exists_right_of_forall₂ hfound hr
    exact hgrounded
  | collisions => exact wf.collisions_ensures.mono_value fun _ h => hbodies h.1
  | buildTable => exact wf.buildTable_ensures.mono_value fun _ h => hbodies h.1
  | table => exact wf.table_ensures.mono_value fun _ h => hbodies h.1
  | runTokens tokens =>
    exact (wf.runTokens_ensures_grounded tokens).mono_value fun _ h => hbodies h.1
  | _ => exact hq.elim

/-- A query about symbols of the grammar, without a guard, goes wrong by left recursion only, or by
a collision if it needs a deterministic grammar. -/
theorem ensures_of_ofSymbols (wf : g.WellFormed) {q : Query g} (hsymbols : q.OfSymbols)
    (hguard : q.Unguarded) :
    Ensures (Memo.Exact g) q.ask (fun _ => True)
      (fun e => g.IsLeftRecursion e ∨ (q.NeedsDeterminism ∧ ∃ c, e = .collision c)) := by
  -- Three queries stop at collisions, and left recursion alone can stop the others.
  suffices hcases : Ensures (Memo.Exact g) q.ask (fun _ => True) g.IsLeftRecursion ∨
      (q.NeedsDeterminism ∧
        Ensures (Memo.Exact g) q.ask (fun _ => True) (g.Refutes g.nonterminals)) by
    rcases hcases with h | ⟨hneeds, h⟩
    · exact h.mono_error fun _ he => .inl he
    · refine h.mono_error ?_
      rintro e (he | ⟨c, rfl, -⟩)
      · exact .inl he
      · exact .inr ⟨hneeds, c, rfl⟩
  cases q with
  | symbolEmptiness guard s =>
    exact .inl ((wf.symbolEmptiness_ensures guard s).mono (fun _ _ => trivial)
      fun _ he => absurd hsymbols he.2)
  | sequenceEmptiness guard symbols =>
    exact .inl ((wf.sequenceEmptiness_ensures guard symbols).mono (fun _ _ => trivial)
      fun _ ⟨s, hs, he⟩ => absurd (hsymbols s hs) he.2)
  | bodyEmptiness guard r declared =>
    exact .inl ((wf.bodyEmptiness_ensures guard declared).mono (fun _ _ => trivial)
      fun _ he => he.elim)
  | first guard symbols =>
    obtain rfl : guard = ∅ := hguard
    exact .inl ((wf.first_of_symbols_ensures hsymbols).mono (fun _ _ => trivial) fun _ he => he.1)
  | occurrences s =>
    exact .inl ((Grammar.occurrences_ensures s).mono_value fun _ _ => trivial)
  | follow guard s =>
    exact .inl ((wf.guardedFollow_ensures guard s).mono_value fun _ _ => trivial)
  | lookahead r declared =>
    exact .inl ((wf.lookahead_ensures declared).mono_value fun _ _ => trivial)
  | allFirst => exact .inl (wf.allFirst_ensures.mono_value fun _ _ => trivial)
  | allFollow => exact .inl (wf.allFollow_ensures.mono_value fun _ _ => trivial)
  | allLookahead => exact .inl (wf.allLookahead_ensures.mono_value fun _ _ => trivial)
  | collisions => exact .inl (wf.collisions_ensures.mono_value fun _ _ => trivial)
  | requireDeterministic =>
    exact .inr ⟨trivial, wf.requireDeterministic_ensures.mono_value fun _ _ => trivial⟩
  | isDeterministic => exact .inl (wf.isDeterministic_ensures.mono_value fun _ _ => trivial)
  | buildTable => exact .inl (wf.buildTable_ensures.mono_value fun _ _ => trivial)
  | table => exact .inl (wf.table_ensures.mono_value fun _ _ => trivial)
  | runTokens tokens =>
    exact .inl ((wf.runTokens_ensures tokens).mono_value fun _ _ => trivial)
  | parseText text =>
    exact .inr ⟨trivial, (wf.parseText_ensures text).mono_value fun _ _ => trivial⟩
  | accepts text =>
    exact .inr ⟨trivial, (wf.accepts_ensures text).mono_value fun _ _ => trivial⟩

end Query

namespace Grammar

variable (g : Grammar)

/-- Some declared variable is left recursive, be it reached from the start symbol or not. -/
def HasLeftRecursion : Prop :=
  ∃ v ∈ g.nonterminals, g.LeftRecursive v

/-- With the given memory, left recursion is reported by all queries that are exhaustive, and it is
all that can keep the grammar from an answer, besides a collision where one is looked for. -/
structure ReportsLeftRecursion (memo : Memo) : Prop where
  reported : ∀ q : Query g, q.Exhaustive →
    ((∃ v, (q.ask.runFrom memo).1 = .error (.leftRecursion v)) ↔ g.HasLeftRecursion)
  /-- What is reported is left recursive. -/
  named : ∀ q : Query g, q.OfSymbols → q.Unguarded →
    ∀ v, (q.ask.runFrom memo).1 = .error (.leftRecursion v) → g.LeftRecursive v
  answered : ¬g.HasLeftRecursion → ∀ q : Query g, q.OfSymbols → q.Unguarded →
    ¬q.NeedsDeterminism → ∃ answer, (q.ask.runFrom memo).1 = .ok answer
  /-- The questions that leave out where an answer was cut. -/
  symbolCanBeEmpty : ∀ s, g.IsSymbol s →
    ∃ b, ((g.symbolCanBeEmpty s).runFrom memo).1 = .ok b
  sequenceCanBeEmpty : ∀ symbols, (∀ s ∈ symbols, g.IsSymbol s) →
    ∃ b, ((g.sequenceCanBeEmpty symbols).runFrom memo).1 = .ok b
  ruleCanBeEmpty : ∀ r ∈ g.rules, ∃ b, ((g.ruleCanBeEmpty r).runFrom memo).1 = .ok b
  follow : ¬g.HasLeftRecursion → ∀ s, ∃ found, ((g.follow s).runFrom memo).1 = .ok found
  /-- Where a deterministic grammar is asked for, collisions alone can be in the way. -/
  refused : ¬g.HasLeftRecursion → ∀ q : Query g, q.NeedsDeterminism →
    ∀ e, (q.ask.runFrom memo).1 = .error e → ∃ c, e = .collision c
  passed : (g.requireDeterministic.runFrom memo).1 = .ok () → ¬g.HasLeftRecursion

variable {g}

/-- Where left recursion is all that can go wrong, there is an answer without it. -/
theorem not_isLeftRecursion (wf : g.WellFormed) (h : ¬g.HasLeftRecursion) (e : GrammarError) :
    ¬g.IsLeftRecursion e :=
  fun ⟨v, _, hv⟩ => h ⟨v, hv.mem_nonterminals wf, hv⟩

/-- Left recursion anywhere in a grammar is reported by every exhaustive query, whatever was asked
before, and without it all queries are answered but for collisions. -/
theorem reportsLeftRecursion {text : String} (hread : ofText text = .ok g) {memo : Memo}
    (hmemo : g.Reachable memo) : g.ReportsLeftRecursion memo := by
  have wf := wellFormed_ofText hread
  have hexact := hmemo.exact wf
  constructor
  case reported =>
    intro q hq
    have houtcome := (Query.ensures_of_exhaustive wf hq memo hexact).2
    cases hrun : (q.ask.runFrom memo).1 with
    | ok answer =>
      rw [hrun] at houtcome
      exact iff_of_false nofun fun ⟨v, _, hv⟩ => houtcome v hv
    | error e =>
      rw [hrun] at houtcome
      obtain ⟨v, rfl, hv⟩ : g.IsLeftRecursion e := houtcome
      exact iff_of_true ⟨v, rfl⟩ ⟨v, hv.mem_nonterminals wf, hv⟩
  case named =>
    intro q hsymbols hguard v hrun
    have houtcome := (Query.ensures_of_ofSymbols wf hsymbols hguard memo hexact).2
    rw [hrun] at houtcome
    obtain ⟨_, ⟨⟩, hv⟩ | ⟨-, _, ⟨⟩⟩ := houtcome
    exact hv
  case answered =>
    intro hnone q hsymbols hguard hneeds
    obtain ⟨answer, hrun, -⟩ :=
      (Query.ensures_of_ofSymbols wf hsymbols hguard).exists_value hexact fun e he =>
        he.elim (not_isLeftRecursion wf hnone e) fun h => hneeds h.1
    exact ⟨answer, hrun⟩
  case symbolCanBeEmpty =>
    intro s hs
    obtain ⟨b, hrun, -⟩ :=
      (wf.symbolCanBeEmpty_ensures s).exists_value hexact fun _ he => he.2 hs
    exact ⟨b, hrun⟩
  case sequenceCanBeEmpty =>
    intro symbols hsymbols
    obtain ⟨b, hrun, -⟩ := (wf.sequenceCanBeEmpty_ensures symbols).exists_value hexact
      fun _ ⟨s, hs, he⟩ => he.2 (hsymbols s hs)
    exact ⟨b, hrun⟩
  case ruleCanBeEmpty =>
    intro r hr
    obtain ⟨b, hrun, -⟩ := (wf.ruleCanBeEmpty_ensures hr).exists_value hexact fun _ he => he
    exact ⟨b, hrun⟩
  case follow =>
    intro hnone s
    obtain ⟨found, hrun, -⟩ :=
      (wf.follow_ensures s).exists_value hexact (not_isLeftRecursion wf hnone)
    exact ⟨found, hrun⟩
  case refused =>
    intro hnone q hneeds e hrun
    have hplain : q.OfSymbols ∧ q.Unguarded := by
      cases q <;> first | exact ⟨trivial, trivial⟩ | exact hneeds.elim
    have houtcome := (Query.ensures_of_ofSymbols wf hplain.1 hplain.2 memo hexact).2
    rw [hrun] at houtcome
    obtain he | ⟨-, hc⟩ := houtcome
    · exact absurd he (not_isLeftRecursion wf hnone e)
    · exact hc
  case passed =>
    rintro hcheck ⟨v, -, hv⟩
    have hdet := (wf.requireDeterministic_ok_iff hexact).1 hcheck
    exact hdet.not_leftRecursive v hv

/-- The variable that begins with itself behind an erased one is reported after a check that has
failed. -/
theorem reportsLeftRecursion_of_hiddenCycle :
    ofText "S = A S x\nS = y\nA = EMPTY" = .ok hiddenCycle ∧
      hiddenCycle.ReportsLeftRecursion (hiddenCycle.requireDeterministic.runFrom {}).2 ∧
      ∃ v, (hiddenCycle.collisions.runFrom
        (hiddenCycle.requireDeterministic.runFrom {}).2).1 = .error (.leftRecursion v) := by
  have hreports := reportsLeftRecursion ofText_hiddenCycle (.ask .new .requireDeterministic)
  refine ⟨ofText_hiddenCycle, hreports, (hreports.reported .collisions trivial).2 ⟨"S", ?_, ?_⟩⟩
  · decide
  · -- The erased variable stands in front of the start symbol in its own body.
    have herased : hiddenCycle.Derives ["A"] [] :=
      .ofRule (r := ⟨⟨"A", []⟩, "A", 2⟩) (by decide)
    exact .single ⟨⟨⟨"S", ["A", "S", "x"]⟩, "S", 0⟩, by decide, rfl, ["A"], ["x"], rfl, herased⟩

end Grammar

end Predictive
