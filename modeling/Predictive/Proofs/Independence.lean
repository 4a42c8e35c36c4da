import Mathlib
import Predictive.Proofs.Answers
import Predictive.Proofs.Analysis.Steadiness

/-!
# The past of a grammar does not show in its answers

Everything that can be asked without a guard is steady as long as all that is remembered is true
(`Query.steady`), and it always is. So after any queries, guarded or not and whether they ended in
a value or in an error, a grammar answers like a new one: with the same value or the same error
(`Grammar.answersLikeNew`).
-/

namespace Predictive

open Analysis (Steady)

namespace Grammar

variable {g : Grammar}

theorem WellFormed.runTokens_steady (wf : g.WellFormed) (tokens : List Symbol) :
    Steady (Memo.Exact g) (g.runTokens tokens) := by
  unfold runTokens
  refine wf.table_steady.bind_last fun table => ?_
  dsimp only
  split
  · exact .pure rfl
  · exact .throw _

theorem WellFormed.parseText_steady (wf : g.WellFormed) (text : String) :
    Steady (Memo.Exact g) (g.parseText text) :=
  wf.requireDeterministic_steady.bind wf.requireDeterministic_ensures
    fun _ _ => wf.runTokens_steady (Text.words text)

theorem WellFormed.accepts_steady (wf : g.WellFormed) (text : String) :
    Steady (Memo.Exact g) (g.accepts text) :=
  (wf.parseText_steady text).bind_last fun _ => .pure rfl

end Grammar

namespace Query

variable {g : Grammar}

/-- The query carries no guard, or an empty one. -/
def Unguarded : Query g → Prop
  | symbolEmptiness guard _ | sequenceEmptiness guard _ | bodyEmptiness guard _ _ => guard = ∅
  | first guard _ | follow guard _ => guard = ∅
  | _ => True

/-- Without a guard, the outcome of a query does not depend on what is remembered. -/
theorem steady (wf : g.WellFormed) (q : Query g) (hq : q.Unguarded) :
    Steady (Memo.Exact g) q.ask := by
  cases q with
  | symbolEmptiness guard s =>
    obtain rfl : guard = ∅ := hq
    exact wf.symbolEmptiness_steady s
  | sequenceEmptiness guard symbols =>
    obtain rfl : guard = ∅ := hq
    exact wf.sequenceEmptiness_steady symbols
  | bodyEmptiness guard r declared =>
    obtain rfl : guard = ∅ := hq
    exact wf.bodyEmptiness_steady declared
  | first guard symbols =>
    obtain rfl : guard = ∅ := hq
    exact wf.first_steady symbols
  | occurrences s => exact Grammar.occurrences_steady s
  | follow guard s =>
    obtain rfl : guard = ∅ := hq
    exact wf.guardedFollow_steady s
  | lookahead r declared => exact wf.lookahead_steady declared
  | allFirst => exact wf.allFirst_steady
  | allFollow => exact wf.allFollow_steady
  | allLookahead => exact wf.allLookahead_steady
  | collisions => exact wf.collisions_steady
  | requireDeterministic => exact wf.requireDeterministic_steady
  | isDeterministic => exact wf.isDeterministic_steady
  | buildTable => exact wf.buildTable_steady
  | table => exact wf.table_steady
  | runTokens tokens => exact wf.runTokens_steady tokens
  | parseText text => exact wf.parseText_steady text
  | accepts text => exact wf.accepts_steady text

end Query

namespace Grammar

variable (g : Grammar)

/-- With the given memory, every question without a guard has the outcome that it has on a new
grammar: the same value or the same error. -/
structure AnswersLikeNew (memo : Memo) : Prop where
  query : ∀ q : Query g, q.Unguarded → (q.ask.runFrom memo).1 = (q.ask.runFrom {}).1
  /-- The questions that leave out where an answer was cut. -/
  symbolCanBeEmpty : ∀ s,
    ((g.symbolCanBeEmpty s).runFrom memo).1 = ((g.symbolCanBeEmpty s).runFrom {}).1
  sequenceCanBeEmpty : ∀ symbols,
    ((g.sequenceCanBeEmpty symbols).runFrom memo).1 =
      ((g.sequenceCanBeEmpty symbols).runFrom {}).1
  ruleCanBeEmpty : ∀ r ∈ g.rules,
    ((g.ruleCanBeEmpty r).runFrom memo).1 = ((g.ruleCanBeEmpty r).runFrom {}).1
  follow : ∀ s, ((g.follow s).runFrom memo).1 = ((g.follow s).runFrom {}).1

variable {g}

/-- Whatever was asked of a grammar before, and whether it ended in a value or in an error, it
answers like a new one. -/
theorem answersLikeNew {text : String} (hread : ofText text = .ok g) {memo : Memo}
    (hmemo : g.Reachable memo) : g.AnswersLikeNew memo := by
  have wf := wellFormed_ofText hread
  have hexact := hmemo.exact wf
  have hnew : Memo.Exact g {} := Memo.exact_empty
  constructor
  · exact fun q hq => (q.steady wf hq).outcome_eq hexact hnew
  · exact fun s => (wf.symbolCanBeEmpty_steady s).outcome_eq hexact hnew
  · exact fun symbols => (wf.sequenceCanBeEmpty_steady symbols).outcome_eq hexact hnew
  · exact fun r hr => (wf.ruleCanBeEmpty_steady hr).outcome_eq hexact hnew
  · exact fun s => (wf.follow_steady s).outcome_eq hexact hnew

/-- An answer that was cut at a guarded variable, and then a check that failed: with all that is
remembered after both, the grammar answers like a new one. -/
theorem answersLikeNew_of_hiddenCycle :
    ofText "S = A S x\nS = y\nA = EMPTY" = .ok hiddenCycle ∧
      ((hiddenCycle.symbolEmptiness {"A"} "S").runFrom {}).1.map
        (fun answer => (answer.value, answer.cuts.toList)) = .ok (false, ["A"]) ∧
      (hiddenCycle.requireDeterministic.runFrom
        ((hiddenCycle.symbolEmptiness {"A"} "S").runFrom {}).2).1 = .error (.leftRecursion "S") ∧
      hiddenCycle.AnswersLikeNew (hiddenCycle.requireDeterministic.runFrom
        ((hiddenCycle.symbolEmptiness {"A"} "S").runFrom {}).2).2 := by
  have hcut : ((hiddenCycle.symbolEmptiness {"A"} "S").runFrom {}).1.map
      (fun answer => (answer.value, answer.cuts.toList)) = .ok (false, ["A"]) := by
    cbv
  have hfails : (hiddenCycle.requireDeterministic.runFrom
      ((hiddenCycle.symbolEmptiness {"A"} "S").runFrom {}).2).1 = .error (.leftRecursion "S") := by
    cbv
  have hmemo : hiddenCycle.Reachable (hiddenCycle.requireDeterministic.runFrom
      ((hiddenCycle.symbolEmptiness {"A"} "S").runFrom {}).2).2 :=
    .ask (.ask .new (.symbolEmptiness {"A"} "S")) .requireDeterministic
  exact ⟨ofText_hiddenCycle, hcut, hfails, answersLikeNew ofText_hiddenCycle hmemo⟩

end Grammar

end Predictive
