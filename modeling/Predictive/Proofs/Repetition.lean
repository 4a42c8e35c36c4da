import Mathlib
import Predictive.Proofs.Independence
import Predictive.Proofs.Analysis.Lasting

/-!
# Asking again

Everything that can be asked without a guard lasts (`Query.lasting`), and every query, guarded or
not, keeps all that is remembered true and misses nothing ahead of it (`Query.leaves`). So after
any queries, an answer that a grammar gives is given again at once, and nothing new is remembered
for it (`Grammar.answersAgain`).
-/

namespace Predictive

open Analysis (Leaves Lasting)

namespace Grammar

variable {g : Grammar}

theorem WellFormed.runTokens_lasting (wf : g.WellFormed) (tokens : List Symbol) :
    Lasting g (g.runTokens tokens) := by
  unfold runTokens
  refine wf.table_lasting.bind fun table => ?_
  dsimp only
  split
  · exact .pure _
  · exact .throw _

theorem WellFormed.parseText_lasting (wf : g.WellFormed) (text : String) :
    Lasting g (g.parseText text) :=
  wf.requireDeterministic_lasting.bind fun _ => wf.runTokens_lasting (Text.words text)

theorem WellFormed.accepts_lasting (wf : g.WellFormed) (text : String) :
    Lasting g (g.accepts text) :=
  (wf.parseText_lasting text).bind fun _ => .pure _

end Grammar

namespace Query

variable {g : Grammar}

/-- Without a guard, the answer to a query needs no further search. -/
theorem lasting (wf : g.WellFormed) (q : Query g) (hq : q.Unguarded) : Lasting g q.ask := by
  cases q with
  | symbolEmptiness guard s =>
    obtain rfl : guard = ∅ := hq
    exact wf.symbolEmptiness_lasting s
  | sequenceEmptiness guard symbols =>
    obtain rfl : guard = ∅ := hq
    exact wf.sequenceEmptiness_lasting symbols
  | bodyEmptiness guard r declared =>
    obtain rfl : guard = ∅ := hq
    exact wf.bodyEmptiness_lasting declared
  | first guard symbols =>
    obtain rfl : guard = ∅ := hq
    exact wf.first_lasting symbols
  | occurrences s => exact Grammar.occurrences_lasting s
  | follow guard s =>
    obtain rfl : guard = ∅ := hq
    exact wf.guardedFollow_lasting s
  | lookahead r declared => exact wf.lookahead_lasting declared
  | allFirst => exact wf.allFirst_lasting
  | allFollow => exact wf.allFollow_lasting
  | allLookahead => exact wf.allLookahead_lasting
  | collisions => exact wf.collisions_lasting
  | requireDeterministic => exact wf.requireDeterministic_lasting
  | isDeterministic => exact wf.isDeterministic_lasting
  | buildTable => exact wf.buildTable_lasting
  | table => exact wf.table_lasting
  | runTokens tokens => exact wf.runTokens_lasting tokens
  | parseText text => exact wf.parseText_lasting text
  | accepts text => exact wf.accepts_lasting text

/-- Whatever the guard, a query forgets nothing, and nothing is missing ahead of what is
remembered. -/
theorem leaves (wf : g.WellFormed) (q : Query g) :
    Leaves (Memo.Thorough g) q.ask fun _ memo => memo.Thorough g := by
  by_cases hq : q.Unguarded
  · exact (q.lasting wf hq).leaves
  cases q with
  | symbolEmptiness guard s =>
    refine (Leaves.of_robust (wf.symbolEmptiness_ensures guard s) ?_).mono fun _ _ h => h.1
    exact fun _ hinv => Grammar.symbolEmptiness_keeps hinv guard s
  | sequenceEmptiness guard symbols =>
    refine (Leaves.of_robust (wf.sequenceEmptiness_ensures guard symbols) ?_).mono fun _ _ h => h.1
    exact fun _ hinv => Grammar.sequenceEmptiness_keeps hinv guard symbols
  | bodyEmptiness guard r declared =>
    refine (Leaves.of_robust (wf.bodyEmptiness_ensures guard declared) ?_).mono fun _ _ h => h.1
    exact fun _ hinv => Grammar.bodyEmptiness_keeps hinv guard r
  | first guard symbols =>
    refine (Leaves.of_robust (wf.guardedFirst_ensures guard symbols) ?_).mono fun _ _ h => h.1
    exact fun _ hinv => Grammar.guardedFirst_keeps hinv guard symbols
  | follow guard s => exact (wf.guardedFollow_leaves guard s).mono fun _ _ h => h.1
  | _ => exact absurd trivial hq

end Query

/-- Whatever was asked of a well-formed grammar, what it remembers is true, and nothing is missing
ahead of it. -/
theorem Grammar.Reachable.thorough {g : Grammar} (wf : g.WellFormed) {memo : Memo}
    (h : g.Reachable memo) : memo.Thorough g := by
  induction h with
  | new => exact Memo.thorough_empty
  | ask _ q ih => exact (q.leaves wf _ ih).2

/-- A value that the analysis ends in, it ends in again, and all that is remembered stays as it
is. -/
def Analysis.AnswersTwice {α : Type} (x : Analysis α) (memo : Memo) : Prop :=
  ∀ a after, x.runFrom memo = (.ok a, after) → x.runFrom after = (.ok a, after)

theorem Analysis.Lasting.answersTwice {α : Type} {g : Grammar} {x : Analysis α}
    (h : Lasting g x) {memo : Memo} (hmemo : memo.Thorough g) : x.AnswersTwice memo := by
  intro a after hrun
  obtain ⟨-, hafter, hrepeats⟩ := h memo hmemo
  rw [hrun] at hafter hrepeats
  exact hrepeats trivial after hafter (.refl after)

namespace Grammar

variable (g : Grammar)

/-- With the given memory, every question without a guard that is answered with a value is answered
with it again when it is repeated at once, and then nothing new is remembered. -/
structure AnswersAgain (memo : Memo) : Prop where
  query : ∀ q : Query g, q.Unguarded → q.ask.AnswersTwice memo
  /-- The questions that leave out where an answer was cut. -/
  symbolCanBeEmpty : ∀ s, (g.symbolCanBeEmpty s).AnswersTwice memo
  sequenceCanBeEmpty : ∀ symbols, (g.sequenceCanBeEmpty symbols).AnswersTwice memo
  ruleCanBeEmpty : ∀ r ∈ g.rules, (g.ruleCanBeEmpty r).AnswersTwice memo
  follow : ∀ s, (g.follow s).AnswersTwice memo

variable {g}

/-- Whatever was asked of a grammar before, it has an answer ready once it has given it. -/
theorem answersAgain {text : String} (hread : ofText text = .ok g) {memo : Memo}
    (hmemo : g.Reachable memo) : g.AnswersAgain memo := by
  have wf := wellFormed_ofText hread
  have hthorough := hmemo.thorough wf
  constructor
  · exact fun q hq => (q.lasting wf hq).answersTwice hthorough
  · exact fun s => (wf.symbolCanBeEmpty_lasting s).answersTwice hthorough
  · exact fun symbols => (wf.sequenceCanBeEmpty_lasting symbols).answersTwice hthorough
  · exact fun r hr => (wf.ruleCanBeEmpty_lasting hr).answersTwice hthorough
  · exact fun s => (wf.follow_lasting s).answersTwice hthorough

/-- What one half of a cycle is followed by is found after an answer that was cut there, and then
found again. -/
theorem answersAgain_of_mutualCycle :
    ofText "S = A x\nA = a B\nA = EMPTY\nB = A" = .ok mutualCycle ∧
      ∃ memo found after, mutualCycle.AnswersAgain memo ∧
        memo = ((mutualCycle.guardedFollow {"A"} "B").runFrom {}).2 ∧
        (mutualCycle.follow "A").runFrom memo = (.ok found, after) ∧
        (mutualCycle.follow "A").runFrom after = (.ok found, after) := by
  have hmemo : mutualCycle.Reachable ((mutualCycle.guardedFollow {"A"} "B").runFrom {}).2 :=
    .ask .new (.follow {"A"} "B")
  have wf := wellFormed_ofText ofText_mutualCycle
  have hcheck : (mutualCycle.requireDeterministic.runFrom {}).1 = .ok () := by cbv
  have hdet := wf.requireDeterministic_ensures.value_of_run Memo.exact_empty hcheck
  obtain ⟨found, hfound, -⟩ :=
    (wf.follow_ensures "A").exists_value (hmemo.exact wf) hdet.not_isLeftRecursion
  have hagain := answersAgain ofText_mutualCycle hmemo
  refine ⟨ofText_mutualCycle, _, found, _, hagain, rfl, Prod.ext hfound rfl, ?_⟩
  exact hagain.follow "A" _ _ (Prod.ext hfound rfl)

end Grammar

end Predictive
