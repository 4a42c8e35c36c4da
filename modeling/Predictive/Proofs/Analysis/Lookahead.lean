import Predictive.Analysis.Lookahead
import Predictive.Proofs.Analysis.Follow

/-!
# Lookahead sets are exact

The set that is found for a rule holds just the terminals that select it, and all corners of its
body are then grounded (`lookahead_ensures`). The listings of a whole grammar follow.
-/

namespace Predictive.Grammar

open Analysis (Ensures remember)

variable {g : Grammar}

/-- The search for what selects a rule of the grammar, with what it needs to be grounded. -/
theorem WellFormed.lookahead_ensures_grounded (wf : g.WellFormed) {r : Rule} (hr : r ∈ g.rules) :
    Ensures (Memo.Exact g) (g.lookahead r)
      (fun found => g.GroundedRule r ∧ ∀ t, t ∈ found ↔ g.Selects r t)
      (g.UngroundedError (g.GroundedRule r)) := by
  unfold lookahead
  refine (Ensures.lookUp_entry r.index fun memo hmemo => hmemo.lookahead).bind
    fun found hfound => ?_
  cases found with
  | some known => exact .pure (hfound known rfl r hr rfl)
  | none =>
    have hsymbols : ∀ s ∈ r.body, g.IsSymbol s := fun _ hs => wf.isSymbol_of_mem_body hr hs
    refine ((wf.first_of_symbols_ensures hsymbols).mono_error fun e he => ?_).bind
      fun first hfirst => ?_
    · exact ⟨he.1, fun hgrounded => he.2 hgrounded.1⟩
    have hremember : ∀ further : SymbolSet, (g.Derives r.body [] → g.GroundedFollow r.head) →
        (∀ t, t ∈ further ↔ g.Derives r.body [] ∧ g.Follows r.head t) →
        Ensures (Memo.Exact g)
          (do
            remember fun memo =>
              { memo with lookahead := memo.lookahead.insert r.index (first ∪ further) }
            pure (first ∪ further))
          (fun found => g.GroundedRule r ∧ ∀ t, t ∈ found ↔ g.Selects r t)
          (g.UngroundedError (g.GroundedRule r)) := by
      intro further hfollow hfurther
      have hselected : ∀ t, t ∈ first ∪ further ↔ g.Selects r t := by
        intro t
        rw [Std.ExtTreeSet.mem_union_iff, hfirst.2, hfurther, Selects]
      have hgrounded : g.GroundedRule r := ⟨hfirst.1, hfollow⟩
      refine Ensures.remember_bind (fun memo hmemo => ?_) (.pure ⟨hgrounded, hselected⟩)
      exact hmemo.insert_lookahead hr hgrounded hselected
    refine (wf.ruleCanBeEmpty_ensures hr).of_no_error.bind fun canBeEmpty hiff => ?_
    split
    · next hcan =>
      have herased := hiff.1 hcan
      refine ((wf.follow_ensures_grounded r.head).mono_error fun e he => ?_).bind
        fun further hfurther => hremember further (fun _ => hfurther.1) fun t => ?_
      · exact ⟨he.1, fun hgrounded => he.2 (hgrounded.2 herased)⟩
      · rw [hfurther.2 t, and_iff_right herased]
    · next hcan =>
      have hkept : ¬g.Derives r.body [] := fun herased => hcan (hiff.2 herased)
      refine hremember ∅ (fun herased => absurd herased hkept) fun t => ?_
      exact iff_of_false Std.ExtTreeSet.not_mem_empty fun h => hkept h.1

theorem WellFormed.lookahead_ensures (wf : g.WellFormed) {r : Rule} (hr : r ∈ g.rules) :
    Ensures (Memo.Exact g) (g.lookahead r)
      (fun found => g.GroundedForm r.body ∧ ∀ t, t ∈ found ↔ g.Selects r t) g.IsLeftRecursion :=
  (wf.lookahead_ensures_grounded hr).mono (fun _ h => ⟨h.1.1, h.2⟩) fun _ he => he.1

/-! The sets of a whole grammar. -/

theorem WellFormed.allFirst_ensures (wf : g.WellFormed) :
    Ensures (Memo.Exact g) g.allFirst
      (List.Forall₂ (fun v entry => entry.1 = v ∧ g.FirstOf [v] entry.2) g.nonterminals)
      g.IsLeftRecursion := by
  refine Ensures.forEach fun v hv => ?_
  have hsymbols : ∀ s ∈ [v], g.IsSymbol s := fun s hs => .inr (List.mem_singleton.1 hs ▸ hv)
  exact ((wf.first_of_symbols_ensures hsymbols).mono_error fun _ he => he.1).bind
    fun found hfound => .pure ⟨rfl, hfound⟩

theorem WellFormed.allFollow_ensures (wf : g.WellFormed) :
    Ensures (Memo.Exact g) g.allFollow
      (List.Forall₂ (fun v entry => entry.1 = v ∧ ∀ t, t ∈ entry.2 ↔ g.Follows v t) g.nonterminals)
      g.IsLeftRecursion :=
  Ensures.forEach fun v _ => (wf.follow_ensures v).bind fun _ hfound => .pure ⟨rfl, hfound⟩

theorem WellFormed.allLookahead_ensures (wf : g.WellFormed) :
    Ensures (Memo.Exact g) g.allLookahead
      (List.Forall₂ (fun r entry => entry.1 = r ∧ g.GroundedForm r.body ∧
        ∀ t, t ∈ entry.2 ↔ g.Selects r t) g.rules)
      g.IsLeftRecursion :=
  Ensures.forEach fun _ hr => (wf.lookahead_ensures hr).bind fun _ hfound => .pure ⟨rfl, hfound⟩

end Predictive.Grammar
