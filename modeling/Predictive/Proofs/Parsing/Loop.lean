import Predictive.Proofs.Parsing.Termination

/-!
# The loop of the parser

`Parser.runFrom` counts expansions and gives up when the allowance is used up. The loop itself knows
no allowance: `Parser.Next` is an iteration after which it goes on, and `Parser.Finishes` says in
which result it ends. What `runFrom` gives is the result of the loop (`finishes_of_runFrom`). With
the exact table of a grammar without left recursion an iteration reads a token or lessens the effort
of the stack (`Parser.Exact.lt_of_next`), so the loop goes on for ever from no configuration
(`Parser.Exact.wellFounded_next`).
-/

namespace Predictive

open Relation (ReflTransGen)

/-- The configuration before anything is read. -/
def Config.initial (start : Symbol) (tokens : List Symbol) : Config where
  consumed := 0
  stack := [start]
  rest := tokens

namespace Parser

variable (p : Parser)

/-- An iteration of the loop that does not end it. -/
inductive Next : Config → Config → Prop where
  | readToken {c : Config} (hmove : p.move c = .readToken) : Next c c.afterMatch
  | expand {c : Config} {r : Rule} (hmove : p.move c = .expand r) : Next c (c.afterExpansion r)

/-- The loop ends in the result, with its steps numbered from the given number on. -/
inductive Finishes : Nat → Config → ParseOutcome → Prop where
  | accept (number : Nat) {c : Config} (hmove : p.move c = .accept) :
      Finishes number c (c.accepted number)
  | refuse (number : Nat) {c : Config} {failure : Failure} (hmove : p.move c = .refuse failure) :
      Finishes number c (c.refused number failure)
  | readToken {number : Nat} {c : Config} {result : ParseOutcome} (hmove : p.move c = .readToken)
      (later : Finishes (number + 1) c.afterMatch result) :
      Finishes number c (result.after (c.step number .matched none))
  | expand {number : Nat} {c : Config} {r : Rule} {result : ParseOutcome}
      (hmove : p.move c = .expand r) (later : Finishes (number + 1) (c.afterExpansion r) result) :
      Finishes number c (result.after (c.step number .expanded (some r)))

variable {p}

/-- A run that is not given up has the result of the loop. -/
theorem finishes_of_runFrom {number allowed : Nat} {c : Config} {result : ParseOutcome}
    (hrun : p.runFrom number allowed c = some result) : p.Finishes number c result := by
  induction number, allowed, c using runFrom.induct p generalizing result with
  | case1 number allowed c hmove =>
    rw [runFrom_of_accept hmove] at hrun
    obtain rfl := Option.some.inj hrun
    exact .accept number hmove
  | case2 number allowed c failure hmove =>
    rw [runFrom_of_refuse hmove] at hrun
    obtain rfl := Option.some.inj hrun
    exact .refuse number hmove
  | case3 number allowed c hmove ih =>
    rw [runFrom_of_readToken hmove] at hrun
    obtain ⟨later, hlater, rfl⟩ := Option.map_eq_some_iff.1 hrun
    exact .readToken hmove (ih hlater)
  | case4 number c r hmove =>
    rw [runFrom_of_expand_zero hmove] at hrun
    cases hrun
  | case5 number c r hmove left ih =>
    rw [runFrom_of_expand_succ hmove] at hrun
    obtain ⟨later, hlater, rfl⟩ := Option.map_eq_some_iff.1 hrun
    exact .expand hmove (ih hlater)

/-- The loop comes to a configuration where the input is accepted or refused, and the verdict is the
one of that configuration. -/
theorem Finishes.exists_last {number : Nat} {c : Config} {result : ParseOutcome}
    (h : p.Finishes number c result) :
    ∃ last, ReflTransGen p.Next c last ∧
      ((p.move last = .accept ∧ result.success = true) ∨
        ∃ failure, p.move last = .refuse failure ∧ result.success = false ∧
          result.errorPosition = last.consumed) := by
  induction h with
  | @accept number c hmove => exact ⟨c, .refl, .inl ⟨hmove, rfl⟩⟩
  | @refuse number c failure hmove => exact ⟨c, .refl, .inr ⟨failure, hmove, rfl, rfl⟩⟩
  | readToken hmove _ ih =>
    obtain ⟨last, hsteps, hlast⟩ := ih
    exact ⟨last, .head (.readToken hmove) hsteps, hlast⟩
  | expand hmove _ ih =>
    obtain ⟨last, hsteps, hlast⟩ := ih
    exact ⟨last, .head (.expand hmove) hsteps, hlast⟩

/-! The loop ends. -/

variable {g : Grammar}

/-- An iteration reads a token or, if it is an expansion, lessens the effort of the stack. -/
theorem Exact.lt_of_next (h : p.Exact g) (wf : g.WellFormed)
    (hgrounded : ∀ r ∈ g.rules, g.GroundedForm r.body) {c d : Config} (hnext : p.Next c d) :
    Prod.Lex (· < ·) (· < ·) (d.rest.length, g.effort (p.longestBody + 1) d.stack)
      (c.rest.length, g.effort (p.longestBody + 1) c.stack) := by
  cases hnext with
  | readToken hmove =>
    have hpos := List.length_pos_iff.2 (rest_ne_nil_of_move_eq_readToken hmove)
    refine .left _ _ ?_
    rw [Config.afterMatch, List.length_tail]
    omega
  | expand hmove => exact .right _ (h.effort_afterExpansion_lt wf hgrounded hmove)

/-- There is no configuration from which the loop goes on for ever. -/
theorem Exact.wellFounded_next (h : p.Exact g) (wf : g.WellFormed)
    (hgrounded : ∀ r ∈ g.rules, g.GroundedForm r.body) : WellFounded fun d c => p.Next c d := by
  have hlex : WellFounded (Prod.Lex (· < · : Nat → Nat → Prop) (· < · : Nat → Nat → Prop)) :=
    WellFounded.prod_lex Nat.lt_wfRel.wf Nat.lt_wfRel.wf
  refine Subrelation.wf ?_ (InvImage.wf
    (fun c : Config => (c.rest.length, g.effort (p.longestBody + 1) c.stack)) hlex)
  exact fun hnext => h.lt_of_next wf hgrounded hnext

/-- The run from the start symbol is not given up. -/
theorem Exact.exists_run (h : p.Exact g) (wf : g.WellFormed)
    (hgrounded : ∀ r ∈ g.rules, g.GroundedForm r.body) (tokens : List Symbol) :
    ∃ result, p.run g.start tokens = some result ∧
      p.Finishes 1 (.initial g.start tokens) result := by
  obtain ⟨result, hrun⟩ := h.exists_result wf hgrounded 1 (p.allowance [g.start])
    (.initial g.start tokens) (h.effort_le_allowance _)
  exact ⟨result, hrun, finishes_of_runFrom hrun⟩

end Parser

end Predictive
