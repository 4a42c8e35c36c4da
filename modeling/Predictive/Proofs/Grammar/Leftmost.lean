import Predictive.Proofs.Grammar.Forms

/-!
# Leftmost derivations

A leftmost derivation expands the first variable of a form each time. `LeftmostBy` keeps the rules
that it expands by. The first variable of a form is settled, so two leftmost derivations of one form
without variables differ only in the rules that they choose (`LeftmostBy.exists_step`). A form
without variables that is derived at all has a leftmost derivation
(`derives_iff_exists_leftmostBy`).
-/

namespace Predictive.Grammar

variable (g : Grammar)

/-- A form becomes another when its first variable is expanded by the given rules, one after the
other. -/
inductive LeftmostBy : List Rule → List Symbol → List Symbol → Prop where
  | refl (form : List Symbol) : LeftmostBy [] form form
  | step {r : Rule} {rules : List Rule} {last : List Symbol} (declared : r ∈ g.rules)
      {before : List Symbol} (leftmost : ∀ s ∈ before, s ∉ g.nonterminals) (after : List Symbol)
      (derives : LeftmostBy rules (before ++ r.body ++ after) last) :
      LeftmostBy (r :: rules) (before ++ r.head :: after) last

variable {g}

theorem LeftmostBy.derivesBy {rules : List Rule} {first last : List Symbol}
    (h : g.LeftmostBy rules first last) : g.DerivesBy rules first last := by
  induction h with
  | refl form => exact .refl form
  | step declared _ after _ ih => exact .step declared _ after ih

/-- A leftmost derivation may go on behind a symbol that is no variable. -/
theorem LeftmostBy.cons {rules : List Rule} {first last : List Symbol}
    (h : g.LeftmostBy rules first last) {s : Symbol} (hs : s ∉ g.nonterminals) :
    g.LeftmostBy rules (s :: first) (s :: last) := by
  induction h with
  | refl form => exact .refl _
  | @step r _ _ declared before leftmost after _ ih =>
    have hleftmost : ∀ t ∈ s :: before, t ∉ g.nonterminals :=
      List.forall_mem_cons.2 ⟨hs, leftmost⟩
    exact .step declared hleftmost after ih

/-- A form has one first variable. -/
theorem eq_of_first_variable {before before' after after' : List Symbol} {v v' : Symbol}
    (h : before ++ v :: after = before' ++ v' :: after')
    (hbefore : ∀ s ∈ before, s ∉ g.nonterminals) (hbefore' : ∀ s ∈ before', s ∉ g.nonterminals)
    (hv : v ∈ g.nonterminals) (hv' : v' ∈ g.nonterminals) :
    before = before' ∧ v = v' ∧ after = after' := by
  rcases append_eq_append_cons_iff.1 h with ⟨gap, rfl, -⟩ | ⟨gap, rfl, hgap⟩
  · exact absurd hv' (hbefore v' (by simp))
  · cases gap with
    | nil =>
      obtain ⟨rfl, rfl⟩ := List.cons_eq_cons.1 hgap
      exact ⟨(List.append_nil before).symm, rfl, rfl⟩
    | cons s gap =>
      obtain ⟨rfl, -⟩ := List.cons_eq_cons.1 hgap
      exact absurd hv (hbefore' v (by simp))

/-- Nothing is expanded in a form without variables. -/
theorem LeftmostBy.eq_nil (wf : g.WellFormed) {rules : List Rule} {form last : List Symbol}
    (h : g.LeftmostBy rules form last) (hform : ∀ s ∈ form, s ∉ g.nonterminals) : rules = [] := by
  cases h with
  | refl => rfl
  | @step r _ _ declared before _ after _ =>
    exact absurd (wf.head_mem declared) (hform r.head (by simp))

/-- On its way to a form without variables, a leftmost derivation expands the first variable. -/
theorem LeftmostBy.exists_step (wf : g.WellFormed) {rules : List Rule}
    {before after last : List Symbol} {v : Symbol}
    (h : g.LeftmostBy rules (before ++ v :: after) last) (hv : v ∈ g.nonterminals)
    (hbefore : ∀ s ∈ before, s ∉ g.nonterminals) (hlast : ∀ s ∈ last, s ∉ g.nonterminals) :
    ∃ r ∈ g.rules, r.head = v ∧ ∃ later, rules = r :: later ∧
      g.LeftmostBy later (before ++ r.body ++ after) last := by
  generalize hform : before ++ v :: after = form at h
  cases h with
  | refl =>
    subst hform
    exact absurd hv (hlast v (by simp))
  | step declared leftmost after' derives =>
    obtain ⟨rfl, rfl, rfl⟩ :=
      eq_of_first_variable hform hbefore leftmost hv (wf.head_mem declared)
    exact ⟨_, declared, rfl, _, rfl, derives⟩

/-- Symbols in front that are no variables stay as they are. -/
theorem WellFormed.exists_rest_of_derives (wf : g.WellFormed) {before form last : List Symbol}
    (hbefore : ∀ s ∈ before, s ∉ g.nonterminals) (h : g.Derives (before ++ form) last) :
    ∃ rest, last = before ++ rest ∧ g.Derives form rest := by
  obtain ⟨front, rest, rfl, hfront, hrest⟩ := h.split
  obtain rfl := hfront.eq_of_no_head fun s hs r hr hhead =>
    hbefore s hs (hhead ▸ wf.head_mem hr)
  exact ⟨rest, rfl, hrest⟩

/-! Every derivation of a form without variables can be made leftmost. -/

/-- A rewriting anywhere in a form can be put off until its variable is the first one. -/
theorem LeftmostBy.exists_of_rewrites {rules : List Rule} {first second last : List Symbol}
    (h : g.LeftmostBy rules second last) (hlast : ∀ s ∈ last, s ∉ g.nonterminals)
    (rewrites : g.Rewrites first second) : ∃ rules', g.LeftmostBy rules' first last := by
  obtain @⟨r, declared, before, after⟩ := rewrites
  generalize hsecond : before ++ r.body ++ after = second at h
  induction h generalizing before with
  | refl =>
    subst hsecond
    have hbefore : ∀ s ∈ before, s ∉ g.nonterminals := fun s hs => hlast s (by simp [hs])
    exact ⟨[r], .step declared hbefore after (.refl _)⟩
  | @step q rules last qdeclared front leftmost behind derives ih =>
    have hfirst : before ++ (r.body ++ after) = front ++ q.head :: behind := by
      rw [← hsecond, List.append_assoc]
    rcases append_eq_append_cons_iff.1 hfirst with ⟨gap, rfl, rfl⟩ | ⟨gap, rfl, -⟩
    · -- The first variable stands before the place of the rewriting.
      obtain ⟨rules', hrules'⟩ := ih hlast (front ++ q.body ++ gap) (by simp)
      have hnext : g.LeftmostBy rules' (front ++ q.body ++ (gap ++ r.head :: after)) last := by
        simpa using hrules'
      exact ⟨q :: rules', by simpa using LeftmostBy.step qdeclared leftmost _ hnext⟩
    · have hbefore : ∀ s ∈ before, s ∉ g.nonterminals := fun s hs => leftmost s (by simp [hs])
      have hsame : g.LeftmostBy (q :: rules) (before ++ r.body ++ after) last := by
        rw [hsecond]
        exact .step qdeclared leftmost behind derives
      exact ⟨r :: q :: rules, .step declared hbefore after hsame⟩

/-- A form without variables is derived just when there is a leftmost derivation of it. -/
theorem derives_iff_exists_leftmostBy {first last : List Symbol}
    (hlast : ∀ s ∈ last, s ∉ g.nonterminals) :
    g.Derives first last ↔ ∃ rules, g.LeftmostBy rules first last := by
  constructor
  · intro h
    induction h with
    | refl form => exact ⟨[], .refl form⟩
    | step rewrites _ ih =>
      obtain ⟨rules, hrules⟩ := ih hlast
      exact hrules.exists_of_rewrites hlast rewrites
  · rintro ⟨rules, h⟩
    exact h.derivesBy.derives

end Predictive.Grammar
