import Predictive.Grammar.Derivation
import Predictive.Proofs.Grammar.WellFormed

/-!
# Derivations of forms

A derivation of one form after another is a derivation of each (`Derives.split`), so a derivation
may be followed symbol by symbol. `DerivesBy` keeps the rules that a derivation expands by; what
can be said of all derivations of a form is said of their lists of rules.
-/

namespace Predictive.Grammar

variable {g : Grammar}

/-- An element of one list after another stands in the first or in the second. -/
theorem append_eq_append_cons_iff {α : Type} {xs ys before after : List α} {s : α} :
    xs ++ ys = before ++ s :: after ↔
      (∃ gap, xs = before ++ s :: gap ∧ after = gap ++ ys) ∨
        ∃ gap, before = xs ++ gap ∧ ys = gap ++ s :: after := by
  constructor
  · intro h
    rcases List.append_eq_append_iff.1 h with ⟨gap, rfl, rfl⟩ | ⟨gap, rfl, hgap⟩
    · exact .inr ⟨gap, rfl, rfl⟩
    · cases gap with
      | nil => exact .inr ⟨[], by simp, hgap.symm⟩
      | cons _ gap =>
        obtain ⟨rfl, rfl⟩ := List.cons_eq_cons.1 hgap
        exact .inl ⟨gap, rfl, rfl⟩
  · rintro (⟨gap, rfl, rfl⟩ | ⟨gap, rfl, rfl⟩) <;> simp

/-- A rewriting inside one form after another takes place in one of them. -/
theorem Rewrites.split {first second form : List Symbol} (h : g.Rewrites (first ++ second) form) :
    (∃ first', form = first' ++ second ∧ g.Rewrites first first') ∨
      ∃ second', form = first ++ second' ∧ g.Rewrites second second' := by
  generalize hjoined : first ++ second = joined at h
  obtain ⟨declared, before, after⟩ := h
  rcases append_eq_append_cons_iff.1 hjoined with ⟨gap, rfl, rfl⟩ | ⟨gap, rfl, rfl⟩
  · exact .inl ⟨_, by simp, Rewrites.byRule declared before gap⟩
  · exact .inr ⟨_, by simp, Rewrites.byRule declared gap after⟩

/-- One form after another derives what the two derive side by side. -/
theorem Derives.split {first second form : List Symbol} (h : g.Derives (first ++ second) form) :
    ∃ first' second', form = first' ++ second' ∧ g.Derives first first' ∧
      g.Derives second second' := by
  generalize hjoined : first ++ second = joined at h
  induction h generalizing first second with
  | refl => exact ⟨first, second, hjoined.symm, .refl _, .refl _⟩
  | step rewrites _ ih =>
    subst hjoined
    rcases rewrites.split with ⟨first', rfl, hfirst⟩ | ⟨second', rfl, hsecond⟩
    · obtain ⟨u, v, rfl, hu, hv⟩ := ih rfl
      exact ⟨u, v, rfl, .step hfirst hu, hv⟩
    · obtain ⟨u, v, rfl, hu, hv⟩ := ih rfl
      exact ⟨u, v, rfl, hu, .step hsecond hv⟩

theorem derives_append_iff {first second form : List Symbol} :
    g.Derives (first ++ second) form ↔ ∃ first' second', form = first' ++ second' ∧
      g.Derives first first' ∧ g.Derives second second' := by
  refine ⟨Derives.split, ?_⟩
  rintro ⟨first', second', rfl, hfirst, hsecond⟩
  exact hfirst.append hsecond

theorem derives_append_nil_iff {first second : List Symbol} :
    g.Derives (first ++ second) [] ↔ g.Derives first [] ∧ g.Derives second [] := by
  rw [derives_append_iff]
  constructor
  · rintro ⟨first', second', hnil, hfirst, hsecond⟩
    obtain ⟨rfl, rfl⟩ := List.nil_eq_append_iff.1 hnil
    exact ⟨hfirst, hsecond⟩
  · rintro ⟨hfirst, hsecond⟩
    exact ⟨[], [], rfl, hfirst, hsecond⟩

theorem derives_cons_nil_iff {s : Symbol} {rest : List Symbol} :
    g.Derives (s :: rest) [] ↔ g.Derives [s] [] ∧ g.Derives rest [] :=
  @derives_append_nil_iff g [s] rest

/-- A form without heads derives itself alone. -/
theorem Derives.eq_of_no_head {form last : List Symbol} (h : g.Derives form last)
    (hform : ∀ s ∈ form, ∀ r ∈ g.rules, r.head ≠ s) : last = form := by
  cases h with
  | refl => rfl
  | step rewrites _ =>
    obtain ⟨declared, before, after⟩ := rewrites
    exact absurd rfl (hform _ (by simp) _ declared)

/-- The empty form derives itself alone. -/
theorem Derives.eq_nil {last : List Symbol} (h : g.Derives [] last) : last = [] :=
  h.eq_of_no_head (by simp)

/-- A single symbol stays or is expanded by one of its rules first. -/
theorem derives_singleton_iff {s : Symbol} {last : List Symbol} :
    g.Derives [s] last ↔ last = [s] ∨ ∃ r ∈ g.rules, r.head = s ∧ g.Derives r.body last := by
  constructor
  · intro h
    generalize hform : [s] = form at h
    cases h with
    | refl => exact .inl rfl
    | step rewrites derives =>
      obtain ⟨declared, before, after⟩ := rewrites
      cases before with
      | nil =>
        obtain ⟨rfl, rfl⟩ := List.cons_eq_cons.1 hform
        exact .inr ⟨_, declared, rfl, by simpa using derives⟩
      | cons t before => simp at hform
  · rintro (rfl | ⟨r, hr, rfl, h⟩)
    · exact .refl _
    · exact (Derives.ofRule hr).trans h

/-- A variable derives the empty string by way of one of its rules. -/
theorem derives_singleton_nil_iff {s : Symbol} :
    g.Derives [s] [] ↔ ∃ r ∈ g.rules, r.head = s ∧ g.Derives r.body [] := by
  rw [derives_singleton_iff]
  simp

/-- A derivation goes one rewriting further. -/
theorem Derives.tail {first second last : List Symbol} (h : g.Derives first second)
    (rewrites : g.Rewrites second last) : g.Derives first last :=
  h.trans (.step rewrites (.refl _))

/-- A derivation that goes on at its end: induction by the last rewriting. -/
theorem Derives.induction_last {first : List Symbol}
    {motive : ∀ last, g.Derives first last → Prop} (refl : motive first (.refl first))
    (tail : ∀ second last (h : g.Derives first second) (rewrites : g.Rewrites second last),
      motive second h → motive last (h.tail rewrites))
    {last : List Symbol} (h : g.Derives first last) : motive last h := by
  suffices hgo : ∀ {form last}, g.Derives form last → ∀ hform : g.Derives first form,
      motive form hform → ∀ hlast : g.Derives first last, motive last hlast from
    hgo h (.refl _) refl h
  intro form last hlast
  induction hlast with
  | refl => exact fun _ hmotive _ => hmotive
  | step rewrites _ ih =>
    intro hform hmotive
    exact ih (hform.tail rewrites) (tail _ _ hform rewrites hmotive)

namespace WellFormed

/-- Rewriting leaves symbols of the grammar only. -/
theorem isSymbol_of_rewrites (wf : g.WellFormed) {first second : List Symbol}
    (h : g.Rewrites first second) (hfirst : ∀ s ∈ first, g.IsSymbol s) :
    ∀ s ∈ second, g.IsSymbol s := by
  obtain ⟨declared, before, after⟩ := h
  intro s hs
  simp only [List.mem_append] at hs
  rcases hs with (hs | hs) | hs
  · exact hfirst s (by simp [hs])
  · exact wf.isSymbol_of_mem_body declared hs
  · exact hfirst s (by simp [hs])

/-- Symbols of the grammar derive symbols of the grammar. -/
theorem isSymbol_of_derives (wf : g.WellFormed) {first last : List Symbol}
    (h : g.Derives first last) (hfirst : ∀ s ∈ first, g.IsSymbol s) :
    ∀ s ∈ last, g.IsSymbol s := by
  induction h with
  | refl => exact hfirst
  | step rewrites _ ih => exact ih (wf.isSymbol_of_rewrites rewrites hfirst)

/-- A terminal derives itself alone. -/
theorem eq_of_derives_terminal (wf : g.WellFormed) {s : Symbol} (hs : g.isTerminal s)
    {last : List Symbol} (h : g.Derives [s] last) : last = [s] := by
  refine h.eq_of_no_head fun t ht r hr => ?_
  obtain rfl := List.mem_singleton.1 ht
  exact wf.head_ne_of_isTerminal hr hs

theorem not_derives_terminal_nil (wf : g.WellFormed) {s : Symbol} (hs : g.isTerminal s) :
    ¬g.Derives [s] [] :=
  fun h => by cases wf.eq_of_derives_terminal hs h

end WellFormed

/-! Derivations with their rules. -/

variable (g) in
/-- A form becomes another when it is rewritten by the given rules, one after the other. -/
inductive DerivesBy : List Rule → List Symbol → List Symbol → Prop where
  | refl (form : List Symbol) : DerivesBy [] form form
  | step {r : Rule} {rules : List Rule} {last : List Symbol} (declared : r ∈ g.rules)
      (before after : List Symbol) (derives : DerivesBy rules (before ++ r.body ++ after) last) :
      DerivesBy (r :: rules) (before ++ r.head :: after) last

theorem DerivesBy.derives {rules : List Rule} {first last : List Symbol}
    (h : g.DerivesBy rules first last) : g.Derives first last := by
  induction h with
  | refl form => exact .refl form
  | step declared before after _ ih => exact .step (.byRule declared before after) ih

/-- Every derivation expands by some list of rules. -/
theorem derives_iff_exists_derivesBy {first last : List Symbol} :
    g.Derives first last ↔ ∃ rules, g.DerivesBy rules first last := by
  refine ⟨fun h => ?_, fun ⟨_, h⟩ => h.derives⟩
  induction h with
  | refl form => exact ⟨[], .refl form⟩
  | step rewrites _ ih =>
    obtain ⟨declared, before, after⟩ := rewrites
    obtain ⟨rules, h⟩ := ih
    exact ⟨_ :: rules, .step declared before after h⟩

theorem DerivesBy.trans {rules rules' : List Rule} {first second last : List Symbol}
    (h : g.DerivesBy rules first second) (h' : g.DerivesBy rules' second last) :
    g.DerivesBy (rules ++ rules') first last := by
  induction h with
  | refl => exact h'
  | step declared before after _ ih => exact .step declared before after (ih h')

/-- A derivation by rules may go on in front of other symbols. -/
theorem DerivesBy.append_right {rules : List Rule} {first last : List Symbol}
    (h : g.DerivesBy rules first last) (rest : List Symbol) :
    g.DerivesBy rules (first ++ rest) (last ++ rest) := by
  induction h with
  | refl form => exact .refl _
  | step declared before after _ ih =>
    rw [List.append_assoc] at ih
    simpa using DerivesBy.step declared before (after ++ rest) ih

end Predictive.Grammar
