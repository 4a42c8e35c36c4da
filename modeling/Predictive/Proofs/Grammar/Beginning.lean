import Predictive.Proofs.Grammar.Forms
import Mathlib.Logic.Relation

/-!
# What a form begins with

A form begins with a terminal when it derives a form that does (`Begins`). Its corners are the
symbols that come to stand at its front when all before them is erased. Going from a variable to a
corner of one of its bodies is a left-corner step; a variable that comes back to itself is left
recursive, and a grounded symbol is one from which no left-recursive variable is reached.

Main statements: what a form begins with is read off its first symbol and, where that can be
erased, off the rest (`begins_append_iff`), what a variable begins with off its bodies
(`begins_singleton_iff`).
-/

namespace Predictive.Grammar

open Relation (TransGen ReflTransGen)

variable (g : Grammar)

/-- The form derives a form that begins with the terminal. -/
def Begins (form : List Symbol) (t : Symbol) : Prop :=
  g.isTerminal t ∧ ∃ rest, g.Derives form (t :: rest)

/-- All that stands before the symbol in the form derives the empty string. -/
def Corner (form : List Symbol) (s : Symbol) : Prop :=
  ∃ before after, form = before ++ s :: after ∧ g.Derives before []

/-- The variable comes back to itself by left-corner steps. -/
def LeftRecursive (v : Symbol) : Prop :=
  TransGen g.LeftCorner v v

/-- No left-recursive variable is reached from the symbol by left-corner steps. -/
def Grounded (s : Symbol) : Prop :=
  ∀ v, ReflTransGen g.LeftCorner s v → ¬g.LeftRecursive v

/-- All corners of the form are grounded. -/
def GroundedForm (form : List Symbol) : Prop :=
  ∀ s, g.Corner form s → g.Grounded s

variable {g}

theorem not_begins_nil (t : Symbol) : ¬g.Begins [] t := by
  rintro ⟨-, rest, h⟩
  cases h.eq_nil

/-- A form begins with what its front begins with and, if the front can be erased, with what the
rest begins with. -/
theorem begins_append_iff {first second : List Symbol} {t : Symbol} :
    g.Begins (first ++ second) t ↔ g.Begins first t ∨ (g.Derives first [] ∧ g.Begins second t) := by
  constructor
  · rintro ⟨ht, rest, h⟩
    obtain ⟨u, v, huv, hu, hv⟩ := h.split
    cases u with
    | nil => exact .inr ⟨hu, ht, rest, huv ▸ hv⟩
    | cons a u =>
      obtain ⟨rfl, rfl⟩ := List.cons_eq_cons.1 huv
      exact .inl ⟨ht, u, hu⟩
  · rintro (⟨ht, rest, h⟩ | ⟨hfirst, ht, rest, h⟩)
    · exact ⟨ht, rest ++ second, h.append (.refl second)⟩
    · exact ⟨ht, rest, hfirst.append h⟩

theorem begins_cons_iff {s : Symbol} {rest : List Symbol} {t : Symbol} :
    g.Begins (s :: rest) t ↔ g.Begins [s] t ∨ (g.Derives [s] [] ∧ g.Begins rest t) :=
  @begins_append_iff g [s] rest t

/-- A form begins with all that it begins with after a derivation. -/
theorem Begins.of_derives {form last : List Symbol} {t : Symbol} (h : g.Begins last t)
    (hform : g.Derives form last) : g.Begins form t := by
  obtain ⟨ht, rest, hrest⟩ := h
  exact ⟨ht, rest, hform.trans hrest⟩

/-- A symbol that is no terminal begins with what the bodies of its rules begin with. -/
theorem begins_singleton_iff {s t : Symbol} (hs : ¬g.isTerminal s) :
    g.Begins [s] t ↔ ∃ r ∈ g.rules, r.head = s ∧ g.Begins r.body t := by
  constructor
  · rintro ⟨ht, rest, h⟩
    rcases derives_singleton_iff.1 h with hkept | ⟨r, hr, hhead, hbody⟩
    · obtain ⟨rfl, -⟩ := List.cons_eq_cons.1 hkept
      exact absurd ht hs
    · exact ⟨r, hr, hhead, ht, rest, hbody⟩
  · rintro ⟨r, hr, rfl, hbody⟩
    exact hbody.of_derives (.ofRule hr)

/-- A form with a terminal in front begins with that terminal alone. -/
theorem WellFormed.begins_terminal_cons_iff (wf : g.WellFormed) {s t : Symbol}
    {rest : List Symbol} (hs : g.isTerminal s) : g.Begins (s :: rest) t ↔ t = s := by
  rw [begins_cons_iff, or_iff_left fun h => wf.not_derives_terminal_nil hs h.1]
  constructor
  · rintro ⟨-, rest, h⟩
    exact (List.cons_eq_cons.1 (wf.eq_of_derives_terminal hs h)).1
  · rintro rfl
    exact ⟨hs, [], .refl _⟩

/-! Corners. -/

theorem not_corner_nil (s : Symbol) : ¬g.Corner [] s := by
  rintro ⟨before, after, h, -⟩
  simp at h

theorem corner_cons_iff {s t : Symbol} {rest : List Symbol} :
    g.Corner (s :: rest) t ↔ t = s ∨ (g.Derives [s] [] ∧ g.Corner rest t) := by
  constructor
  · rintro ⟨before, after, h, hbefore⟩
    cases before with
    | nil => exact .inl (List.cons_eq_cons.1 h).1.symm
    | cons a before =>
      obtain ⟨rfl, rfl⟩ := List.cons_eq_cons.1 h
      obtain ⟨hs, hrest⟩ := derives_cons_nil_iff.1 hbefore
      exact .inr ⟨hs, before, after, rfl, hrest⟩
  · rintro (rfl | ⟨hs, before, after, rfl, hbefore⟩)
    · exact ⟨[], rest, rfl, .refl []⟩
    · exact ⟨s :: before, after, rfl, derives_cons_nil_iff.2 ⟨hs, hbefore⟩⟩

/-- A symbol is grounded if all its bodies are: a variable that came back to itself would be
reached from a corner of one of them. -/
theorem grounded_of_bodies {s : Symbol} (h : ∀ r ∈ g.rules, r.head = s → g.GroundedForm r.body) :
    g.Grounded s := by
  intro v hv hrec
  rcases hv.cases_head with rfl | ⟨t, ⟨r, hr, hhead, hcorner⟩, htv⟩
  · obtain ⟨t, ⟨r, hr, hhead, hcorner⟩, hts⟩ := TransGen.head'_iff.1 hrec
    exact h r hr hhead t hcorner s hts hrec
  · exact h r hr hhead t hcorner v htv hrec

theorem Grounded.step {s t : Symbol} (h : g.Grounded s) (hst : g.LeftCorner s t) : g.Grounded t :=
  fun v hv => h v (.head hst hv)

theorem Grounded.not_leftRecursive {s : Symbol} (h : g.Grounded s) : ¬g.LeftRecursive s :=
  h s .refl

/-- Where all bodies are grounded, no variable is left recursive. -/
theorem not_leftRecursive_of_bodies (h : ∀ r ∈ g.rules, g.GroundedForm r.body) (v : Symbol) :
    ¬g.LeftRecursive v :=
  (grounded_of_bodies fun r hr _ => h r hr).not_leftRecursive

/-- A left-recursive symbol is a declared variable. -/
theorem LeftRecursive.mem_nonterminals (wf : g.WellFormed) {v : Symbol} (h : g.LeftRecursive v) :
    v ∈ g.nonterminals := by
  obtain ⟨_, ⟨r, hr, rfl, -⟩, -⟩ := TransGen.head'_iff.1 h
  exact wf.head_mem hr

/-- A terminal has no corner. -/
theorem WellFormed.grounded_of_isTerminal (wf : g.WellFormed) {s : Symbol} (hs : g.isTerminal s) :
    g.Grounded s := by
  refine grounded_of_bodies fun r hr hhead => ?_
  exact absurd hhead (wf.head_ne_of_isTerminal hr hs)

end Predictive.Grammar
