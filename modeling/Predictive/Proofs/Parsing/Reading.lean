import Predictive.Proofs.Grammar.Forms

/-!
# Reading tokens by a form

A form is read off tokens from left to right: the symbol in front is the next token, or it is
replaced by the body of one of its rules. A rule is used only where no declared variable comes next
as a token, since such a token matches itself or nothing. Where no token is a variable, the tokens
that a form reads are those that it derives (`reads_iff_derives`).
-/

namespace Predictive.Grammar

variable (g : Grammar)

/-- The next token, if there is one, is not spelled like a declared variable. -/
def PlainAhead (tokens : List Symbol) : Prop :=
  ∀ t ∈ tokens.head?, t ∉ g.nonterminals

/-- The tokens are read from left to right by the form. -/
inductive Reads : List Symbol → List Symbol → Prop where
  | done : Reads [] []
  | token (s : Symbol) {form tokens : List Symbol} (rest : Reads form tokens) :
      Reads (s :: form) (s :: tokens)
  | rule {r : Rule} {form tokens : List Symbol} (declared : r ∈ g.rules)
      (ahead : g.PlainAhead tokens) (expanded : Reads (r.body ++ form) tokens) :
      Reads (r.head :: form) tokens

variable {g}

theorem plainAhead_cons_iff {t : Symbol} {tokens : List Symbol} :
    g.PlainAhead (t :: tokens) ↔ t ∉ g.nonterminals := by
  simp [PlainAhead]

/-- Tokens that are read are derived. -/
theorem Reads.derives {form tokens : List Symbol} (h : g.Reads form tokens) :
    g.Derives form tokens := by
  induction h with
  | done => exact .refl []
  | token s _ ih => simpa using ih.within [s] []
  | @rule r form tokens declared _ _ ih =>
    exact .step (.byRule declared [] form) (by simpa using ih)

/-- The empty form reads no token. -/
theorem reads_nil_iff {tokens : List Symbol} : g.Reads [] tokens ↔ tokens = [] := by
  constructor
  · intro h
    cases h
    rfl
  · rintro rfl
    exact .done

/-- A symbol that is the next token can only be read by itself. -/
theorem WellFormed.reads_cons_cons_iff (wf : g.WellFormed) {s : Symbol}
    {form tokens : List Symbol} : g.Reads (s :: form) (s :: tokens) ↔ g.Reads form tokens := by
  refine ⟨fun h => ?_, .token s⟩
  generalize hfirst : s :: form = first at h
  generalize hread : s :: tokens = read at h
  cases h with
  | done => cases hread
  | token t rest =>
    obtain ⟨rfl, rfl⟩ := List.cons_eq_cons.1 hfirst
    obtain ⟨-, rfl⟩ := List.cons_eq_cons.1 hread
    exact rest
  | @rule r _ _ declared ahead _ =>
    obtain ⟨rfl, -⟩ := List.cons_eq_cons.1 hfirst
    subst hread
    exact absurd (wf.head_mem declared) (plainAhead_cons_iff.1 ahead)

/-- A symbol that is not the next token is replaced by the body of one of its rules. -/
theorem reads_cons_iff {s : Symbol} {form tokens : List Symbol} (hnext : tokens.head? ≠ some s) :
    g.Reads (s :: form) tokens ↔
      g.PlainAhead tokens ∧ ∃ r ∈ g.rules, r.head = s ∧ g.Reads (r.body ++ form) tokens := by
  constructor
  · intro h
    generalize hfirst : s :: form = first at h
    cases h with
    | done => cases hfirst
    | token t _ =>
      obtain ⟨rfl, -⟩ := List.cons_eq_cons.1 hfirst
      exact absurd rfl hnext
    | rule declared ahead expanded =>
      obtain ⟨rfl, rfl⟩ := List.cons_eq_cons.1 hfirst
      exact ⟨ahead, _, declared, rfl, expanded⟩
  · rintro ⟨ahead, r, declared, rfl, expanded⟩
    exact .rule declared ahead expanded

/-- What is read after a rewriting is read before it, if no token is a variable. -/
theorem Reads.of_rewrites {first second tokens : List Symbol} (h : g.Reads second tokens)
    (hrewrites : g.Rewrites first second) (htokens : ∀ t ∈ tokens, t ∉ g.nonterminals) :
    g.Reads first tokens := by
  have ahead : ∀ {read : List Symbol}, (∀ t ∈ read, t ∉ g.nonterminals) → g.PlainAhead read :=
    fun hread t ht => hread t (List.mem_of_mem_head? ht)
  obtain @⟨r, declared, before, after⟩ := hrewrites
  generalize hform : before ++ r.body ++ after = form at h
  induction h generalizing before with
  | done =>
    obtain ⟨hfront, rfl⟩ := List.append_eq_nil_iff.1 hform
    obtain ⟨rfl, hbody⟩ := List.append_eq_nil_iff.1 hfront
    exact .rule declared (ahead htokens) (by simpa [hbody] using Reads.done)
  | @token s form tokens rest ih =>
    cases before with
    | nil =>
      have hbody : g.Reads (r.body ++ after) (s :: tokens) := by
        rw [List.nil_append] at hform
        exact hform ▸ .token s rest
      exact .rule declared (ahead htokens) hbody
    | cons a before =>
      obtain ⟨rfl, hrest⟩ := List.cons_eq_cons.1 hform
      exact .token a (ih (fun t ht => htokens t (List.mem_cons_of_mem _ ht)) before hrest)
  | @rule q form tokens hq hahead expanded ih =>
    cases before with
    | nil =>
      have hbody : g.Reads (r.body ++ after) tokens := by
        rw [List.nil_append] at hform
        exact hform ▸ .rule hq hahead expanded
      exact .rule declared hahead hbody
    | cons a before =>
      obtain ⟨rfl, rfl⟩ := List.cons_eq_cons.1 hform
      have hinside := ih htokens (q.body ++ before) (by simp)
      exact .rule hq hahead (by simpa using hinside)

/-- Tokens that are no variables are read by a form exactly when it derives them. -/
theorem reads_iff_derives {form tokens : List Symbol} (htokens : ∀ t ∈ tokens, t ∉ g.nonterminals) :
    g.Reads form tokens ↔ g.Derives form tokens := by
  refine ⟨Reads.derives, fun h => ?_⟩
  induction h with
  | refl form =>
    clear htokens
    induction form with
    | nil => exact .done
    | cons s form ih => exact .token s ih
  | step rewrites _ ih => exact (ih htokens).of_rewrites rewrites htokens

end Predictive.Grammar
