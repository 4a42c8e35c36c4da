import Mathlib
import Predictive.Proofs.History

/-!
# What the parser accepts

For tokens that are not spelled like declared variables, the parser of a deterministic grammar
decides whether the start symbol derives them (`decides_language`). A token that is spelled like a
variable can be matched by that variable on the stack, so some forms are accepted besides the
language: those that the start symbol reads (`accepts_terminals_only_iff`).
-/

namespace Predictive.Grammar

variable {g : Grammar}

/-- Tokens that are no variables are read by the start symbol exactly when it derives them. -/
theorem WellFormed.reads_start_iff (wf : g.WellFormed) {tokens : List Symbol}
    (htokens : ∀ t ∈ tokens, t ∉ g.nonterminals) :
    emptyMarker ∉ tokens ∧ g.Reads [g.start] tokens ↔ g.Derives [g.start] tokens := by
  rw [reads_iff_derives htokens]
  refine and_iff_right_of_imp fun hderives hmarker => ?_
  rcases wf.isSymbol_of_derives_start hderives _ hmarker with hterminal | hvariable
  · exact wf.isTerminal_ne_emptyMarker hterminal rfl
  · exact htokens _ hmarker hvariable

/-- Tokens that are no variables are in the language exactly when the start symbol derives them. -/
theorem WellFormed.language_iff_derives (wf : g.WellFormed) {tokens : List Symbol}
    (htokens : ∀ t ∈ tokens, t ∉ g.nonterminals) :
    g.Language tokens ↔ g.Derives [g.start] tokens := by
  refine and_iff_left_of_imp fun hderives t ht => ?_
  exact (wf.isSymbol_of_derives_start hderives t ht).resolve_right (htokens t ht)

/-- A grammar that has once passed the check of determinism is deterministic. -/
theorem Reachable.deterministic (wf : g.WellFormed) {memo : Memo} (hmemo : g.Reachable memo)
    (hcheck : (g.requireDeterministic.runFrom memo).1 = .ok ()) : g.Deterministic :=
  wf.requireDeterministic_ensures.value_of_run (hmemo.exact wf) hcheck

/-- In a deterministic grammar every list of tokens has a result. -/
theorem WellFormed.exists_result_runTokens (wf : g.WellFormed) (hdet : g.Deterministic)
    {memo : Memo} (hmemo : memo.Exact g) (tokens : List Symbol) :
    ∃ result, ((g.runTokens tokens).runFrom memo).1 = .ok result ∧
      (result.success = true ↔ emptyMarker ∉ tokens ∧ g.Reads [g.start] tokens) := by
  obtain ⟨result, hrun, hresult⟩ :=
    (wf.runTokens_ensures tokens).exists_value hmemo hdet.not_isLeftRecursion
  exact ⟨result, hrun, hresult hdet⟩

/-- In a deterministic grammar every text has a verdict. -/
theorem WellFormed.exists_verdict_accepts (wf : g.WellFormed) (hdet : g.Deterministic)
    {memo : Memo} (hmemo : memo.Exact g) (input : String) :
    ∃ b, ((g.accepts input).runFrom memo).1 = .ok b ∧
      (b = true ↔ emptyMarker ∉ Text.words input ∧ g.Reads [g.start] (Text.words input)) := by
  obtain ⟨b, hrun, -, hb⟩ := (wf.accepts_ensures input).exists_value hmemo (hdet.not_refutes wf)
  exact ⟨b, hrun, hb⟩

/-- The parser decides the language: once a grammar has passed the check of determinism, whatever is
asked of it, tokens that are no variables are accepted exactly when the start symbol derives them,
and a text of such words exactly when it is in the language. -/
theorem decides_language {text : String} (hread : ofText text = .ok g) {checked memo : Memo}
    (hchecked : g.Reachable checked) (hcheck : (g.requireDeterministic.runFrom checked).1 = .ok ())
    (hmemo : g.Reachable memo) :
    (∀ tokens : List Symbol, (∀ t ∈ tokens, t ∉ g.nonterminals) →
      ∃ result, ((g.runTokens tokens).runFrom memo).1 = .ok result ∧
        (result.success = true ↔ g.Derives [g.start] tokens)) ∧
    ∀ input : String, (∀ t ∈ Text.words input, t ∉ g.nonterminals) →
      ∃ b, ((g.accepts input).runFrom memo).1 = .ok b ∧
        (b = true ↔ g.Language (Text.words input)) := by
  have wf := wellFormed_ofText hread
  have hdet := hchecked.deterministic wf hcheck
  constructor
  · intro tokens htokens
    obtain ⟨result, hrun, hresult⟩ := wf.exists_result_runTokens hdet (hmemo.exact wf) tokens
    exact ⟨result, hrun, hresult.trans (wf.reads_start_iff htokens)⟩
  · intro input hinput
    obtain ⟨b, hrun, hb⟩ := wf.exists_verdict_accepts hdet (hmemo.exact wf) input
    rw [wf.reads_start_iff hinput, ← wf.language_iff_derives hinput] at hb
    exact ⟨b, hrun, hb⟩

/-- A list of terminals before a last one. -/
def listBeforeEnd : Grammar :=
  .ofProductions ⟨"S", ["A", "b"]⟩ [⟨"A", ["a", "A"]⟩, ⟨"A", []⟩]

theorem ofText_listBeforeEnd : ofText "S = A b\nA = a A\nA = EMPTY" = .ok listBeforeEnd := rfl

theorem requireDeterministic_listBeforeEnd :
    (listBeforeEnd.requireDeterministic.runFrom {}).1 = .ok () := by
  cbv

/-- The parser of the list, asked before and after the table is there. -/
theorem decides_language_of_listBeforeEnd :
    ofText "S = A b\nA = a A\nA = EMPTY" = .ok listBeforeEnd ∧
      (listBeforeEnd.requireDeterministic.runFrom {}).1 = .ok () ∧
      ∃ b, ((listBeforeEnd.accepts "a a b").runFrom (listBeforeEnd.table.runFrom {}).2).1 = .ok b ∧
        (b = true ↔ listBeforeEnd.Language ["a", "a", "b"]) := by
  have hwords : Text.words "a a b" = ["a", "a", "b"] := by cbv
  have hplain : ∀ t ∈ Text.words "a a b", t ∉ listBeforeEnd.nonterminals := by
    rw [hwords]
    decide
  refine ⟨ofText_listBeforeEnd, requireDeterministic_listBeforeEnd, ?_⟩
  rw [← hwords]
  have hdecides := decides_language ofText_listBeforeEnd .new requireDeterministic_listBeforeEnd
    (.ask .new .table)
  exact hdecides.2 "a a b" hplain

/-! Words that are spelled like variables. -/

/-- Once a grammar has passed the check of determinism, a text that is accepted is made of
terminals, unless a word of it is spelled like a declared variable and the start symbol reads the
text. -/
theorem accepts_terminals_only_iff {text : String} (hread : ofText text = .ok g)
    {checked memo : Memo} (hchecked : g.Reachable checked)
    (hcheck : (g.requireDeterministic.runFrom checked).1 = .ok ()) (hmemo : g.Reachable memo)
    (input : String) :
    ∃ b, ((g.accepts input).runFrom memo).1 = .ok b ∧
      ((b = true → ∀ t ∈ Text.words input, g.isTerminal t) ↔
        ¬((∃ t ∈ Text.words input, t ∈ g.nonterminals) ∧ emptyMarker ∉ Text.words input ∧
          g.Reads [g.start] (Text.words input))) := by
  have wf := wellFormed_ofText hread
  have hdet := hchecked.deterministic wf hcheck
  obtain ⟨b, hrun, hb⟩ := wf.exists_verdict_accepts hdet (hmemo.exact wf) input
  refine ⟨b, hrun, ?_⟩
  rw [hb]
  constructor
  · rintro hterminals ⟨⟨t, ht, hvariable⟩, hreads⟩
    exact wf.not_mem_nonterminals (hterminals hreads t ht) hvariable
  · intro hnone hreads t ht
    refine (wf.isSymbol_of_derives_start hreads.2.derives t ht).resolve_right fun hvariable => ?_
    exact hnone ⟨⟨t, ht, hvariable⟩, hreads⟩

/-- A text with a variable in front of a terminal. -/
theorem accepts_terminals_only_iff_of_listBeforeEnd :
    ofText "S = A b\nA = a A\nA = EMPTY" = .ok listBeforeEnd ∧
      (listBeforeEnd.requireDeterministic.runFrom {}).1 = .ok () ∧
      ∃ b, ((listBeforeEnd.accepts "A b").runFrom {}).1 = .ok b ∧
        ((b = true → ∀ t ∈ Text.words "A b", listBeforeEnd.isTerminal t) ↔
          ¬((∃ t ∈ Text.words "A b", t ∈ listBeforeEnd.nonterminals) ∧
            emptyMarker ∉ Text.words "A b" ∧ listBeforeEnd.Reads ["S"] (Text.words "A b"))) := by
  refine ⟨ofText_listBeforeEnd, requireDeterministic_listBeforeEnd, ?_⟩
  exact accepts_terminals_only_iff ofText_listBeforeEnd .new requireDeterministic_listBeforeEnd
    .new "A b"

/-- A single terminal. -/
def single : Grammar :=
  .ofProductions ⟨"S", ["a"]⟩ []

/-- The start symbol itself is accepted as a text, though it is no terminal. -/
theorem accepts_start_of_single :
    ofText "S = a" = .ok single ∧ (single.requireDeterministic.runFrom {}).1 = .ok () ∧
      ((single.accepts "S").runFrom {}).1 = .ok true ∧
      ¬∀ t ∈ Text.words "S", single.isTerminal t := by
  have hwords : Text.words "S" = ["S"] := by cbv
  refine ⟨rfl, by cbv, by cbv, ?_⟩
  rw [hwords]
  decide

end Predictive.Grammar
