import Mathlib
import Predictive.Proofs.Grammar.Leftmost
import Predictive.Proofs.Language

/-!
# Words have one leftmost derivation

If each variable of a deterministic grammar can be erased in one way at most, the next token, or the
end of the word, settles by which rule the first variable of a form is expanded. So a word has one
leftmost derivation at most (`Deterministic.leftmostBy_unique`), a word of the language has just one
(`Deterministic.existsUnique_leftmostBy`), and the parser follows it: its expansions are the rules
of the derivation (`unambiguous`).
-/

namespace Predictive

/-- The rules that a trace expands by, in its order. -/
def ParseOutcome.expansions (result : ParseOutcome) : List Rule :=
  result.trace.filterMap fun step => if step.action = .expanded then step.rule else none

namespace Grammar

variable {g : Grammar}

/-- Two rules that lead from the first variable of a form to the same word are the same. -/
theorem Deterministic.eq_of_derives (hdet : g.Deterministic) (wf : g.WellFormed) {r q : Rule}
    (hr : r ∈ g.rules) (hq : q ∈ g.rules) (hhead : q.head = r.head) (hone : g.OneErasable r.head)
    {before after word : List Symbol} (hform : g.Derives [g.start] (before ++ r.head :: after))
    (hbefore : ∀ s ∈ before, s ∉ g.nonterminals) (hword : ∀ t ∈ word, t ∉ g.nonterminals)
    (hrword : g.Derives (before ++ r.body ++ after) word)
    (hqword : g.Derives (before ++ q.body ++ after) word) : r = q := by
  rw [List.append_assoc] at hrword hqword
  obtain ⟨rest, rfl, hrrest⟩ := wf.exists_rest_of_derives hbefore hrword
  obtain ⟨rest', hsame, hqrest⟩ := wf.exists_rest_of_derives hbefore hqword
  obtain rfl := List.append_cancel_left hsame
  have hrest : ∀ t ∈ rest, t ∉ g.nonterminals :=
    fun t ht => hword t (List.mem_append_right before ht)
  have ahead : g.PlainAhead rest := fun t ht => hrest t (List.mem_of_mem_head? ht)
  have hviable : g.Viable (r.head :: after) := ⟨before, hform⟩
  have hrkey := wf.enteredUnder_of_reads hr hviable ahead ((reads_iff_derives hrest).2 hrrest)
  have hqkey := wf.enteredUnder_of_reads hq (hhead ▸ hviable) ahead
    ((reads_iff_derives hrest).2 hqrest)
  exact hdet.eq_of_enteredUnder wf hone (wf.mem_alternatives_iff.2 ⟨hr, rfl⟩)
    (wf.mem_alternatives_iff.2 ⟨hq, hhead⟩) hrkey hqkey

/-- From a form of the start symbol, a leftmost derivation of a word has no choice of its rules. -/
theorem Deterministic.leftmostBy_unique (hdet : g.Deterministic) (wf : g.WellFormed)
    (hone : ∀ v ∈ g.nonterminals, g.OneErasable v) {rules rules' : List Rule}
    {form word : List Symbol} (hform : g.Derives [g.start] form)
    (hword : ∀ t ∈ word, t ∉ g.nonterminals) (h : g.LeftmostBy rules form word)
    (h' : g.LeftmostBy rules' form word) : rules = rules' := by
  induction h generalizing rules' with
  | refl => exact (h'.eq_nil wf hword).symm
  | @step r rules word declared before leftmost after derives ih =>
    -- The other derivation expands the same variable, and the rest of the word settles its rule.
    have hvariable := wf.head_mem declared
    obtain ⟨q, hq, hhead, later, rfl, hlater⟩ := h'.exists_step wf hvariable leftmost hword
    obtain rfl : r = q := hdet.eq_of_derives wf declared hq hhead (hone r.head hvariable) hform
      leftmost hword derives.derivesBy.derives hlater.derivesBy.derives
    rw [ih (hform.tail (.byRule declared before after)) hword hlater]

/-- Each word of the language has one leftmost derivation. -/
theorem Deterministic.existsUnique_leftmostBy (hdet : g.Deterministic) (wf : g.WellFormed)
    (hone : ∀ v ∈ g.nonterminals, g.OneErasable v) {word : List Symbol} (h : g.Language word) :
    ∃! rules, g.LeftmostBy rules [g.start] word := by
  have hword : ∀ t ∈ word, t ∉ g.nonterminals := fun t ht => wf.not_mem_nonterminals (h.2 t ht)
  obtain ⟨rules, hrules⟩ := (derives_iff_exists_leftmostBy hword).1 h.1
  refine ⟨rules, hrules, fun rules' hrules' => ?_⟩
  exact hdet.leftmostBy_unique wf hone (.refl [g.start]) hword hrules' hrules

end Grammar

namespace Parser

variable {g : Grammar} {p : Parser}

/-- Where the tokens are no variables and are accepted, the expansions of the parser derive them
from the stack, leftmost variable first. -/
theorem Exact.leftmostBy_of_success (h : p.Exact g) (wf : g.WellFormed) {number : Nat} {c : Config}
    {result : ParseOutcome} (hends : p.Finishes number c result) (hsuccess : result.success = true)
    (htokens : ∀ t ∈ c.rest, t ∉ g.nonterminals) :
    g.LeftmostBy result.expansions c.stack c.rest := by
  induction hends with
  | @accept number c hmove =>
    obtain ⟨hstack, hrest⟩ := move_eq_accept_iff.1 hmove
    rw [hstack, hrest]
    exact .refl []
  | refuse number hmove => cases hsuccess
  | @readToken number c result hmove _ ih =>
    obtain ⟨t, stack, rest, hstack, hrest, -⟩ := move_eq_readToken_iff.1 hmove
    rw [hrest] at htokens
    obtain ⟨ht, htail⟩ := List.forall_mem_cons.1 htokens
    rw [Config.afterMatch, hstack, hrest] at ih
    rw [hstack, hrest]
    exact (ih hsuccess htail).cons ht
  | @expand number c r result hmove _ ih =>
    obtain ⟨stack, hstack, hr, -⟩ := h.rule_of_expand wf hmove
    rw [Config.afterExpansion, hstack] at ih
    rw [hstack]
    exact .step hr (List.forall_mem_nil _) stack (ih hsuccess htokens)

end Parser

namespace Grammar

variable {g : Grammar}

/-- The expansions of a result are the one leftmost derivation of its tokens. -/
def IsDerivation (g : Grammar) (result : ParseOutcome) (tokens : List Symbol) : Prop :=
  ∀ rules, g.LeftmostBy rules [g.start] tokens ↔ rules = result.expansions

/-- Where leftmost derivations are unique, tokens are accepted along theirs. -/
theorem Deterministic.isDerivation_of_success (hdet : g.Deterministic) (wf : g.WellFormed)
    (hone : ∀ v ∈ g.nonterminals, g.OneErasable v) {tokens : List Symbol}
    (htokens : ∀ t ∈ tokens, g.isTerminal t) {p : Parser} (hparser : p.Exact g)
    {result : ParseOutcome} (hends : p.Finishes 1 (.initial g.start tokens) result)
    (hsuccess : result.success = true) : g.IsDerivation result tokens := by
  have hplain : ∀ t ∈ tokens, t ∉ g.nonterminals :=
    fun t ht => wf.not_mem_nonterminals (htokens t ht)
  have hexpansions : g.LeftmostBy result.expansions [g.start] tokens :=
    hparser.leftmostBy_of_success wf hends hsuccess hplain
  refine fun rules => ⟨fun hrules => ?_, fun heq => heq ▸ hexpansions⟩
  exact hdet.leftmostBy_unique wf hone (.refl [g.start]) hplain hrules hexpansions

/-- Once a grammar whose variables can each be erased in one way at most has passed the check of
determinism, no word has two leftmost derivations; and whatever was asked before, the expansions of
the trace of accepted terminals are the leftmost derivation of these. -/
theorem unambiguous {text : String} (hread : ofText text = .ok g) {checked : Memo}
    (hchecked : g.Reachable checked) (hcheck : (g.requireDeterministic.runFrom checked).1 = .ok ())
    (hone : ∀ v ∈ g.nonterminals, g.OneErasable v) :
    (∀ word : List Symbol, (∀ t ∈ word, g.isTerminal t) → ∀ rules rules',
      g.LeftmostBy rules [g.start] word → g.LeftmostBy rules' [g.start] word → rules = rules') ∧
    ∀ memo, g.Reachable memo →
      (∀ tokens : List Symbol, (∀ t ∈ tokens, g.isTerminal t) →
        ∃ result, ((g.runTokens tokens).runFrom memo).1 = .ok result ∧
          (result.success = true → g.IsDerivation result tokens)) ∧
      ∀ input : String, (∀ t ∈ Text.words input, g.isTerminal t) →
        ∃ result, ((g.parseText input).runFrom memo).1 = .ok result ∧
          (result.success = true → g.IsDerivation result (Text.words input)) := by
  have wf := wellFormed_ofText hread
  have hdet := hchecked.deterministic wf hcheck
  refine ⟨fun word hword rules rules' hrules hrules' => ?_, fun memo hmemo => ⟨?_, ?_⟩⟩
  · exact hdet.leftmostBy_unique wf hone (.refl [g.start])
      (fun t ht => wf.not_mem_nonterminals (hword t ht)) hrules hrules'
  · intro tokens htokens
    obtain ⟨result, hrun, p, hparser, hends⟩ :=
      (wf.runTokens_ensures_finishes tokens).exists_value (hmemo.exact wf)
        hdet.not_isLeftRecursion
    exact ⟨result, hrun, hdet.isDerivation_of_success wf hone htokens hparser hends⟩
  · intro input hinput
    obtain ⟨result, hrun, -, p, hparser, hends⟩ :=
      (wf.parseText_ensures_finishes input).exists_value (hmemo.exact wf) (hdet.not_refutes wf)
    exact ⟨result, hrun, hdet.isDerivation_of_success wf hone hinput hparser hends⟩

theorem oneErasable_listBeforeEnd :
    ∀ v ∈ listBeforeEnd.nonterminals, listBeforeEnd.OneErasable v := by
  have wf := wellFormed_ofText ofText_listBeforeEnd
  have hvariables : listBeforeEnd.nonterminals = ["S", "A"] := by decide
  have hstart : listBeforeEnd.alternatives "S" = [⟨⟨"S", ["A", "b"]⟩, "S", 0⟩] := by decide
  have hlist : listBeforeEnd.alternatives "A" =
      [⟨⟨"A", ["a", "A"]⟩, "A", 1⟩, ⟨⟨"A", []⟩, "A", 2⟩] := by decide
  intro v hv
  rw [hvariables] at hv
  rcases List.mem_pair.1 hv with rfl | rfl
  · rw [OneErasable, hstart]
    exact List.pairwise_singleton _ _
  · rw [OneErasable, hlist]
    refine List.pairwise_pair.2 fun hboth => ?_
    exact wf.not_derives_terminal_nil (by decide) (derives_cons_nil_iff.1 hboth.1).1

/-- A list of two entries is accepted along its one derivation. -/
theorem unambiguous_of_listBeforeEnd :
    ofText "S = A b\nA = a A\nA = EMPTY" = .ok listBeforeEnd ∧
      (listBeforeEnd.requireDeterministic.runFrom {}).1 = .ok () ∧
      (∀ v ∈ listBeforeEnd.nonterminals, listBeforeEnd.OneErasable v) ∧
      (∀ t ∈ ["a", "a", "b"], listBeforeEnd.isTerminal t) ∧
      ∃ result, ((listBeforeEnd.runTokens ["a", "a", "b"]).runFrom {}).1 = .ok result ∧
        result.success = true ∧ listBeforeEnd.IsDerivation result ["a", "a", "b"] := by
  have htokens : ∀ t ∈ ["a", "a", "b"], listBeforeEnd.isTerminal t := by decide
  refine ⟨ofText_listBeforeEnd, requireDeterministic_listBeforeEnd, oneErasable_listBeforeEnd,
    htokens, ?_⟩
  have hunambiguous := unambiguous ofText_listBeforeEnd .new requireDeterministic_listBeforeEnd
    oneErasable_listBeforeEnd
  obtain ⟨result, hrun, hderivation⟩ := (hunambiguous.2 {} .new).1 ["a", "a", "b"] htokens
  have hsuccess : result.success = true := by
    have haccepted :
        ((listBeforeEnd.runTokens ["a", "a", "b"]).runFrom {}).1.map (·.success) = .ok true := by
      cbv
    rw [hrun] at haccepted
    exact Except.ok.inj haccepted
  exact ⟨result, hrun, hsuccess, hderivation hsuccess⟩

end Grammar

end Predictive
