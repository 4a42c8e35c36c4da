import Predictive.Proofs.Analysis.Determinism
import Predictive.Proofs.Parsing.Loop
import Predictive.Proofs.Parsing.Reading

/-!
# The parser recognises what the start symbol reads

Whatever the parser accepts is read by the start symbol, also where the table hides alternatives
(`Parser.Exact.readable_of_success`). In a deterministic grammar the rule of the table is the only
one that can go on reading, because the stack is always the end of a form that the start symbol
derives (`Viable`); so the parser accepts all that is read (`Parser.Exact.success_of_readable`).
-/

namespace Predictive

open Analysis (Ensures)
open Relation (ReflTransGen)

namespace Grammar

variable (g : Grammar)

/-- The stack is the end of a form that the start symbol derives. -/
def Viable (stack : List Symbol) : Prop :=
  ∃ before, g.Derives [g.start] (before ++ stack)

variable {g}

theorem viable_start : g.Viable [g.start] :=
  ⟨[], .refl _⟩

theorem Viable.tail {s : Symbol} {stack : List Symbol} (h : g.Viable (s :: stack)) :
    g.Viable stack := by
  obtain ⟨before, hbefore⟩ := h
  exact ⟨before ++ [s], by simpa using hbefore⟩

theorem Viable.expand {r : Rule} (hr : r ∈ g.rules) {stack : List Symbol}
    (h : g.Viable (r.head :: stack)) : g.Viable (r.body ++ stack) := by
  obtain ⟨before, hbefore⟩ := h
  have hrewrites : g.Rewrites (before ++ r.head :: stack) (before ++ r.body ++ stack) :=
    .byRule hr before stack
  exact ⟨before, by simpa using hbefore.tail hrewrites⟩

/-- What the start symbol derives is made of symbols of the grammar. -/
theorem WellFormed.isSymbol_of_derives_start (wf : g.WellFormed) {form : List Symbol}
    (h : g.Derives [g.start] form) : ∀ s ∈ form, g.IsSymbol s :=
  wf.isSymbol_of_derives h fun _ hs => .inr (List.mem_singleton.1 hs ▸ wf.start_mem)

theorem WellFormed.isSymbol_of_viable (wf : g.WellFormed) {stack form : List Symbol}
    (hviable : g.Viable stack) (h : g.Derives stack form) : ∀ s ∈ form, g.IsSymbol s := by
  obtain ⟨before, hbefore⟩ := hviable
  have hform : g.Derives [g.start] (before ++ form) := by
    simpa using hbefore.trans (by simpa using h.within before [])
  exact fun s hs => wf.isSymbol_of_derives_start hform s (List.mem_append_right _ hs)

/-- A rule that leads to the next token on a viable stack is selected by it. -/
theorem WellFormed.selects_of_derives (wf : g.WellFormed) {r : Rule} (hr : r ∈ g.rules)
    {stack : List Symbol} (hviable : g.Viable (r.head :: stack)) {t : Symbol}
    {tokens : List Symbol} (ht : t ∉ g.nonterminals)
    (h : g.Derives (r.body ++ stack) (t :: tokens)) : g.Selects r t := by
  have hsymbol := wf.isSymbol_of_viable (hviable.expand hr) h t List.mem_cons_self
  have hterminal : g.isTerminal t := hsymbol.resolve_right ht
  obtain ⟨u, v, htokens, hu, hv⟩ := h.split
  cases u with
  | nil =>
    -- The body is erased, so the token stands behind the head.
    obtain ⟨before, hbefore⟩ := hviable
    rw [List.nil_append] at htokens
    have hbehind : g.Derives [g.start] (before ++ r.head :: t :: tokens) := by
      rw [htokens]
      simpa using hbefore.trans (by simpa using hv.within (before ++ [r.head]) [])
    exact .inr ⟨hu, hterminal, g.start, wf.start_mem, before, tokens, hbehind⟩
  | cons a u =>
    obtain ⟨rfl, -⟩ := List.cons_eq_cons.1 htokens
    exact .inl ⟨hterminal, u, hu⟩

/-- A rule that goes on reading on a viable stack belongs under the key of the next token. -/
theorem WellFormed.enteredUnder_of_reads (wf : g.WellFormed) {r : Rule} (hr : r ∈ g.rules)
    {stack tokens : List Symbol} (hviable : g.Viable (r.head :: stack))
    (ahead : g.PlainAhead tokens) (h : g.Reads (r.body ++ stack) tokens) :
    g.EnteredUnder r (Table.keyOf tokens.head?) := by
  cases tokens with
  | nil => exact .inr ⟨rfl, (derives_append_nil_iff.1 h.derives).1⟩
  | cons t tokens =>
    exact .inl (wf.selects_of_derives hr hviable (plainAhead_cons_iff.1 ahead) h.derives)

end Grammar

/-- The stack reads the tokens that are left, and the reserved spelling is none of them. -/
def Config.Readable (g : Grammar) (c : Config) : Prop :=
  emptyMarker ∉ c.rest ∧ g.Reads c.stack c.rest

namespace Parser

variable {g : Grammar} {p : Parser}

/-! One iteration. -/

/-- A viable stack stays viable. -/
theorem Exact.viable_of_next (h : p.Exact g) (wf : g.WellFormed) {c d : Config}
    (hnext : p.Next c d) (hviable : g.Viable c.stack) : g.Viable d.stack := by
  cases hnext with
  | readToken hmove =>
    obtain ⟨t, stack, rest, hstack, -, -⟩ := move_eq_readToken_iff.1 hmove
    rw [hstack] at hviable
    rw [Config.afterMatch, hstack]
    exact hviable.tail
  | expand hmove =>
    obtain ⟨stack, hstack, hr, -⟩ := h.rule_of_expand wf hmove
    rw [hstack] at hviable
    rw [Config.afterExpansion, hstack]
    exact hviable.expand hr

/-- A match leaves as much to be read as there was. -/
theorem readable_afterMatch_iff (wf : g.WellFormed) {c : Config} (hmove : p.move c = .readToken) :
    c.afterMatch.Readable g ↔ c.Readable g := by
  obtain ⟨t, stack, rest, hstack, hrest, ht⟩ := move_eq_readToken_iff.1 hmove
  have hmarker : emptyMarker ∉ t :: rest ↔ emptyMarker ∉ rest := by
    rw [List.mem_cons, or_iff_right (Ne.symm ht)]
  simp only [Config.Readable, Config.afterMatch, hstack, hrest, List.tail_cons, hmarker,
    wf.reads_cons_cons_iff]

/-- What is read after an expansion is read before it. -/
theorem Exact.readable_of_afterExpansion (h : p.Exact g) (wf : g.WellFormed) {c : Config}
    {r : Rule} (hmove : p.move c = .expand r) (hafter : (c.afterExpansion r).Readable g) :
    c.Readable g := by
  obtain ⟨stack, hstack, hr, -, hselects, -⟩ := h.rule_of_expand wf hmove
  obtain ⟨hmarker, hreads⟩ := hafter
  have ahead : g.PlainAhead c.rest :=
    fun t ht => wf.not_mem_nonterminals (hselects t ht).isTerminal
  refine ⟨hmarker, ?_⟩
  rw [Config.afterExpansion, hstack] at hreads
  rw [hstack]
  exact .rule hr ahead hreads

/-- In a deterministic grammar an expansion by the table goes on reading whatever is read by the
stack. -/
theorem Exact.readable_afterExpansion (h : p.Exact g) (wf : g.WellFormed) (hdet : g.Deterministic)
    {c : Config} {r : Rule} (hmove : p.move c = .expand r) (hviable : g.Viable c.stack)
    (hreadable : c.Readable g) : (c.afterExpansion r).Readable g := by
  obtain ⟨stack, hstack, hr, hnext, hselects, hend⟩ := h.rule_of_expand wf hmove
  obtain ⟨hmarker, hreads⟩ := hreadable
  refine ⟨hmarker, ?_⟩
  rw [hstack] at hreads hviable
  obtain ⟨ahead, q, hq, hhead, hexpanded⟩ := (Grammar.reads_cons_iff hnext).1 hreads
  rw [Config.afterExpansion, hstack, List.tail_cons]
  cases hrest : c.rest with
  | nil =>
    -- At the end of the input any body that can be erased will do.
    rw [hrest] at hexpanded
    have hbody := hend hrest
    have hstackErased := (Grammar.derives_append_nil_iff.1 hexpanded.derives).2
    refine (Grammar.reads_iff_derives (by simp)).2 ?_
    exact Grammar.derives_append_nil_iff.2 ⟨hbody, hstackErased⟩
  | cons t tokens =>
    rw [hrest] at hexpanded ahead hselects
    have hq' : g.Selects q t := wf.selects_of_derives hq (hhead ▸ hviable)
      (Grammar.plainAhead_cons_iff.1 ahead) hexpanded.derives
    have hr' : g.Selects r t := hselects t rfl
    rw [hdet.apart r hr q hq hhead.symm t hr' hq']
    exact hexpanded

theorem readable_of_accept {c : Config} (hmove : p.move c = .accept) : c.Readable g := by
  obtain ⟨hstack, hrest⟩ := move_eq_accept_iff.1 hmove
  rw [Config.Readable, hstack, hrest]
  exact ⟨List.not_mem_nil, .done⟩

/-- Where an input is refused, a viable stack does not read it. -/
theorem Exact.not_readable_of_refuse (h : p.Exact g) (wf : g.WellFormed) {c : Config}
    {failure : Failure} (hmove : p.move c = .refuse failure) (hviable : g.Viable c.stack) :
    ¬c.Readable g := by
  rintro ⟨hmarker, hreads⟩
  rcases cases_of_move_eq_refuse hmove with ⟨hstack, hrest⟩ | hreserved | found
  · rw [hstack, Grammar.reads_nil_iff] at hreads
    exact hrest hreads
  · exact hmarker (List.mem_of_mem_head? hreserved)
  · obtain ⟨top, stack, hstack, hnext, hreason⟩ := found
    rw [hstack] at hreads hviable
    obtain ⟨ahead, r, hr, hhead, hexpanded⟩ := (Grammar.reads_cons_iff hnext).1 hreads
    rcases hreason with hterminal | hnone
    · rw [h.terminals] at hterminal
      exact wf.head_ne_of_isTerminal hr hterminal hhead
    · exact h.not_entered_of_none wf hnone hr hhead
        (wf.enteredUnder_of_reads hr (hhead ▸ hviable) ahead hexpanded)

/-! The whole run. -/

theorem Exact.viable_of_steps (h : p.Exact g) (wf : g.WellFormed) {c d : Config}
    (hsteps : ReflTransGen p.Next c d) (hviable : g.Viable c.stack) : g.Viable d.stack := by
  induction hsteps with
  | refl => exact hviable
  | tail _ hnext ih => exact h.viable_of_next wf hnext ih

/-- What is read later on is read from the beginning. -/
theorem Exact.readable_of_steps (h : p.Exact g) (wf : g.WellFormed) {c d : Config}
    (hsteps : ReflTransGen p.Next c d) (hreadable : d.Readable g) : c.Readable g := by
  induction hsteps with
  | refl => exact hreadable
  | tail _ hnext ih =>
    cases hnext with
    | readToken hmove => exact ih ((readable_afterMatch_iff wf hmove).1 hreadable)
    | expand hmove => exact ih (h.readable_of_afterExpansion wf hmove hreadable)

/-- In a deterministic grammar a viable stack never gives up what it reads. -/
theorem Exact.readable_after_steps (h : p.Exact g) (wf : g.WellFormed) (hdet : g.Deterministic)
    {c d : Config} (hsteps : ReflTransGen p.Next c d) (hviable : g.Viable c.stack)
    (hreadable : c.Readable g) : d.Readable g := by
  induction hsteps with
  | refl => exact hreadable
  | tail hbefore hnext ih =>
    cases hnext with
    | readToken hmove => exact (readable_afterMatch_iff wf hmove).2 ih
    | expand hmove =>
      exact h.readable_afterExpansion wf hdet hmove (h.viable_of_steps wf hbefore hviable) ih

/-- What the parser accepts is read by the stack. -/
theorem Exact.readable_of_success (h : p.Exact g) (wf : g.WellFormed) {number : Nat}
    {c : Config} {result : ParseOutcome} (hends : p.Finishes number c result)
    (hsuccess : result.success = true) : c.Readable g := by
  obtain ⟨last, hsteps, ⟨hmove, -⟩ | ⟨_, -, hrefused, -⟩⟩ := hends.exists_last
  · exact h.readable_of_steps wf hsteps (readable_of_accept hmove)
  · rw [hrefused] at hsuccess
    cases hsuccess

/-- In a deterministic grammar the parser accepts what is read by a viable stack. -/
theorem Exact.success_of_readable (h : p.Exact g) (wf : g.WellFormed) (hdet : g.Deterministic)
    {number : Nat} {c : Config} {result : ParseOutcome} (hends : p.Finishes number c result)
    (hviable : g.Viable c.stack) (hreadable : c.Readable g) : result.success = true := by
  obtain ⟨last, hsteps, ⟨-, hsuccess⟩ | ⟨_, hmove, -⟩⟩ := hends.exists_last
  · exact hsuccess
  · have hlast := h.readable_after_steps wf hdet hsteps hviable hreadable
    exact absurd hlast (h.not_readable_of_refuse wf hmove (h.viable_of_steps wf hsteps hviable))

end Parser

namespace Grammar

variable {g : Grammar}

/-- The result for some tokens is that of the loop with the exact table, which is there for
grounded bodies only. There is one unless a variable is left recursive. -/
theorem WellFormed.runTokens_ensures_grounded (wf : g.WellFormed) (tokens : List Symbol) :
    Ensures (Memo.Exact g) (g.runTokens tokens)
      (fun result => (∀ r ∈ g.rules, g.GroundedForm r.body) ∧
        ∃ p : Parser, p.Exact g ∧ p.Finishes 1 (.initial g.start tokens) result)
      g.IsLeftRecursion := by
  unfold runTokens
  refine wf.table_ensures.bind fun table htable => ?_
  have hparser : Parser.Exact g { terminals := g.terminals, table := table } := ⟨rfl, htable.2⟩
  obtain ⟨result, hrun, hends⟩ := hparser.exists_run wf htable.1 tokens
  simp only [hrun]
  exact .pure ⟨htable.1, _, hparser, hends⟩

theorem WellFormed.runTokens_ensures_finishes (wf : g.WellFormed) (tokens : List Symbol) :
    Ensures (Memo.Exact g) (g.runTokens tokens)
      (fun result => ∃ p : Parser, p.Exact g ∧ p.Finishes 1 (.initial g.start tokens) result)
      g.IsLeftRecursion :=
  (wf.runTokens_ensures_grounded tokens).mono_value fun _ h => h.2

/-- In a deterministic grammar the result says whether the start symbol reads the tokens. -/
theorem WellFormed.runTokens_ensures (wf : g.WellFormed) (tokens : List Symbol) :
    Ensures (Memo.Exact g) (g.runTokens tokens)
      (fun result => g.Deterministic →
        (result.success = true ↔ emptyMarker ∉ tokens ∧ g.Reads [g.start] tokens))
      g.IsLeftRecursion := by
  refine (wf.runTokens_ensures_finishes tokens).mono_value ?_
  rintro result ⟨p, hparser, hends⟩ hdet
  exact ⟨hparser.readable_of_success wf hends,
    hparser.success_of_readable wf hdet hends viable_start⟩

/-- A text is parsed by a deterministic grammar only, and its words by the loop. -/
theorem WellFormed.parseText_ensures_finishes (wf : g.WellFormed) (text : String) :
    Ensures (Memo.Exact g) (g.parseText text)
      (fun result => g.Deterministic ∧ ∃ p : Parser, p.Exact g ∧
        p.Finishes 1 (.initial g.start (Text.words text)) result)
      (g.Refutes g.nonterminals) := by
  unfold parseText
  refine wf.requireDeterministic_ensures.bind fun _ hdet => ?_
  exact (wf.runTokens_ensures_finishes (Text.words text)).mono (fun _ h => ⟨hdet, h⟩)
    fun _ he => .inl he

theorem WellFormed.parseText_ensures (wf : g.WellFormed) (text : String) :
    Ensures (Memo.Exact g) (g.parseText text)
      (fun result => g.Deterministic ∧ (result.success = true ↔
        emptyMarker ∉ Text.words text ∧ g.Reads [g.start] (Text.words text)))
      (g.Refutes g.nonterminals) := by
  refine (wf.parseText_ensures_finishes text).mono_value ?_
  rintro result ⟨hdet, p, hparser, hends⟩
  exact ⟨hdet, hparser.readable_of_success wf hends,
    hparser.success_of_readable wf hdet hends viable_start⟩

theorem WellFormed.accepts_ensures (wf : g.WellFormed) (text : String) :
    Ensures (Memo.Exact g) (g.accepts text)
      (fun b => g.Deterministic ∧ (b = true ↔
        emptyMarker ∉ Text.words text ∧ g.Reads [g.start] (Text.words text)))
      (g.Refutes g.nonterminals) :=
  (wf.parseText_ensures text).bind fun _ h => .pure h

end Grammar

end Predictive
