import Predictive.Proofs.Parsing.Recognition

/-!
# Where an input is refused

What the parser does depends on the stack and the next token alone (`Parser.move_congr`). So the
tokens that are read on the way to a configuration, and the one that is next there, lead there
whatever comes behind them (`Parser.Leads`). An input is refused in a configuration whose stack
reads nothing that begins with the next token. All that begins like the input up to that token is
refused there too, and what was read before it is read on the way to something that the start symbol
derives (`Parser.Exact.refused_at_first`).
-/

namespace Predictive.Parser

open Relation (ReflTransGen)

variable {p : Parser} {g : Grammar}

/-- The stack and the next token settle what is done. -/
theorem move_congr {c d : Config} (hstack : c.stack = d.stack)
    (hnext : c.rest.head? = d.rest.head?) : p.move c = p.move d := by
  obtain ⟨_, stack, rest⟩ := c
  obtain ⟨_, stack', rest'⟩ := d
  obtain rfl : stack = stack' := hstack
  cases rest with
  | nil =>
    obtain rfl : rest' = [] := List.head?_eq_none_iff.1 hnext.symm
    cases stack <;> rfl
  | cons token rest =>
    obtain ⟨tail, rfl⟩ : ∃ tail, rest' = token :: tail := List.head?_eq_some_iff.1 hnext.symm
    cases stack <;> rfl

/-- The tokens are read on the way from the first configuration to the last, whatever is left there
behind the next token, and the first stack derives them in front of the last stack. -/
structure Leads (g : Grammar) (p : Parser) (c : Config) (read : List Symbol) (d : Config) :
    Prop where
  rest_eq : c.rest = read ++ d.rest
  consumed_eq : d.consumed = c.consumed + read.length
  derives : g.Derives c.stack (read ++ d.stack)
  steps : ∀ rest, rest.head? = d.rest.head? →
    ReflTransGen p.Next { c with rest := read ++ rest } { d with rest := rest }

namespace Leads

variable {c d e : Config} {read more : List Symbol}

theorem refl (c : Config) : Leads g p c [] c where
  rest_eq := rfl
  consumed_eq := rfl
  derives := .refl _
  steps _ _ := .refl

theorem trans (h : Leads g p c read d) (h' : Leads g p d more e) :
    Leads g p c (read ++ more) e where
  rest_eq := by rw [h.rest_eq, h'.rest_eq, List.append_assoc]
  consumed_eq := by rw [h'.consumed_eq, h.consumed_eq, List.length_append, Nat.add_assoc]
  derives := by
    have hbehind : g.Derives (read ++ d.stack) (read ++ (more ++ e.stack)) :=
      (Grammar.Derives.refl read).append h'.derives
    rw [List.append_assoc]
    exact h.derives.trans hbehind
  steps rest hrest := by
    have hnext : (more ++ rest).head? = d.rest.head? := by
      rw [h'.rest_eq, List.head?_append, List.head?_append, hrest]
    rw [List.append_assoc]
    exact (h.steps (more ++ rest) hnext).trans (h'.steps rest hrest)

/-- A match reads its token. -/
theorem of_readToken (hmove : p.move c = .readToken) : ∃ t, Leads g p c [t] c.afterMatch := by
  obtain ⟨t, stack, rest, hstack, hrest, -⟩ := move_eq_readToken_iff.1 hmove
  refine ⟨t, ?_, rfl, ?_, fun rest' _ => ?_⟩
  · simp [Config.afterMatch, hrest]
  · rw [hstack, Config.afterMatch, hstack]
    exact .refl _
  · have hsame : p.move { c with rest := t :: rest' } = .readToken := by
      rw [← hmove]
      exact move_congr rfl (by simp [hrest])
    exact .single (.readToken hsame)

/-- An expansion reads nothing. -/
theorem of_expand (h : p.Exact g) (wf : g.WellFormed) {r : Rule} (hmove : p.move c = .expand r) :
    Leads g p c [] (c.afterExpansion r) := by
  obtain ⟨stack, hstack, hr, -⟩ := h.rule_of_expand wf hmove
  refine ⟨rfl, rfl, ?_, fun rest' hrest' => ?_⟩
  · rw [hstack, Config.afterExpansion, hstack]
    exact (Grammar.Derives.ofRule hr).append (.refl stack)
  · have hsame : p.move { c with rest := rest' } = .expand r := by
      rw [← hmove]
      exact move_congr rfl hrest'
    exact .single (.expand hsame)

end Leads

/-- Every iteration reads some tokens, one or none. -/
theorem Exact.leads_of_next (h : p.Exact g) (wf : g.WellFormed) {c d : Config}
    (hnext : p.Next c d) : ∃ read, Leads g p c read d := by
  cases hnext with
  | readToken hmove =>
    obtain ⟨t, ht⟩ := Leads.of_readToken hmove
    exact ⟨[t], ht⟩
  | expand hmove => exact ⟨[], .of_expand h wf hmove⟩

theorem Exact.leads_of_steps (h : p.Exact g) (wf : g.WellFormed) {c d : Config}
    (hsteps : ReflTransGen p.Next c d) : ∃ read, Leads g p c read d := by
  induction hsteps with
  | refl => exact ⟨[], .refl c⟩
  | tail _ hnext ih =>
    obtain ⟨read, hread⟩ := ih
    obtain ⟨more, hmore⟩ := h.leads_of_next wf hnext
    exact ⟨read ++ more, hread.trans hmore⟩

/-- An input is refused as soon as it can be: the tokens that have been read begin something that
the stack derives, and together with the next one, or with the end of the input, they begin nothing
that it reads. -/
theorem Exact.refused_at_first (h : p.Exact g) (wf : g.WellFormed) (hdet : g.Deterministic)
    {number : Nat} {c : Config} {result : ParseOutcome} (hends : p.Finishes number c result)
    (hviable : g.Viable c.stack) (hrefused : result.success = false) :
    ∃ read rest, c.rest = read ++ rest ∧ result.errorPosition = (c.consumed + read.length : Nat) ∧
      (∃ stack, g.Derives c.stack (read ++ stack)) ∧
      ∀ other, other.head? = rest.head? → ¬Config.Readable g { c with rest := read ++ other } := by
  obtain ⟨last, hsteps, ⟨-, hsuccess⟩ | ⟨failure, hmove, -, hposition⟩⟩ := hends.exists_last
  · rw [hsuccess] at hrefused
    cases hrefused
  obtain ⟨read, hread⟩ := h.leads_of_steps wf hsteps
  have hlast := h.viable_of_steps wf hsteps hviable
  refine ⟨read, last.rest, hread.rest_eq, ?_, ⟨last.stack, hread.derives⟩, ?_⟩
  · rw [hposition, hread.consumed_eq]
  · intro other hother hreadable
    have hsame : p.move { last with rest := other } = .refuse failure := by
      rw [← hmove]
      exact move_congr rfl hother
    refine h.not_readable_of_refuse wf hsame hlast ?_
    exact h.readable_after_steps wf hdet (hread.steps other hother) hviable hreadable

end Predictive.Parser
