import Mathlib
import Predictive.Proofs.Outcomes

/-!
# A trace is a derivation

A step of a trace stands for a form: the tokens that have been read before it, in front of its
stack. A match leaves the form as it is, and an expansion rewrites the symbol right behind what has
been read by one of its alternatives (`Step.Before`). So the start symbol derives the forms of all
steps, also where the table hides alternatives, and the last step says how the input was answered
(`Grammar.trace_faithful`).
-/

namespace Predictive

namespace Step

/-- The form of a step: the tokens that have been read before it, and its stack. -/
def form (tokens : List Symbol) (step : Step) : List Symbol :=
  tokens.take (tokens.length - step.input.length) ++ step.stack

theorem form_eq {tokens read : List Symbol} {step : Step} (h : tokens = read ++ step.input) :
    step.form tokens = read ++ step.stack := by
  have hread : tokens.length - step.input.length = read.length := by
    rw [h, List.length_append, Nat.add_sub_cancel]
  rw [form, hread, h, List.take_left]

/-- How a step leads to the next one. -/
inductive Before (g : Grammar) (tokens : List Symbol) (step next : Step) : Prop where
  /-- The symbol on top is the next token: both are taken away, and the form stays. -/
  | matched {t : Symbol} (action : step.action = .matched) (stack : step.stack = t :: next.stack)
      (input : step.input = t :: next.input) (form : next.form tokens = step.form tokens)
  /-- The variable on top, right behind what has been read, is replaced by the body of one of its
  alternatives. -/
  | expanded {v : Symbol} {r : Rule} {read rest : List Symbol} (action : step.action = .expanded)
      (rule : step.rule = some r) (alternative : r ∈ g.alternatives v)
      (tokens_eq : tokens = read ++ step.input) (stack : step.stack = v :: rest)
      (form : step.form tokens = read ++ v :: rest) (input : next.input = step.input)
      (next_form : next.form tokens = read ++ (r.body ++ rest))

variable {g : Grammar} {tokens : List Symbol} {step next : Step}

theorem Before.action (h : Before g tokens step next) :
    step.action = .matched ∨ step.action = .expanded := by
  cases h with
  | matched action => exact .inl action
  | expanded action => exact .inr action

/-- What derives the form of a step derives the form of the next one. -/
theorem Before.derives (h : Before g tokens step next) (wf : g.WellFormed) {first : List Symbol}
    (hfirst : g.Derives first (step.form tokens)) : g.Derives first (next.form tokens) := by
  cases h with
  | matched _ _ _ form => rwa [form]
  | @expanded v r read rest _ _ alternative _ _ form _ next_form =>
    obtain ⟨hr, rfl⟩ := wf.mem_alternatives_iff.1 alternative
    rw [next_form, ← List.append_assoc]
    rw [form] at hfirst
    exact hfirst.tail (.byRule hr read rest)

end Step

namespace ParseOutcome

/-- The number of matches in the trace. -/
def matchCount (result : ParseOutcome) : Nat :=
  result.trace.countP fun step => step.action = .matched

/-- The last step tells how the input was answered: accepted with nothing left, or refused at the
position behind the given number of tokens. -/
inductive EndsIn (result : ParseOutcome) (position : Nat) (last : Step) : Prop where
  | accepted (success : result.success = true) (action : last.action = .accepted)
      (stack : last.stack = []) (input : last.input = []) (none : result.errorPosition = -1)
  | refused (success : result.success = false) (action : last.action = .failed)
      (position_eq : result.errorPosition = position)

end ParseOutcome

namespace Parser

variable {g : Grammar} {p : Parser} {tokens : List Symbol}

/-- The trace of a result records a run from the configuration on. -/
structure RecordedFrom (g : Grammar) (tokens : List Symbol) (number : Nat) (c : Config)
    (result : ParseOutcome) : Prop where
  first : ∃ action rule later, result.trace = c.step number action rule :: later
  numbered : ∀ (k : Nat) step, result.trace[k]? = some step → step.number = (number + k : Nat)
  suffix : ∀ step ∈ result.trace, step.input <:+ tokens
  chain : result.trace.IsChain (Step.Before g tokens)
  ends : ∃ last read, result.trace.getLast? = some last ∧ c.rest = read ++ last.input ∧
    result.matchCount = read.length ∧ result.EndsIn (c.consumed + read.length) last

/-- A run that ends at once has one step. -/
theorem recordedFrom_of_end {number : Nat} {c : Config} {result : ParseOutcome}
    {action : Action} (htrace : result.trace = [c.step number action none])
    (hrest : c.rest <:+ tokens) (haction : action ≠ .matched)
    (hends : result.EndsIn c.consumed (c.step number action none)) :
    RecordedFrom g tokens number c result where
  first := ⟨action, none, [], htrace⟩
  numbered k step hstep := by
    rw [htrace] at hstep
    cases k with
    | zero =>
      obtain rfl := Option.some.inj hstep
      rfl
    | succ k => simp at hstep
  suffix step hstep := by
    rw [htrace, List.mem_singleton] at hstep
    exact hstep ▸ hrest
  chain := htrace ▸ .singleton _
  ends := by
    refine ⟨c.step number action none, [], by simp [htrace], rfl, ?_, hends⟩
    simp [ParseOutcome.matchCount, htrace, Config.step, haction]

/-- One more step in front of a recorded run. It matches as many tokens as are gone from the input
after it. -/
theorem RecordedFrom.after {number : Nat} {c d : Config} {result : ParseOutcome} {action : Action}
    {rule : Option Rule} {front : List Symbol} (h : RecordedFrom g tokens (number + 1) d result)
    (hrest : c.rest <:+ tokens)
    (hbefore : ∀ action' rule', Step.Before g tokens (c.step number action rule)
      (d.step (number + 1) action' rule'))
    (hfront : c.rest = front ++ d.rest) (hconsumed : d.consumed = c.consumed + front.length)
    (hmatches : front.length = if action = .matched then 1 else 0) :
    RecordedFrom g tokens number c (result.after (c.step number action rule)) where
  first := ⟨action, rule, result.trace, rfl⟩
  numbered k step hstep := by
    cases k with
    | zero =>
      obtain rfl := Option.some.inj hstep
      rfl
    | succ k =>
      have hlater := h.numbered k step hstep
      omega
  suffix := List.forall_mem_cons.2 ⟨hrest, h.suffix⟩
  chain := by
    obtain ⟨action', rule', later, htrace⟩ := h.first
    have hchain := h.chain
    rw [htrace] at hchain
    rw [ParseOutcome.after, htrace]
    exact .cons_cons (hbefore action' rule') hchain
  ends := by
    obtain ⟨last, read, hlast, hread, hcount, hends⟩ := h.ends
    refine ⟨last, front ++ read, ?_, ?_, ?_, ?_⟩
    · simp [ParseOutcome.after, List.getLast?_cons, hlast]
    · rw [hfront, hread, List.append_assoc]
    · rw [List.length_append, ← hcount, hmatches, Nat.add_comm]
      simp [ParseOutcome.matchCount, ParseOutcome.after, List.countP_cons, Config.step]
    · have hposition : c.consumed + (front ++ read).length = d.consumed + read.length := by
        rw [hconsumed, List.length_append, Nat.add_assoc]
      rw [hposition]
      cases hends with
      | accepted success action stack input none => exact .accepted success action stack input none
      | refused success action position_eq => exact .refused success action position_eq

/-- The trace of the parser records its run: every iteration leaves the step that it takes. -/
theorem Exact.recordedFrom (h : p.Exact g) (wf : g.WellFormed) {number : Nat} {c : Config}
    {result : ParseOutcome} (hends : p.Finishes number c result) {read : List Symbol}
    (htokens : tokens = read ++ c.rest) : RecordedFrom g tokens number c result := by
  induction hends generalizing read with
  | @accept number c hmove =>
    obtain ⟨hstack, hrest⟩ := move_eq_accept_iff.1 hmove
    refine recordedFrom_of_end rfl ⟨read, htokens.symm⟩ nofun ?_
    exact .accepted rfl rfl hstack hrest rfl
  | @refuse number c failure hmove =>
    refine recordedFrom_of_end rfl ⟨read, htokens.symm⟩ nofun ?_
    exact .refused rfl rfl rfl
  | @readToken number c result hmove _ ih =>
    obtain ⟨t, stack, rest, hstack, hrest, -⟩ := move_eq_readToken_iff.1 hmove
    have hafter : c.afterMatch = ⟨c.consumed + 1, stack, rest⟩ := by
      rw [Config.afterMatch, hstack, hrest, List.tail_cons, List.tail_cons]
    rw [hafter] at ih
    have hread : tokens = (read ++ [t]) ++ rest := by rw [htokens, hrest, List.append_assoc]; rfl
    have hfront : c.rest = [t] ++ rest := hrest
    refine (ih hread).after ⟨read, htokens.symm⟩ (fun action' rule' => ?_) hfront rfl rfl
    refine .matched rfl hstack hrest ?_
    rw [Step.form_eq hread, Step.form_eq htokens]
    simp [Config.step, hstack]
  | @expand number c r result hmove _ ih =>
    obtain ⟨stack, hstack, hr, -⟩ := h.rule_of_expand wf hmove
    have hafter : c.afterExpansion r = ⟨c.consumed, r.body ++ stack, c.rest⟩ := by
      rw [Config.afterExpansion, hstack, List.tail_cons]
    rw [hafter] at ih
    refine (ih htokens).after ⟨read, htokens.symm⟩ (fun action' rule' => ?_)
      (List.nil_append c.rest).symm rfl rfl
    refine .expanded rfl rfl (wf.mem_alternatives_iff.2 ⟨hr, rfl⟩) htokens hstack ?_ rfl ?_
    · rw [Step.form_eq htokens, Config.step, hstack]
    · exact Step.form_eq htokens

end Parser

namespace Grammar

variable {g : Grammar}

variable (g) in
/-- The trace of the result is a derivation from the start symbol that ends where the input was
accepted or refused. -/
structure Records (tokens : List Symbol) (result : ParseOutcome) : Prop where
  /-- The steps are numbered from one on, and there is a first one. -/
  numbered : ∀ (k : Nat) step, result.trace[k]? = some step → step.number = (k + 1 : Nat)
  starts : result.trace.head?.map (Step.form tokens) = some [g.start]
  /-- The input of a step is what is left of the tokens. -/
  suffix : ∀ step ∈ result.trace, step.input <:+ tokens
  /-- All steps before the last match or expand, and lead to the next. -/
  goes_on : ∀ step ∈ result.trace.dropLast, step.action = .matched ∨ step.action = .expanded
  chain : result.trace.IsChain (Step.Before g tokens)
  derives : ∀ step ∈ result.trace, g.Derives [g.start] (step.form tokens)
  /-- The last step accepts, with nothing left, just where the input is accepted. -/
  accepted_iff : (∃ last, result.trace.getLast? = some last ∧ last.action = .accepted ∧
    last.stack = [] ∧ last.input = []) ↔ result.success = true
  accepted : result.success = true → result.errorPosition = -1 ∧
    result.matchCount = tokens.length ∧ g.Derives [g.start] tokens
  /-- Otherwise it fails, at the position behind the tokens that have been matched. -/
  refused : result.success = false → ∃ last read, result.trace.getLast? = some last ∧
    last.action = .failed ∧ tokens = read ++ last.input ∧ result.matchCount = read.length ∧
    result.errorPosition = read.length

/-- A recorded run from the start symbol is a derivation. -/
theorem WellFormed.records_of_recordedFrom (wf : g.WellFormed) {tokens : List Symbol}
    {result : ParseOutcome}
    (h : Parser.RecordedFrom g tokens 1 (.initial g.start tokens) result) :
    g.Records tokens result := by
  obtain ⟨action, rule, later, htrace⟩ := h.first
  have hfirst : ((Config.initial g.start tokens).step 1 action rule).form tokens = [g.start] :=
    @Step.form_eq tokens [] _ rfl
  have hderives : ∀ step ∈ result.trace, g.Derives [g.start] (step.form tokens) := by
    refine h.chain.induction _ _ (fun step next hstep hform => hstep.derives wf hform) fun hne => ?_
    simp only [htrace, List.head_cons, hfirst]
    exact .refl [g.start]
  obtain ⟨last, read, hlast, hread, hcount, hends⟩ := h.ends
  have htokens : tokens = read ++ last.input := hread
  have hposition : (Config.initial g.start tokens).consumed + read.length = read.length :=
    Nat.zero_add _
  rw [hposition] at hends
  constructor
  case numbered =>
    intro k step hstep
    rw [h.numbered k step hstep, Nat.add_comm]
  case starts => rw [htrace, List.head?_cons, Option.map_some, hfirst]
  case suffix => exact h.suffix
  case goes_on =>
    intro step hstep
    obtain ⟨_, -, hbefore⟩ :=
      Analysis.exists_right_of_forall₂ (List.isChain_iff_forall₂.1 h.chain) hstep
    exact hbefore.action
  case chain => exact h.chain
  case derives => exact hderives
  case accepted_iff =>
    rw [hlast]
    cases hends with
    | accepted success action stack input =>
      exact iff_of_true ⟨last, rfl, action, stack, input⟩ success
    | refused success action =>
      refine iff_of_false ?_ (by simp [success])
      rintro ⟨_, ⟨⟩, haccepted, -⟩
      cases haccepted.symm.trans action
  case accepted =>
    intro hsuccess
    cases hends with
    | accepted success action stack input none =>
      have hform := hderives last (List.mem_of_getLast? hlast)
      rw [Step.form_eq htokens, stack, List.append_nil] at hform
      rw [input, List.append_nil] at htokens
      exact ⟨none, htokens ▸ hcount, htokens ▸ hform⟩
    | refused success => cases hsuccess.symm.trans success
  case refused =>
    intro hfailure
    cases hends with
    | accepted success => cases hfailure.symm.trans success
    | refused success action position_eq =>
      exact ⟨last, read, hlast, action, htokens, hcount, position_eq⟩

/-- If the table of a grammar can be built, collisions or not, the trace of any tokens is a
derivation from the start symbol, whatever was asked before. -/
theorem trace_faithful {text : String} (hread : ofText text = .ok g) {built memo : Memo}
    (hbuilt : g.Reachable built) {table : Table}
    (htable : (g.buildTable.runFrom built).1 = .ok table) (hmemo : g.Reachable memo)
    (tokens : List Symbol) :
    ∃ result, ((g.runTokens tokens).runFrom memo).1 = .ok result ∧ g.Records tokens result := by
  have wf := wellFormed_ofText hread
  obtain ⟨hgrounded, -⟩ := wf.buildTable_ensures.value_of_run (hbuilt.exact wf) htable
  obtain ⟨result, hrun, p, hparser, hends⟩ :=
    (wf.runTokens_ensures_finishes tokens).exists_value (hmemo.exact wf)
      (not_isLeftRecursion_of_bodies hgrounded)
  refine ⟨result, hrun, wf.records_of_recordedFrom ?_⟩
  exact hparser.recordedFrom wf hends (List.nil_append tokens).symm

/-- A terminal is matched, and the variables behind it are expanded at the end of the input. The
first alternative of the start symbol, which the second has replaced, leaves no trace. -/
theorem trace_faithful_of_erasedAtEnd :
    ofText "S = a\nS = a A A\nA = EMPTY" = .ok erasedAtEnd ∧
      ∃ table, (erasedAtEnd.buildTable.runFrom {}).1 = .ok table ∧
        ∃ result, ((erasedAtEnd.runTokens ["a"]).runFrom {}).1 = .ok result ∧
          erasedAtEnd.Records ["a"] result ∧
          result.trace.map (fun step => (step.action, step.form ["a"])) =
            [(.expanded, ["S"]), (.matched, ["a", "A", "A"]), (.expanded, ["a", "A", "A"]),
              (.expanded, ["a", "A"]), (.accepted, ["a"])] := by
  obtain ⟨table, htable⟩ := exists_buildTable_erasedAtEnd
  obtain ⟨result, hrun, hrecords⟩ :=
    trace_faithful ofText_erasedAtEnd .new htable .new ["a"]
  have hforms : ((erasedAtEnd.runTokens ["a"]).runFrom {}).1.map
      (fun result => result.trace.map fun step => (step.action, step.form ["a"])) =
        .ok [(.expanded, ["S"]), (.matched, ["a", "A", "A"]), (.expanded, ["a", "A", "A"]),
          (.expanded, ["a", "A"]), (.accepted, ["a"])] := by
    cbv
  rw [hrun] at hforms
  exact ⟨ofText_erasedAtEnd, table, htable, result, hrun, hrecords, Except.ok.inj hforms⟩

end Grammar

end Predictive
