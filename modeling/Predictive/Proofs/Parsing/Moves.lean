import Predictive.Parsing.Run
import Predictive.Proofs.Analysis.Table

/-!
# The moves of the parser

What the parser does in a configuration is read off its stack and the tokens that are left
(`move_eq_accept_iff`, `move_eq_readToken_iff`, `move_eq_expand_iff`, `cases_of_move_eq_refuse`).
`Parser.Exact` says that the table is the exact table of a grammar; the rule that a variable is
expanded by is then one of its alternatives and belongs under the next token.
-/

namespace Predictive.Parser

variable {p : Parser}

theorem moveAt_ne_accept (top : Symbol) (next : Option Symbol) : p.moveAt top next ≠ .accept := by
  unfold moveAt
  split <;> split <;> simp

theorem moveAt_eq_expand_iff {top : Symbol} {next : Option Symbol} {r : Rule} :
    p.moveAt top next = .expand r ↔
      ¬p.terminals.contains top ∧ p.table.rule? top next = some r := by
  unfold moveAt
  split
  · next hterminal =>
    refine iff_of_false ?_ fun h => h.1 hterminal
    split <;> simp
  · next hterminal =>
    rw [and_iff_right hterminal]
    split
    · next hnone => simp [hnone]
    · next hsome => simp [hsome]

theorem cases_of_moveAt_eq_refuse {top : Symbol} {next : Option Symbol} {failure : Failure}
    (h : p.moveAt top next = .refuse failure) :
    p.terminals.contains top ∨ p.table.rule? top next = none := by
  unfold moveAt at h
  split at h
  · next hterminal => exact .inl hterminal
  · split at h
    · next hnone => exact .inr hnone
    · cases h

/-- With a symbol and a token at hand, the reserved spelling is refused and a match comes before all
else. -/
theorem move_cons_cons (consumed : Nat) (top token : Symbol) (stack rest : List Symbol) :
    p.move ⟨consumed, top :: stack, token :: rest⟩ =
      if token = emptyMarker then .refuse .reservedToken
      else if top = token then .readToken
      else p.moveAt top (some token) := rfl

/-- The input is accepted when stack and input are used up together. -/
theorem move_eq_accept_iff {c : Config} : p.move c = .accept ↔ c.stack = [] ∧ c.rest = [] := by
  obtain ⟨consumed, stack, rest⟩ := c
  cases stack with
  | nil =>
    cases rest with
    | nil => simp [move]
    | cons token rest => simp [move]
  | cons top stack =>
    refine iff_of_false ?_ (by simp)
    cases rest with
    | nil => exact moveAt_ne_accept top none
    | cons token rest =>
      rw [move_cons_cons]
      split
      · simp
      split
      · simp
      · exact moveAt_ne_accept top (some token)

/-- A symbol is matched when it is the next token, and is not the reserved spelling. -/
theorem move_eq_readToken_iff {c : Config} :
    p.move c = .readToken ↔
      ∃ t stack rest, c.stack = t :: stack ∧ c.rest = t :: rest ∧ t ≠ emptyMarker := by
  obtain ⟨consumed, stack, rest⟩ := c
  cases stack with
  | nil => cases rest <;> simp [move]
  | cons top stack =>
    cases rest with
    | nil => exact iff_of_false (moveAt_ne_readToken top none) (by simp)
    | cons token rest =>
      rw [move_cons_cons]
      by_cases hreserved : token = emptyMarker
      · rw [if_pos hreserved]
        refine iff_of_false (by simp) ?_
        rintro ⟨t, stack', rest', -, hrest, ht⟩
        exact ht ((List.cons_eq_cons.1 hrest).1.symm.trans hreserved)
      rw [if_neg hreserved]
      by_cases htop : top = token
      · simp [htop, hreserved]
      · rw [if_neg htop]
        refine iff_of_false (moveAt_ne_readToken _ _) ?_
        rintro ⟨t, stack', rest', hstack, hrest, -⟩
        exact htop ((List.cons_eq_cons.1 hstack).1.trans (List.cons_eq_cons.1 hrest).1.symm)

/-- A symbol that is no terminal and not the next token is expanded by the rule of the table. -/
theorem move_eq_expand_iff {c : Config} {r : Rule} :
    p.move c = .expand r ↔ ∃ top stack, c.stack = top :: stack ∧
      c.rest.head? ≠ some emptyMarker ∧ c.rest.head? ≠ some top ∧ ¬p.terminals.contains top ∧
      p.table.rule? top c.rest.head? = some r := by
  obtain ⟨consumed, stack, rest⟩ := c
  cases stack with
  | nil => cases rest <;> simp [move]
  | cons top stack =>
    cases rest with
    | nil =>
      rw [show p.move ⟨consumed, top :: stack, []⟩ = p.moveAt top none from rfl,
        moveAt_eq_expand_iff]
      simp
    | cons token rest =>
      rw [move_cons_cons]
      by_cases hreserved : token = emptyMarker
      · simp [hreserved]
      rw [if_neg hreserved]
      by_cases htop : top = token
      · simp [htop]
      · rw [if_neg htop, moveAt_eq_expand_iff]
        simp [hreserved, Ne.symm htop]

/-- Why an input is refused: tokens are left, the reserved spelling comes next, or the symbol on top
is neither the next token nor has a rule for it. -/
theorem cases_of_move_eq_refuse {c : Config} {failure : Failure} (h : p.move c = .refuse failure) :
    (c.stack = [] ∧ c.rest ≠ []) ∨ c.rest.head? = some emptyMarker ∨
      ∃ top stack, c.stack = top :: stack ∧ c.rest.head? ≠ some top ∧
        (p.terminals.contains top ∨ p.table.rule? top c.rest.head? = none) := by
  obtain ⟨consumed, stack, rest⟩ := c
  cases stack with
  | nil =>
    cases rest with
    | nil => cases h
    | cons token rest => exact .inl ⟨rfl, by simp⟩
  | cons top stack =>
    cases rest with
    | nil => exact .inr (.inr ⟨top, stack, rfl, by simp, cases_of_moveAt_eq_refuse h⟩)
    | cons token rest =>
      rw [move_cons_cons] at h
      split at h
      · next hreserved => exact .inr (.inl (congrArg some hreserved))
      split at h
      · cases h
      · next htop =>
        have hnext : some token ≠ some top := fun heq => htop (Option.some.inj heq).symm
        exact .inr (.inr ⟨top, stack, rfl, hnext, cases_of_moveAt_eq_refuse h⟩)

/-! One step of a run. -/

theorem runFrom_of_accept {number allowed : Nat} {c : Config} (h : p.move c = .accept) :
    p.runFrom number allowed c = some (c.accepted number) := by
  rw [runFrom]
  split <;> simp_all

theorem runFrom_of_refuse {number allowed : Nat} {c : Config} {failure : Failure}
    (h : p.move c = .refuse failure) :
    p.runFrom number allowed c = some (c.refused number failure) := by
  rw [runFrom]
  split <;> simp_all

theorem runFrom_of_readToken {number allowed : Nat} {c : Config} (h : p.move c = .readToken) :
    p.runFrom number allowed c =
      (p.runFrom (number + 1) (p.allowance c.afterMatch.stack) c.afterMatch).map
        fun result => result.after (c.step number .matched none) := by
  rw [runFrom]
  split <;> simp_all

/-- An expansion that is not allowed leaves the run without a result. -/
theorem runFrom_of_expand_zero {number : Nat} {c : Config} {r : Rule} (h : p.move c = .expand r) :
    p.runFrom number 0 c = none := by
  rw [runFrom]
  split <;> simp_all

theorem runFrom_of_expand_succ {number left : Nat} {c : Config} {r : Rule}
    (h : p.move c = .expand r) :
    p.runFrom number (left + 1) c = (p.runFrom (number + 1) left (c.afterExpansion r)).map
      fun result => result.after (c.step number .expanded (some r)) := by
  rw [runFrom]
  split <;> simp_all

/-! The table of a grammar. -/

/-- No body in the table is longer than the longest. -/
theorem length_body_le_longestBody {v : Symbol} {next : Option Symbol} {r : Rule}
    (h : p.table.rule? v next = some r) : r.body.length ≤ p.longestBody := by
  unfold Table.rule? Table.row at h
  cases hlookup : p.table.rows.lookup v with
  | none =>
    rw [hlookup] at h
    simp at h
  | some row =>
    rw [hlookup] at h
    have hrow : (v, row) ∈ p.table.rows := by
      obtain ⟨before, after, hrows, -⟩ := List.lookup_eq_some_iff.1 hlookup
      simp [hrows]
    have hmem : r.body.length ∈ p.table.rows.flatMap fun row => row.2.values.map (·.body.length) :=
      List.mem_flatMap.2 ⟨_, hrow, List.mem_map.2 ⟨r, Row.mem_values h, rfl⟩⟩
    unfold longestBody
    rw [List.foldl_max_eq_max (List.ne_nil_of_mem hmem)]
    have hmax := List.le_max_of_mem hmem
    omega

/-- The parser is made of the terminals of a grammar and its exact table. -/
structure Exact (g : Grammar) (p : Parser) : Prop where
  terminals : p.terminals = g.terminals
  table : p.table.Exact g

variable {g : Grammar}

/-- The symbol on top of the stack is expanded by one of its rules, which the next token selects or,
at the end of the input, whose body can be erased. -/
theorem Exact.rule_of_expand (h : p.Exact g) (wf : g.WellFormed) {c : Config} {r : Rule}
    (hmove : p.move c = .expand r) :
    ∃ stack, c.stack = r.head :: stack ∧ r ∈ g.rules ∧ c.rest.head? ≠ some r.head ∧
      (∀ t ∈ c.rest.head?, g.Selects r t) ∧ (c.rest = [] → g.Derives r.body []) := by
  obtain ⟨top, stack, hstack, hreserved, htop, -, hrule⟩ := move_eq_expand_iff.1 hmove
  have hlast := h.table.rule?_eq_some_iff.1 hrule
  obtain ⟨hr, rfl⟩ := wf.mem_alternatives_iff.1 hlast.mem
  refine ⟨stack, hstack, hr, htop, fun t ht => ?_, fun hend => ?_⟩
  · have hkey : Table.keyOf c.rest.head? = t := by rw [Option.mem_def.1 ht, Table.keyOf]
    have hne : t ≠ emptyMarker := fun heq => hreserved (heq ▸ Option.mem_def.1 ht)
    have hentered := hlast.enteredUnder
    rw [hkey] at hentered
    exact (Grammar.enteredUnder_iff_selects hne).1 hentered
  · have hentered := hlast.enteredUnder
    rw [hend] at hentered
    exact wf.enteredUnder_emptyMarker_iff.1 hentered

/-- Where the table has no rule for the next token, it selects no alternative, and where it has none
for the end of the input, no alternative can be erased. -/
theorem Exact.not_entered_of_none (h : p.Exact g) (wf : g.WellFormed) {v : Symbol}
    {next : Option Symbol} (hnone : p.table.rule? v next = none) {r : Rule} (hr : r ∈ g.rules)
    (hhead : r.head = v) : ¬g.EnteredUnder r (Table.keyOf next) :=
  h.table.rule?_eq_none_iff.1 hnone r (wf.mem_alternatives_iff.2 ⟨hr, hhead⟩)

end Predictive.Parser
