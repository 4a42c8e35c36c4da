import Predictive.Proofs.Parsing.Moves
import Mathlib.Algebra.Group.Nat.Defs
import Mathlib.Data.Finset.Card

/-!
# The parser comes to a result

Without left recursion every left-corner step leads to a variable from which fewer variables are
reached, so the number of those bounds the depth of a chain of expansions (`rank`). The expansions
between two tokens take place at the front of the stack: below its first symbol and, where that can
be erased, below the next. `effort` bounds their number. Every expansion lessens the effort of the
stack (`effort_expansion_lt`), and the allowance of the parser is no smaller (`effort_le`), so the
allowance is never used up (`Parser.Exact.exists_result`).
-/

namespace Predictive

open Relation (TransGen ReflTransGen)

namespace Grammar

variable (g : Grammar)

open Classical in
/-- The declared variables that a symbol leads to by left-corner steps. -/
noncomputable def reached (s : Symbol) : Finset Symbol :=
  g.nonterminals.toFinset.filter fun v => ReflTransGen g.LeftCorner s v

/-- The depth that a chain of left-corner steps from the symbol can have. -/
noncomputable def rank (s : Symbol) : Nat :=
  (g.reached s).card

open Classical in
/-- Bounds the expansions before the next token, if every node of an expansion has fewer than
`branches` branches. -/
noncomputable def effort (branches : Nat) : List Symbol → Nat
  | [] => 0
  | s :: rest => branches ^ g.rank s + if g.Derives [s] [] then effort branches rest else 0

variable {g}

theorem mem_reached {s v : Symbol} :
    v ∈ g.reached s ↔ v ∈ g.nonterminals ∧ ReflTransGen g.LeftCorner s v := by
  simp [reached]

theorem rank_le (s : Symbol) : g.rank s ≤ g.nonterminals.length := by
  have hsubset : g.reached s ⊆ g.nonterminals.toFinset :=
    fun v hv => List.mem_toFinset.2 (mem_reached.1 hv).1
  exact Nat.le_trans (Finset.card_le_card hsubset) (List.toFinset_card_le _)

theorem rank_pos {s : Symbol} (hs : s ∈ g.nonterminals) : 0 < g.rank s :=
  Finset.card_pos.2 ⟨s, mem_reached.2 ⟨hs, .refl⟩⟩

/-- A left-corner step from a variable that is not left recursive goes down. -/
theorem rank_lt {s t : Symbol} (hs : s ∈ g.nonterminals) (hrec : ¬g.LeftRecursive s)
    (hst : g.LeftCorner s t) : g.rank t < g.rank s := by
  apply Finset.card_lt_card
  refine Finset.ssubset_iff_subset_ne.2 ⟨fun v hv => ?_, fun heq => ?_⟩
  · obtain ⟨hv, htv⟩ := mem_reached.1 hv
    exact mem_reached.2 ⟨hv, .head hst htv⟩
  · have hself : s ∈ g.reached s := mem_reached.2 ⟨hs, .refl⟩
    rw [← heq] at hself
    exact hrec (TransGen.head' hst (mem_reached.1 hself).2)

/-! The effort of a form. -/

variable {branches : Nat}

/-- Symbols behind a form count only where the form can be erased. -/
theorem effort_append_of_derives {form rest : List Symbol} (h : g.Derives form []) :
    g.effort branches (form ++ rest) = g.effort branches form + g.effort branches rest := by
  induction form with
  | nil => simp [effort]
  | cons s form ih =>
    obtain ⟨hs, hform⟩ := derives_cons_nil_iff.1 h
    simp only [List.cons_append, effort, if_pos hs, ih hform]
    omega

theorem effort_append_of_not_derives {form rest : List Symbol} (h : ¬g.Derives form []) :
    g.effort branches (form ++ rest) = g.effort branches form := by
  induction form with
  | nil => exact absurd (.refl []) h
  | cons s form ih =>
    rw [List.cons_append, effort, effort]
    by_cases hs : g.Derives [s] []
    · have hform : ¬g.Derives form [] := fun hform => h (derives_cons_nil_iff.2 ⟨hs, hform⟩)
      rw [ih hform]
    · rw [if_neg hs, if_neg hs]

/-- The effort of a form is bounded by its length and the rank of its corners. -/
theorem effort_le_of_corners (hbranches : 0 < branches) {form : List Symbol} {depth : Nat}
    (h : ∀ s, g.Corner form s → g.rank s ≤ depth) :
    g.effort branches form ≤ form.length * branches ^ depth := by
  induction form with
  | nil => simp [effort]
  | cons s form ih =>
    have hhere : branches ^ g.rank s ≤ branches ^ depth :=
      Nat.pow_le_pow_right hbranches (h s (corner_cons_iff.2 (.inl rfl)))
    rw [effort, List.length_cons, Nat.succ_mul]
    by_cases hs : g.Derives [s] []
    · have hrest := ih fun t ht => h t (corner_cons_iff.2 (.inr ⟨hs, ht⟩))
      rw [if_pos hs]
      omega
    · rw [if_neg hs]
      omega

theorem effort_le (hbranches : 0 < branches) (form : List Symbol) :
    g.effort branches form ≤ form.length * branches ^ g.nonterminals.length :=
  effort_le_of_corners hbranches fun s _ => rank_le s

/-- The effort of a body is less than that of its head. -/
theorem WellFormed.effort_body_lt (wf : g.WellFormed) {r : Rule} (hr : r ∈ g.rules)
    (hrec : ¬g.LeftRecursive r.head) (hlength : r.body.length < branches) :
    g.effort branches r.body < branches ^ g.rank r.head := by
  have hhead := wf.head_mem hr
  have hpos := rank_pos hhead
  have hcorners : ∀ s, g.Corner r.body s → g.rank s ≤ g.rank r.head - 1 := by
    intro s hs
    have hlt := rank_lt hhead hrec ⟨r, hr, rfl, hs⟩
    omega
  have hbranches : 0 < branches := by omega
  have hpow : 0 < branches ^ (g.rank r.head - 1) := Nat.pow_pos hbranches
  calc g.effort branches r.body
      ≤ r.body.length * branches ^ (g.rank r.head - 1) := effort_le_of_corners hbranches hcorners
    _ < branches * branches ^ (g.rank r.head - 1) := Nat.mul_lt_mul_of_pos_right hlength hpow
    _ = branches ^ (g.rank r.head - 1 + 1) := by rw [Nat.pow_succ, Nat.mul_comm]
    _ = branches ^ g.rank r.head := by rw [Nat.sub_add_cancel hpos]

/-- An expansion on top of a stack lessens its effort. -/
theorem WellFormed.effort_expansion_lt (wf : g.WellFormed) {r : Rule} (hr : r ∈ g.rules)
    (hrec : ¬g.LeftRecursive r.head) (hlength : r.body.length < branches) (rest : List Symbol) :
    g.effort branches (r.body ++ rest) < g.effort branches (r.head :: rest) := by
  have hbody := wf.effort_body_lt hr hrec hlength
  rw [effort]
  by_cases herased : g.Derives r.body []
  · have hhead : g.Derives [r.head] [] := (Derives.ofRule hr).trans herased
    rw [effort_append_of_derives herased, if_pos hhead]
    omega
  · rw [effort_append_of_not_derives herased]
    omega

end Grammar

namespace Parser

variable {g : Grammar} {p : Parser}

/-- The allowance covers the effort of any stack. -/
theorem Exact.effort_le_allowance (h : p.Exact g) (stack : List Symbol) :
    g.effort (p.longestBody + 1) stack ≤ p.allowance stack := by
  have hrows : g.nonterminals.length = p.table.rows.length := h.table.length_eq
  have hbound := Grammar.effort_le (g := g) (Nat.succ_pos p.longestBody) stack
  rw [hrows] at hbound
  exact hbound

/-- Every expansion lessens the effort of the stack. -/
theorem Exact.effort_afterExpansion_lt (h : p.Exact g) (wf : g.WellFormed)
    (hgrounded : ∀ r ∈ g.rules, g.GroundedForm r.body) {c : Config} {r : Rule}
    (hmove : p.move c = .expand r) :
    g.effort (p.longestBody + 1) (c.afterExpansion r).stack <
      g.effort (p.longestBody + 1) c.stack := by
  obtain ⟨stack, hstack, hr, -⟩ := h.rule_of_expand wf hmove
  obtain ⟨top, -, -, -, -, -, hrule⟩ := move_eq_expand_iff.1 hmove
  have hlength : r.body.length < p.longestBody + 1 :=
    Nat.lt_succ_of_le (length_body_le_longestBody hrule)
  have hrec := Grammar.not_leftRecursive_of_bodies hgrounded r.head
  have hlt := wf.effort_expansion_lt hr hrec hlength stack
  rw [Config.afterExpansion, hstack]
  exact hlt

/-- Without left recursion a parser that may go on for the effort of its stack has a result. -/
theorem Exact.exists_result (h : p.Exact g) (wf : g.WellFormed)
    (hgrounded : ∀ r ∈ g.rules, g.GroundedForm r.body) (number allowed : Nat) (c : Config)
    (hallowed : g.effort (p.longestBody + 1) c.stack ≤ allowed) :
    ∃ result, p.runFrom number allowed c = some result := by
  induction number, allowed, c using runFrom.induct p with
  | case1 number allowed c hmove => exact ⟨_, runFrom_of_accept hmove⟩
  | case2 number allowed c failure hmove => exact ⟨_, runFrom_of_refuse hmove⟩
  | case3 number allowed c hmove ih =>
    obtain ⟨result, hresult⟩ := ih (h.effort_le_allowance _)
    rw [runFrom_of_readToken hmove, hresult]
    exact ⟨_, rfl⟩
  | case4 number c r hmove =>
    have hlt := h.effort_afterExpansion_lt wf hgrounded hmove
    omega
  | case5 number c r hmove left ih =>
    have hlt := h.effort_afterExpansion_lt wf hgrounded hmove
    obtain ⟨result, hresult⟩ := ih (by omega)
    rw [runFrom_of_expand_succ hmove, hresult]
    exact ⟨_, rfl⟩

end Parser

end Predictive
