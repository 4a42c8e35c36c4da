import Predictive.Grammar.Reader
import Mathlib.Data.List.Basic

/-!
# Grammars that were read from a text

Reading a text settles which symbols are terminals: those that occur in a body and are no head.
`WellFormed` lists what every grammar read from a text has in common (`wellFormed_ofText`), and
proofs about such grammars need nothing else of the reader. A rule that is added later may break all
of it.
-/

namespace Predictive

namespace Production

/-- The reserved spelling is left out of every body. -/
theorem emptyMarker_not_mem_body (head body : String) : emptyMarker ∉ (ofText head body).body := by
  simp [ofText]

theorem emptyMarker_not_mem_of_ofLine? {line : List Char} {p : Production}
    (h : ofLine? line = some p) : emptyMarker ∉ p.body := by
  unfold ofLine? at h
  split at h
  · cases h
  · dsimp only at h
    split at h
    · cases h
    · cases h
      exact emptyMarker_not_mem_body _ _

theorem emptyMarker_not_mem_of_readAll {text : String} {p : Production} (h : p ∈ readAll text) :
    emptyMarker ∉ p.body := by
  obtain ⟨line, -, hline⟩ := List.mem_filterMap.1 h
  exact emptyMarker_not_mem_of_ofLine? hline

end Production

namespace Grammar

/-- A symbol of the grammar: a terminal or a declared variable. -/
def IsSymbol (g : Grammar) (s : Symbol) : Prop :=
  g.isTerminal s ∨ s ∈ g.nonterminals

/-- What every grammar has that was read from a text. -/
structure WellFormed (g : Grammar) : Prop where
  /-- A rule is an alternative of its head. -/
  owner_eq : ∀ r ∈ g.rules, r.owner = r.head
  /-- The start symbol is declared. -/
  start_mem : g.start ∈ g.nonterminals
  /-- The terminals are the symbols of the bodies that are no variables. -/
  isTerminal_iff : ∀ s, g.isTerminal s ↔ (∃ r ∈ g.rules, s ∈ r.body) ∧ s ∉ g.nonterminals
  /-- The reserved spelling occurs in no body. -/
  emptyMarker_not_mem : ∀ r ∈ g.rules, emptyMarker ∉ r.body

/-- The rules of the grammar of some productions are these productions as rules of their heads. -/
theorem mem_rules_ofProductions {first : Production} {others : List Production} {r : Rule}
    (h : r ∈ (ofProductions first others).rules) :
    r.toProduction ∈ first :: others ∧ r.owner = r.head := by
  obtain ⟨⟨p, i⟩, hp, rfl⟩ := List.mem_map.1 h
  exact ⟨(List.mem_zipIdx' hp).2 ▸ List.getElem_mem _, rfl⟩

theorem exists_rule_ofProductions {first : Production} {others : List Production}
    {p : Production} (h : p ∈ first :: others) :
    ∃ r ∈ (ofProductions first others).rules, r.toProduction = p ∧ r.owner = p.head := by
  obtain ⟨i, hi, rfl⟩ := List.getElem_of_mem h
  refine ⟨⟨(first :: others)[i], (first :: others)[i].head, i⟩, ?_, rfl, rfl⟩
  refine List.mem_map.2 ⟨((first :: others)[i], i), ?_, rfl⟩
  exact List.mem_zipIdx_iff_getElem?.2 (List.getElem?_eq_getElem hi)

theorem mem_nonterminals_ofProductions {first : Production} {others : List Production}
    {v : Symbol} :
    v ∈ (ofProductions first others).nonterminals ↔ ∃ p ∈ first :: others, p.head = v := by
  rw [mem_nonterminals]
  constructor
  · rintro ⟨r, hr, rfl⟩
    obtain ⟨hp, howner⟩ := mem_rules_ofProductions hr
    exact ⟨r.toProduction, hp, howner.symm⟩
  · rintro ⟨p, hp, rfl⟩
    obtain ⟨r, hr, -, howner⟩ := exists_rule_ofProductions hp
    exact ⟨r, hr, howner⟩

theorem mem_terminalsOf {productions : List Production} {s : Symbol} :
    s ∈ terminalsOf productions ↔
      (∃ p ∈ productions, s ∈ p.body) ∧ ¬∃ p ∈ productions, p.head = s := by
  simp [terminalsOf, Std.ExtTreeSet.mem_ofList]

/-- Productions without the reserved spelling make a well-formed grammar. -/
theorem wellFormed_ofProductions {first : Production} {others : List Production}
    (hbodies : ∀ p ∈ first :: others, emptyMarker ∉ p.body) :
    (ofProductions first others).WellFormed where
  owner_eq r hr := (mem_rules_ofProductions hr).2
  start_mem := mem_nonterminals_ofProductions.2 ⟨first, List.mem_cons_self, rfl⟩
  isTerminal_iff s := by
    rw [mem_nonterminals_ofProductions, show (ofProductions first others).isTerminal s ↔
      s ∈ terminalsOf (first :: others) from Iff.rfl, mem_terminalsOf]
    refine and_congr_left fun _ => ⟨?_, ?_⟩
    · rintro ⟨p, hp, hs⟩
      obtain ⟨r, hr, rfl, -⟩ := exists_rule_ofProductions hp
      exact ⟨r, hr, hs⟩
    · rintro ⟨r, hr, hs⟩
      exact ⟨r.toProduction, (mem_rules_ofProductions hr).1, hs⟩
  emptyMarker_not_mem r hr := hbodies _ (mem_rules_ofProductions hr).1

/-- A grammar that was read from a text is well formed. -/
theorem wellFormed_ofText {text : String} {g : Grammar} (h : ofText text = .ok g) :
    g.WellFormed := by
  unfold ofText at h
  split at h
  · cases h
  · next first others hread =>
    cases h
    refine wellFormed_ofProductions fun p hp => ?_
    exact Production.emptyMarker_not_mem_of_readAll (hread ▸ hp)

namespace WellFormed

variable {g : Grammar}

theorem not_mem_nonterminals (wf : g.WellFormed) {s : Symbol} (h : g.isTerminal s) :
    s ∉ g.nonterminals :=
  ((wf.isTerminal_iff s).1 h).2

/-- The declared variables are the heads of the rules. -/
theorem mem_nonterminals_iff (wf : g.WellFormed) {v : Symbol} :
    v ∈ g.nonterminals ↔ ∃ r ∈ g.rules, r.head = v := by
  rw [mem_nonterminals]
  refine exists_congr fun r => and_congr_right fun hr => ?_
  rw [wf.owner_eq r hr]

theorem head_mem (wf : g.WellFormed) {r : Rule} (hr : r ∈ g.rules) : r.head ∈ g.nonterminals :=
  wf.mem_nonterminals_iff.2 ⟨r, hr, rfl⟩

/-- No rule rewrites a terminal. -/
theorem head_ne_of_isTerminal (wf : g.WellFormed) {r : Rule} (hr : r ∈ g.rules) {s : Symbol}
    (hs : g.isTerminal s) : r.head ≠ s := by
  rintro rfl
  exact wf.not_mem_nonterminals hs (wf.head_mem hr)

theorem mem_alternatives_iff (wf : g.WellFormed) {v : Symbol} {r : Rule} :
    r ∈ g.alternatives v ↔ r ∈ g.rules ∧ r.head = v := by
  rw [mem_alternatives]
  refine and_congr_right fun hr => ?_
  rw [wf.owner_eq r hr]

/-- A variable has alternatives exactly when it is declared. -/
theorem alternatives_eq_nil_iff (wf : g.WellFormed) {v : Symbol} :
    g.alternatives v = [] ↔ v ∉ g.nonterminals := by
  rw [wf.mem_nonterminals_iff, List.eq_nil_iff_forall_not_mem]
  simp only [wf.mem_alternatives_iff, not_and, not_exists]

/-- Bodies are made of symbols of the grammar. -/
theorem isSymbol_of_mem_body (wf : g.WellFormed) {r : Rule} (hr : r ∈ g.rules) {s : Symbol}
    (hs : s ∈ r.body) : g.IsSymbol s := by
  by_cases hv : s ∈ g.nonterminals
  · exact .inr hv
  · exact .inl ((wf.isTerminal_iff s).2 ⟨⟨r, hr, hs⟩, hv⟩)

/-- The reserved spelling is no terminal. -/
theorem isTerminal_ne_emptyMarker (wf : g.WellFormed) {s : Symbol} (hs : g.isTerminal s) :
    s ≠ emptyMarker := by
  rintro rfl
  obtain ⟨⟨r, hr, hbody⟩, -⟩ := (wf.isTerminal_iff _).1 hs
  exact wf.emptyMarker_not_mem r hr hbody

end WellFormed

end Grammar

end Predictive
