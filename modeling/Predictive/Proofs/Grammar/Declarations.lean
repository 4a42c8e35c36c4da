import Predictive.Proofs.Grammar.Selection

/-!
# How the rules of a grammar are split

Every rule is filed under one variable, and under no other: the lists of alternatives, one behind the
other, are the rules in another order (`perm_flatMap_alternatives`). `Partitioned` says all that
reading a text settles about this split and about the one of the symbols.
-/

namespace Predictive.Grammar

/-- Without duplicates every element stands once. -/
theorem nodup_eraseDups {α : Type} [DecidableEq α] (xs : List α) : xs.eraseDups.Nodup := by
  generalize hlength : xs.length = n
  -- Later copies of the first element are gone before the rest is gone through.
  induction n using Nat.strongRecOn generalizing xs with
  | ind n ih =>
    cases xs with
    | nil => simp
    | cons x xs =>
      rw [List.eraseDups_cons, List.nodup_cons]
      constructor
      · simp [List.mem_eraseDups]
      · have hshorter := List.length_filter_le (fun y => !y == x) xs
        rw [List.length_cons] at hlength
        exact ih _ (by omega) _ rfl

variable {g : Grammar}

theorem nodup_nonterminals : g.nonterminals.Nodup := by
  rw [nonterminals_eq_eraseDups]
  exact nodup_eraseDups _

/-- A rule is an alternative of its owner alone. -/
theorem existsUnique_owner {r : Rule} (hr : r ∈ g.rules) :
    ∃! v, v ∈ g.nonterminals ∧ r ∈ g.alternatives v := by
  refine ⟨r.owner, ⟨mem_nonterminals.2 ⟨r, hr, rfl⟩, mem_alternatives.2 ⟨hr, rfl⟩⟩, ?_⟩
  rintro v ⟨-, hv⟩
  exact (mem_alternatives.1 hv).2.symm

/-- The alternatives of all variables are the rules, each once. -/
theorem perm_flatMap_alternatives : (g.nonterminals.flatMap g.alternatives).Perm g.rules := by
  have hdisjoint : g.nonterminals.Pairwise fun v w =>
      (g.alternatives v).Disjoint (g.alternatives w) := by
    refine nodup_nonterminals.imp fun hne r hv hw => hne ?_
    exact (mem_alternatives.1 hv).2.symm.trans (mem_alternatives.1 hw).2
  have hnodup : (g.nonterminals.flatMap g.alternatives).Nodup :=
    List.nodup_flatMap.2 ⟨fun v _ => nodup_alternatives v, hdisjoint⟩
  apply (List.perm_ext_iff_of_nodup hnodup nodup_rules).2
  intro r
  rw [List.mem_flatMap]
  constructor
  · rintro ⟨v, -, hr⟩
    exact rules_of_alternatives v r hr
  · intro hr
    obtain ⟨v, ⟨hv, hmem⟩, -⟩ := existsUnique_owner hr
    exact ⟨v, hv, hmem⟩

variable (g) in
/-- The rules are split by their heads, and the symbols into terminals and variables. -/
structure Partitioned : Prop where
  /-- The variables are the heads, in the order in which they first come up. -/
  nonterminals_eq : g.nonterminals = g.heads.eraseDups
  /-- A variable has the rules that it is the head of, in the order of declaration. -/
  alternatives_eq : ∀ v, g.alternatives v = g.rules.filter (·.head == v)
  alternatives_ne_nil : ∀ v ∈ g.nonterminals, g.alternatives v ≠ []
  one_owner : ∀ r ∈ g.rules, ∃! v, v ∈ g.nonterminals ∧ r ∈ g.alternatives v
  perm_rules : (g.nonterminals.flatMap g.alternatives).Perm g.rules
  start_mem : g.start ∈ g.nonterminals
  /-- No terminal is declared. -/
  disjoint : ∀ s, g.isTerminal s → s ∉ g.nonterminals
  /-- Every symbol of a body is a terminal or declared. -/
  isSymbol : ∀ r ∈ g.rules, ∀ s ∈ r.body, g.IsSymbol s
  /-- The reserved spelling is no symbol of a body, and no terminal. -/
  emptyMarker_not_mem : ∀ r ∈ g.rules, emptyMarker ∉ r.body
  emptyMarker_not_terminal : ¬g.isTerminal emptyMarker

/-- Reading a text splits rules and symbols. -/
theorem WellFormed.partitioned (wf : g.WellFormed) : g.Partitioned where
  nonterminals_eq := by
    rw [nonterminals_eq_eraseDups, heads, List.map_congr_left wf.owner_eq]
  alternatives_eq v := by
    rw [alternatives_eq_filter]
    apply List.filter_congr
    intro r hr
    rw [wf.owner_eq r hr]
  alternatives_ne_nil v hv hnil := wf.alternatives_eq_nil_iff.1 hnil hv
  one_owner r hr := existsUnique_owner hr
  perm_rules := perm_flatMap_alternatives
  start_mem := wf.start_mem
  disjoint _ hs := wf.not_mem_nonterminals hs
  isSymbol _ hr _ hs := wf.isSymbol_of_mem_body hr hs
  emptyMarker_not_mem := wf.emptyMarker_not_mem
  emptyMarker_not_terminal hmarker := wf.isTerminal_ne_emptyMarker hmarker rfl

end Predictive.Grammar
