import Mathlib
import Predictive.Proofs.Language

/-!
# Rows without overwritten entries

Once a grammar has passed the check of determinism, the lookahead sets of a variable are disjoint,
and its row in the table has an entry for each of their terminals. The check does not look at the
reserved key, under which the alternatives that can be empty are entered. If a variable has two of
them, which passes the check only where nothing follows the variable, the last overwrites the
others (`rows_disjoint_iff`).
-/

namespace Predictive

/-- The number of entries of a row is the number of its keys. -/
theorem Row.size_eq_length {row : Row} {keys : List Symbol} (hnodup : keys.Nodup)
    (hkeys : ∀ key, key ∈ row ↔ key ∈ keys) : row.size = keys.length := by
  have hrow : row.keys.Nodup := Std.ExtTreeMap.distinct_keys.imp fun hne heq =>
    hne (Std.LawfulEqCmp.compare_eq_iff_eq.2 heq)
  have hperm : row.keys.Perm keys := (List.perm_ext_iff_of_nodup hrow hnodup).2 fun key => by
    rw [Std.ExtTreeMap.mem_keys, hkeys]
  rw [← Std.ExtTreeMap.length_keys, hperm.length_eq]

theorem SymbolSet.nodup_toList (symbols : SymbolSet) : symbols.toList.Nodup :=
  Std.ExtTreeSet.distinct_toList.imp fun hne heq =>
    hne (Std.LawfulEqCmp.compare_eq_iff_eq.2 heq)

/-- Where no two elements of a list satisfy a test, one or none does. -/
theorem countP_of_pairwise {α : Type} {p : α → Bool} {xs : List α}
    (h : xs.Pairwise fun x y => ¬(p x = true ∧ p y = true)) :
    xs.countP p = if xs.any p then 1 else 0 := by
  induction h with
  | nil => rfl
  | @cons x xs hx _ ih =>
    cases hp : p x with
    | false => simp [hp, ih]
    | true =>
      have hnone : xs.countP p = 0 := List.countP_eq_zero.2 fun y hy hpy => hx y hy ⟨hp, hpy⟩
      simp [hp, hnone]

/-- What a grammar finds out about its rules: the terminals that select each, and whether its body
can be empty. -/
structure Claimed where
  selected : Rule → SymbolSet
  canBeEmpty : Rule → Bool

namespace Claimed

/-- The rule claims the key in the row of its variable. -/
def Key (c : Claimed) (r : Rule) (key : Symbol) : Prop :=
  key ∈ c.selected r ∨ (key = emptyMarker ∧ c.canBeEmpty r = true)

/-- The number of terminals that select the rules, each rule for itself. -/
def selectedCount (c : Claimed) (rules : List Rule) : Nat :=
  (rules.map fun r => (c.selected r).size).sum

/-- The keys that the rules claim, the reserved one once. -/
def keys (c : Claimed) (rules : List Rule) : List Symbol :=
  (rules.flatMap fun r => (c.selected r).toList) ++
    if rules.any c.canBeEmpty then [emptyMarker] else []

/-- This is what the grammar answers with the given memory. -/
structure Answered (g : Grammar) (memo : Memo) (c : Claimed) : Prop where
  selected : ∀ r ∈ g.rules, ((g.lookahead r).runFrom memo).1 = .ok (c.selected r)
  canBeEmpty : ∀ r ∈ g.rules, ((g.ruleCanBeEmpty r).runFrom memo).1 = .ok (c.canBeEmpty r)

/-- Each terminal in the row is claimed by one of the alternatives, which has kept it. The reserved
key has one entry if it is claimed at all. -/
structure DisjointTerminals (c : Claimed) (rules : List Rule) (row : Row) : Prop where
  /-- No terminal selects two alternatives. -/
  apart : rules.Pairwise fun r q => ∀ t ∈ c.selected r, t ∉ c.selected q
  claimed_once : ∀ key ∈ row, key ≠ emptyMarker → ∃! r, r ∈ rules ∧ c.Key r key
  kept : ∀ r ∈ rules, ∀ t ∈ c.selected r, row[t]? = some r
  size_eq : row.size = c.selectedCount rules + if rules.any c.canBeEmpty then 1 else 0

/-- Each key in the row, the reserved one included, is claimed by one of the alternatives, which has
kept it. -/
structure Disjoint (c : Claimed) (rules : List Rule) (row : Row) : Prop where
  /-- No terminal selects two alternatives. -/
  apart : rules.Pairwise fun r q => ∀ t ∈ c.selected r, t ∉ c.selected q
  /-- One alternative at most can be empty. -/
  one_empty : rules.Pairwise fun r q => ¬(c.canBeEmpty r = true ∧ c.canBeEmpty q = true)
  claimed_once : ∀ key ∈ row, ∃! r, r ∈ rules ∧ c.Key r key
  kept : ∀ r ∈ rules, ∀ key, c.Key r key → row[key]? = some r
  size_eq : row.size = c.selectedCount rules + rules.countP c.canBeEmpty

theorem length_keys (c : Claimed) (rules : List Rule) :
    (c.keys rules).length = c.selectedCount rules + if rules.any c.canBeEmpty then 1 else 0 := by
  rw [keys, List.length_append, List.length_flatMap]
  simp only [Std.ExtTreeSet.length_toList, selectedCount]
  split <;> rfl

theorem mem_keys {c : Claimed} {rules : List Rule} {key : Symbol} :
    key ∈ c.keys rules ↔ ∃ r ∈ rules, c.Key r key := by
  have hreserved : key ∈ (if rules.any c.canBeEmpty then [emptyMarker] else []) ↔
      ∃ r ∈ rules, key = emptyMarker ∧ c.canBeEmpty r = true := by
    by_cases hany : rules.any c.canBeEmpty = true
    · obtain ⟨r, hr, hempty⟩ := List.any_eq_true.1 hany
      rw [if_pos hany, List.mem_singleton]
      exact ⟨fun hkey => ⟨r, hr, hkey, hempty⟩, fun ⟨_, _, hkey, _⟩ => hkey⟩
    · rw [if_neg hany]
      refine iff_of_false List.not_mem_nil ?_
      rintro ⟨r, hr, -, hempty⟩
      exact hany (List.any_eq_true.2 ⟨r, hr, hempty⟩)
  rw [keys, List.mem_append, hreserved, List.mem_flatMap]
  simp only [Std.ExtTreeSet.mem_toList, Key, and_or_left, exists_or]

/-- Rules that share no terminal claim every key once, but for the reserved one. -/
theorem nodup_keys {c : Claimed} {rules : List Rule}
    (hmarker : ∀ r ∈ rules, emptyMarker ∉ c.selected r)
    (hapart : rules.Pairwise fun r q => ∀ t ∈ c.selected r, t ∉ c.selected q) :
    (c.keys rules).Nodup := by
  have hnodup : ∀ r ∈ rules, (c.selected r).toList.Nodup :=
    fun _ _ => SymbolSet.nodup_toList _
  refine List.nodup_append.2 ⟨List.nodup_flatMap.2 ⟨hnodup, ?_⟩, ?_, ?_⟩
  · refine hapart.imp fun hrq t hr hq => ?_
    exact hrq t (Std.ExtTreeSet.mem_toList.1 hr) (Std.ExtTreeSet.mem_toList.1 hq)
  · split <;> simp
  · rintro t ht _ hreserved rfl
    obtain ⟨r, hr, hselected⟩ := List.mem_flatMap.1 ht
    have hkey : t = emptyMarker := by
      split at hreserved
      · exact List.mem_singleton.1 hreserved
      · cases hreserved
    exact hmarker r hr (hkey ▸ Std.ExtTreeSet.mem_toList.1 hselected)

/-- The answers of the grammar. -/
def ofMemo (g : Grammar) (memo : Memo) : Claimed where
  selected r := ((g.lookahead r).runFrom memo).1.toOption.getD ∅
  canBeEmpty r := ((g.ruleCanBeEmpty r).runFrom memo).1.toOption.getD false

variable {g : Grammar} {memo : Memo} {c : Claimed}

/-- Where left recursion cannot be met there is an answer for every rule. -/
theorem answered_of_not_isLeftRecursion (wf : g.WellFormed) (hnone : ∀ e, ¬g.IsLeftRecursion e)
    (hmemo : memo.Exact g) : (ofMemo g memo).Answered g memo where
  selected r hr := by
    obtain ⟨found, hrun, -⟩ := (wf.lookahead_ensures hr).exists_value hmemo hnone
    simp [ofMemo, hrun, Except.toOption]
  canBeEmpty r hr := by
    obtain ⟨b, hrun, -⟩ := (wf.ruleCanBeEmpty_ensures hr).exists_value hmemo fun _ he => he
    simp [ofMemo, hrun, Except.toOption]

theorem answered_ofMemo (wf : g.WellFormed) (hdet : g.Deterministic) (hmemo : memo.Exact g) :
    (ofMemo g memo).Answered g memo :=
  answered_of_not_isLeftRecursion wf hdet.not_isLeftRecursion hmemo

namespace Answered

theorem mem_selected_iff (h : c.Answered g memo) (wf : g.WellFormed) (hmemo : memo.Exact g)
    {r : Rule} (hr : r ∈ g.rules) {t : Symbol} : t ∈ c.selected r ↔ g.Selects r t :=
  ((wf.lookahead_ensures hr).value_of_run hmemo (h.selected r hr)).2 t

theorem canBeEmpty_iff (h : c.Answered g memo) (wf : g.WellFormed) (hmemo : memo.Exact g)
    {r : Rule} (hr : r ∈ g.rules) : c.canBeEmpty r = true ↔ g.Derives r.body [] :=
  (wf.ruleCanBeEmpty_ensures hr).value_of_run hmemo (h.canBeEmpty r hr)

/-- A rule claims the keys that it belongs under. -/
theorem key_iff (h : c.Answered g memo) (wf : g.WellFormed) (hmemo : memo.Exact g) {r : Rule}
    (hr : r ∈ g.rules) {key : Symbol} : c.Key r key ↔ g.EnteredUnder r key := by
  rw [Key, h.mem_selected_iff wf hmemo hr, h.canBeEmpty_iff wf hmemo hr, Grammar.EnteredUnder]

theorem apart (h : c.Answered g memo) (wf : g.WellFormed) (hmemo : memo.Exact g)
    (hdet : g.Deterministic) (v : Symbol) :
    (g.alternatives v).Pairwise fun r q => ∀ t ∈ c.selected r, t ∉ c.selected q := by
  refine (Grammar.nodup_alternatives v).imp_of_mem fun {r q} hr hq hne t hrt hqt => hne ?_
  have hrule := @Grammar.rules_of_alternatives g v
  exact hdet.eq_of_selects wf hr hq ((h.mem_selected_iff wf hmemo (hrule r hr)).1 hrt)
    ((h.mem_selected_iff wf hmemo (hrule q hq)).1 hqt)

theorem oneErasable_iff (h : c.Answered g memo) (wf : g.WellFormed) (hmemo : memo.Exact g)
    {v : Symbol} : g.OneErasable v ↔
      (g.alternatives v).Pairwise fun r q => ¬(c.canBeEmpty r = true ∧ c.canBeEmpty q = true) := by
  refine List.Pairwise.iff_of_mem fun {r q} hr hq => ?_
  rw [Grammar.ErasedApart, h.canBeEmpty_iff wf hmemo (Grammar.rules_of_alternatives v r hr),
    h.canBeEmpty_iff wf hmemo (Grammar.rules_of_alternatives v q hq)]

end Answered

end Claimed

namespace Table.Exact

variable {g : Grammar} {t : Table}

theorem getElem?_row (h : t.Exact g) {v key : Symbol} {r : Rule} :
    (t.row v)[key]? = some r ↔ g.LastUnder (g.alternatives v) key r :=
  @rule?_eq_some_iff g t h v (some key) r

/-- A row has the keys that its alternatives belong under. -/
theorem mem_row_iff (h : t.Exact g) {v key : Symbol} :
    key ∈ t.row v ↔ ∃ r ∈ g.alternatives v, g.EnteredUnder r key := by
  rw [Std.ExtTreeMap.mem_iff_isSome_getElem?, Option.isSome_iff_exists]
  constructor
  · rintro ⟨r, hr⟩
    have hlast := h.getElem?_row.1 hr
    exact ⟨r, hlast.mem, hlast.enteredUnder⟩
  · intro hentered
    obtain ⟨r, hlast⟩ := Grammar.exists_lastUnder hentered
    exact ⟨r, h.getElem?_row.2 hlast⟩

end Table.Exact

namespace Claimed.Answered

variable {g : Grammar} {memo : Memo} {c : Claimed} {t : Table}

theorem mem_row_iff (h : c.Answered g memo) (wf : g.WellFormed) (hmemo : memo.Exact g)
    (ht : t.Exact g) {v key : Symbol} :
    key ∈ t.row v ↔ ∃ r ∈ g.alternatives v, c.Key r key := by
  rw [ht.mem_row_iff]
  refine exists_congr fun r => and_congr_right fun hr => ?_
  rw [h.key_iff wf hmemo (Grammar.rules_of_alternatives v r hr)]

/-- A rule keeps a key that no other alternative claims. -/
theorem kept_of_unique (h : c.Answered g memo) (wf : g.WellFormed) (hmemo : memo.Exact g)
    (ht : t.Exact g) {v key : Symbol} {r : Rule} (hr : r ∈ g.alternatives v) (hkey : c.Key r key)
    (hunique : ∀ q ∈ g.alternatives v, c.Key q key → q = r) : (t.row v)[key]? = some r := by
  have hentered := (h.key_iff wf hmemo (Grammar.rules_of_alternatives v r hr)).1 hkey
  obtain ⟨q, hlast⟩ := Grammar.exists_lastUnder ⟨r, hr, hentered⟩
  have hq := hlast.mem
  have hqkey := (h.key_iff wf hmemo (Grammar.rules_of_alternatives v q hq)).2 hlast.enteredUnder
  rw [ht.getElem?_row, ← hunique q hq hqkey]
  exact hlast

/-- Two alternatives that claim a terminal are the same. -/
theorem eq_of_terminal (h : c.Answered g memo) (wf : g.WellFormed) (hmemo : memo.Exact g)
    (hdet : g.Deterministic) {v key : Symbol} {r q : Rule} (hr : r ∈ g.alternatives v)
    (hq : q ∈ g.alternatives v) (hrkey : c.Key r key) (hqkey : c.Key q key)
    (hterminal : key ≠ emptyMarker) : r = q := by
  have hselects : ∀ s ∈ g.alternatives v, c.Key s key → g.Selects s key := by
    intro s hs hkey
    have hentered := (h.key_iff wf hmemo (Grammar.rules_of_alternatives v s hs)).1 hkey
    exact (Grammar.enteredUnder_iff_selects hterminal).1 hentered
  exact hdet.eq_of_selects wf hr hq (hselects r hr hrkey) (hselects q hq hqkey)

/-- A row has an entry for each terminal that selects an alternative, and one more if some
alternative can be empty. -/
theorem size_row (h : c.Answered g memo) (wf : g.WellFormed) (hmemo : memo.Exact g)
    (hdet : g.Deterministic) (ht : t.Exact g) (v : Symbol) :
    (t.row v).size = c.selectedCount (g.alternatives v) +
      if (g.alternatives v).any c.canBeEmpty then 1 else 0 := by
  have hmarker : ∀ r ∈ g.alternatives v, emptyMarker ∉ c.selected r := by
    intro r hr hselected
    have hselects :=
      (h.mem_selected_iff wf hmemo (Grammar.rules_of_alternatives v r hr)).1 hselected
    exact wf.isTerminal_ne_emptyMarker hselects.isTerminal rfl
  rw [← length_keys]
  refine Row.size_eq_length (nodup_keys hmarker (h.apart wf hmemo hdet v)) fun key => ?_
  rw [h.mem_row_iff wf hmemo ht, mem_keys]

/-- In a deterministic grammar the terminals of a row are never overwritten. -/
theorem disjointTerminals (h : c.Answered g memo) (wf : g.WellFormed) (hmemo : memo.Exact g)
    (hdet : g.Deterministic) (ht : t.Exact g) (v : Symbol) :
    c.DisjointTerminals (g.alternatives v) (t.row v) where
  apart := h.apart wf hmemo hdet v
  claimed_once key hkey hterminal := by
    obtain ⟨r, hr, hclaim⟩ := (h.mem_row_iff wf hmemo ht).1 hkey
    refine ⟨r, ⟨hr, hclaim⟩, fun q ⟨hq, hqclaim⟩ => ?_⟩
    exact h.eq_of_terminal wf hmemo hdet hq hr hqclaim hclaim hterminal
  kept r hr key hselected := by
    have hselects :=
      (h.mem_selected_iff wf hmemo (Grammar.rules_of_alternatives v r hr)).1 hselected
    have hterminal := wf.isTerminal_ne_emptyMarker hselects.isTerminal
    refine h.kept_of_unique wf hmemo ht hr (.inl hselected) fun q hq hqclaim => ?_
    exact h.eq_of_terminal wf hmemo hdet hq hr hqclaim (.inl hselected) hterminal
  size_eq := h.size_row wf hmemo hdet ht v

/-- In a deterministic grammar nothing in a row is overwritten just where one alternative at most
can be erased. -/
theorem disjoint_iff (h : c.Answered g memo) (wf : g.WellFormed) (hmemo : memo.Exact g)
    (hdet : g.Deterministic) (ht : t.Exact g) (v : Symbol) :
    c.Disjoint (g.alternatives v) (t.row v) ↔ g.OneErasable v := by
  refine ⟨fun hdisjoint => (h.oneErasable_iff wf hmemo).2 hdisjoint.one_empty, fun hone => ?_⟩
  have heq : ∀ {r q key}, r ∈ g.alternatives v → q ∈ g.alternatives v → c.Key r key →
      c.Key q key → r = q := by
    intro r q key hr hq hrkey hqkey
    have hrentered := (h.key_iff wf hmemo (Grammar.rules_of_alternatives v r hr)).1 hrkey
    have hqentered := (h.key_iff wf hmemo (Grammar.rules_of_alternatives v q hq)).1 hqkey
    exact hdet.eq_of_enteredUnder wf hone hr hq hrentered hqentered
  have hempty := (h.oneErasable_iff wf hmemo).1 hone
  refine ⟨h.apart wf hmemo hdet v, hempty, fun key hkey => ?_, fun r hr key hkey => ?_, ?_⟩
  · obtain ⟨r, hr, hclaim⟩ := (h.mem_row_iff wf hmemo ht).1 hkey
    exact ⟨r, ⟨hr, hclaim⟩, fun q ⟨hq, hqclaim⟩ => heq hq hr hqclaim hclaim⟩
  · exact h.kept_of_unique wf hmemo ht hr hkey fun q hq hqkey => heq hq hr hqkey hkey
  · rw [h.size_row wf hmemo hdet ht v, countP_of_pairwise hempty]

end Claimed.Answered

namespace Grammar

variable {g : Grammar}

/-- In a deterministic grammar a variable that can be erased in several ways is followed by
nothing. -/
theorem Deterministic.not_follows (hdet : g.Deterministic) (wf : g.WellFormed) {v : Symbol}
    (hseveral : ¬g.OneErasable v) (t : Symbol) : ¬g.Follows v t := by
  refine fun hfollows => hseveral ?_
  refine (nodup_alternatives v).imp_of_mem fun {r q} hr hq hne ⟨hrempty, hqempty⟩ => hne ?_
  -- What follows the variable selects every alternative that can be erased.
  have hselects : ∀ s ∈ g.alternatives v, g.Derives s.body [] → g.Selects s t := by
    intro s hs hempty
    obtain ⟨-, rfl⟩ := wf.mem_alternatives_iff.1 hs
    exact .inr ⟨hempty, hfollows⟩
  exact hdet.eq_of_selects wf hr hq (hselects r hr hrempty) (hselects q hq hqempty)

/-- Once a grammar has passed the check of determinism, each key in the row of a variable is claimed
by one alternative, and each alternative keeps what it claims, just where one alternative at most
derives the empty string. Otherwise this is still so of the terminals, and nothing follows the
variable. -/
theorem rows_disjoint_iff {text : String} (hread : ofText text = .ok g) {checked memo : Memo}
    (hchecked : g.Reachable checked) (hcheck : (g.requireDeterministic.runFrom checked).1 = .ok ())
    (hmemo : g.Reachable memo) :
    ∃ table claimed, (g.table.runFrom memo).1 = .ok table ∧ Claimed.Answered g memo claimed ∧
      ∀ v ∈ g.nonterminals,
        (claimed.Disjoint (g.alternatives v) (table.row v) ↔ g.OneErasable v) ∧
        claimed.DisjointTerminals (g.alternatives v) (table.row v) ∧
        (¬g.OneErasable v → ∀ t, ¬g.Follows v t) := by
  have wf := wellFormed_ofText hread
  have hdet := hchecked.deterministic wf hcheck
  have hexact := hmemo.exact wf
  obtain ⟨table, hrun, -, htable⟩ :=
    wf.table_ensures.exists_value hexact hdet.not_isLeftRecursion
  have hclaimed := Claimed.answered_ofMemo wf hdet hexact
  refine ⟨table, _, hrun, hclaimed, fun v _ => ⟨?_, ?_, hdet.not_follows wf⟩⟩
  · exact hclaimed.disjoint_iff wf hexact hdet htable v
  · exact hclaimed.disjointTerminals wf hexact hdet htable v

/-- A list in front of a terminal: each variable can be erased in one way at most. -/
theorem rows_disjoint_iff_of_listBeforeEnd :
    ofText "S = A b\nA = a A\nA = EMPTY" = .ok listBeforeEnd ∧
      (listBeforeEnd.requireDeterministic.runFrom {}).1 = .ok () ∧
      "A" ∈ listBeforeEnd.nonterminals ∧
      ∃ table claimed, (listBeforeEnd.table.runFrom {}).1 = .ok table ∧
        Claimed.Answered listBeforeEnd {} claimed ∧
        (claimed.Disjoint (listBeforeEnd.alternatives "A") (table.row "A") ↔
          listBeforeEnd.OneErasable "A") := by
  have hmem : "A" ∈ listBeforeEnd.nonterminals := by decide
  obtain ⟨table, claimed, hrun, hclaimed, hrows⟩ := rows_disjoint_iff ofText_listBeforeEnd .new
    requireDeterministic_listBeforeEnd .new
  exact ⟨ofText_listBeforeEnd, requireDeterministic_listBeforeEnd, hmem, table, claimed, hrun,
    hclaimed, (hrows "A" hmem).1⟩

/-- The start symbol can be erased by its first alternative and by way of another variable. -/
def erasedTwice : Grammar :=
  .ofProductions ⟨"S", []⟩ [⟨"S", ["A"]⟩, ⟨"A", []⟩]

/-- The grammar passes the check of determinism, though both alternatives of its start symbol can be
empty and the table has an entry for the last of them only. -/
theorem not_disjoint_erasedTwice :
    ofText "S = EMPTY\nS = A\nA = EMPTY" = .ok erasedTwice ∧
      (erasedTwice.requireDeterministic.runFrom {}).1 = .ok () ∧
      ∃ table claimed, (erasedTwice.table.runFrom {}).1 = .ok table ∧
        Claimed.Answered erasedTwice {} claimed ∧ (table.row "S").size = 1 ∧
        ¬claimed.Disjoint (erasedTwice.alternatives "S") (table.row "S") := by
  have hread : ofText "S = EMPTY\nS = A\nA = EMPTY" = .ok erasedTwice := rfl
  have hcheck : (erasedTwice.requireDeterministic.runFrom {}).1 = .ok () := by cbv
  have wf := wellFormed_ofText hread
  have hdet := Reachable.new.deterministic wf hcheck
  have hsizes : (erasedTwice.table.runFrom {}).1.map (fun t => (t.row "S").size) = .ok 1 := by
    cbv
  obtain ⟨table, htable, hsize⟩ := Analysis.exists_of_map_eq_ok hsizes
  have hclaimed := Claimed.answered_ofMemo wf hdet Memo.exact_empty
  refine ⟨hread, hcheck, table, _, htable, hclaimed, hsize, fun hdisjoint => ?_⟩
  have halternatives : erasedTwice.alternatives "S" =
      [⟨⟨"S", []⟩, "S", 0⟩, ⟨⟨"S", ["A"]⟩, "S", 1⟩] := by
    decide
  have hfirst : (Claimed.ofMemo erasedTwice {}).canBeEmpty ⟨⟨"S", []⟩, "S", 0⟩ = true := by cbv
  have hsecond : (Claimed.ofMemo erasedTwice {}).canBeEmpty ⟨⟨"S", ["A"]⟩, "S", 1⟩ = true := by
    cbv
  have hone := hdisjoint.one_empty
  rw [halternatives] at hone
  exact List.pairwise_pair.1 hone ⟨hfirst, hsecond⟩

end Grammar

end Predictive
