import Predictive.Proofs.Outcomes

/-!
# What the predictive table predicts

An alternative claims the terminals that its body can begin with and, if its body derives the empty
string, those that follow its variable and the reserved key. The table has a row for each variable,
and a key in it has the last alternative that claims it (`table_predicts`). The terminals that
select an alternative are entered in whatever order (`Row.enter_eq_of_mem_iff`), and none of them is
the reserved key, so what is found for a token never comes from the end of the input.
-/

namespace Predictive

/-- A row depends on which keys a rule is entered under, not on their order. -/
theorem Row.enter_eq_of_mem_iff (row : Row) (r : Rule) {keys keys' : List Symbol}
    (h : ∀ key, key ∈ keys ↔ key ∈ keys') : row.enter r keys = row.enter r keys' := by
  apply Std.ExtTreeMap.ext_getElem?
  intro key
  rw [getElem?_enter, getElem?_enter, if_congr (h key) rfl rfl]

namespace Table

/-- The rule is the last of a list that has a property. -/
def IsLast (p : Rule → Prop) (rules : List Rule) (r : Rule) : Prop :=
  ∃ before after, rules = before ++ r :: after ∧ p r ∧ ∀ q ∈ after, ¬p q

/-- The alternative claims the key in the row of the variable. -/
def ClaimsKey (g : Grammar) (v key : Symbol) (r : Rule) : Prop :=
  g.Begins r.body key ∨ (g.Derives r.body [] ∧ g.Follows v key) ∨
    (key = emptyMarker ∧ g.Derives r.body [])

/-- The table predicts the alternatives of the grammar. -/
structure Predicts (g : Grammar) (t : Table) : Prop where
  /-- There is one row for each variable, in the order of declaration. -/
  rows_eq : t.rows.map Prod.fst = g.nonterminals
  /-- A key has the last alternative that claims it, and no entry if there is none. -/
  entries : ∀ v row, (v, row) ∈ t.rows → ∀ key r,
    row[key]? = some r ↔ IsLast (ClaimsKey g v key) (g.alternatives v) r
  keys : ∀ v row, (v, row) ∈ t.rows → ∀ key ∈ row, key = emptyMarker ∨ g.isTerminal key
  /-- The reserved key is no terminal. -/
  reserved : ¬g.isTerminal emptyMarker
  /-- For a terminal the last alternative that it selects is found. -/
  ofToken : ∀ v s, g.isTerminal s → ∀ r, t.rule? v (some s) = some r ↔
    IsLast (fun q => g.Begins q.body s ∨ (g.Derives q.body [] ∧ g.Follows v s)) (g.alternatives v) r
  /-- At the end of the input the last alternative is found that derives the empty string. -/
  ofEnd : ∀ v r, t.rule? v none = some r ↔
    IsLast (fun q => g.Derives q.body []) (g.alternatives v) r

variable {g : Grammar} {t : Table}

/-- An alternative belongs under the keys that it claims. -/
theorem claimsKey_iff_enteredUnder (wf : g.WellFormed) {v key : Symbol} {r : Rule}
    (hr : r ∈ g.alternatives v) : ClaimsKey g v key r ↔ g.EnteredUnder r key := by
  obtain ⟨-, rfl⟩ := wf.mem_alternatives_iff.1 hr
  rw [ClaimsKey, Grammar.EnteredUnder, Grammar.Selects, or_assoc]

theorem lastUnder_iff_isLast {rules : List Rule} {key : Symbol} {r : Rule} :
    g.LastUnder rules key r ↔ IsLast (g.EnteredUnder · key) rules r :=
  Iff.rfl

/-- Properties that agree on a list have the same last rule there. -/
theorem isLast_congr {p q : Rule → Prop} {rules : List Rule} {r : Rule}
    (h : ∀ r ∈ rules, p r ↔ q r) : IsLast p rules r ↔ IsLast q rules r := by
  refine exists_congr fun before => exists_congr fun after => and_congr_right ?_
  rintro rfl
  refine and_congr (h r (by simp)) (forall₂_congr fun s hs => not_congr (h s (by simp [hs])))

/-- A table with exact rows predicts the alternatives. -/
theorem Exact.predicts (wf : g.WellFormed) (h : t.Exact g) : t.Predicts g := by
  have hentries : ∀ v row, (v, row) ∈ t.rows → ∀ key r,
      row[key]? = some r ↔ g.LastUnder (g.alternatives v) key r := by
    intro v row hrow
    obtain ⟨_, -, rfl, hkeys⟩ := Analysis.exists_left_of_forall₂ h hrow
    exact hkeys
  have hmarker : ¬g.isTerminal emptyMarker := fun hs => wf.isTerminal_ne_emptyMarker hs rfl
  constructor
  case rows_eq =>
    have hfirst : List.Forall₂ (fun v entry => v = entry.1) g.nonterminals t.rows :=
      h.imp fun _ _ hentry => hentry.1.symm
    rw [← List.forall₂_map_right_iff, List.forall₂_eq_eq_eq] at hfirst
    exact hfirst.symm
  case entries =>
    intro v row hrow key r
    rw [hentries v row hrow, lastUnder_iff_isLast]
    exact isLast_congr fun q hq => (claimsKey_iff_enteredUnder wf hq).symm
  case keys =>
    intro v row hrow key hkey
    rw [Std.ExtTreeMap.mem_iff_isSome_getElem?, Option.isSome_iff_exists] at hkey
    obtain ⟨r, hr⟩ := hkey
    rcases ((hentries v row hrow key r).1 hr).enteredUnder with hselects | ⟨hreserved, -⟩
    · exact .inr hselects.isTerminal
    · exact .inl hreserved
  case reserved => exact hmarker
  case ofToken =>
    intro v s hs r
    rw [h.rule?_eq_some_iff, lastUnder_iff_isLast]
    refine isLast_congr fun q hq => ?_
    obtain ⟨-, rfl⟩ := wf.mem_alternatives_iff.1 hq
    exact Grammar.enteredUnder_iff_selects (wf.isTerminal_ne_emptyMarker hs)
  case ofEnd =>
    intro v r
    rw [h.rule?_eq_some_iff, lastUnder_iff_isLast]
    exact isLast_congr fun q _ => wf.enteredUnder_emptyMarker_iff

end Table

namespace Grammar

variable {g : Grammar}

/-- A table that the grammar gives, be it built anew or remembered, predicts its alternatives,
whatever was asked before. -/
theorem table_predicts {text : String} (hread : ofText text = .ok g) {memo : Memo}
    (hmemo : g.Reachable memo) :
    (∀ t, (g.buildTable.runFrom memo).1 = .ok t → t.Predicts g) ∧
      ∀ t, (g.table.runFrom memo).1 = .ok t → t.Predicts g := by
  have wf := wellFormed_ofText hread
  have hexact := hmemo.exact wf
  constructor
  · intro t hrun
    exact (wf.buildTable_ensures.value_of_run hexact hrun).2.predicts wf
  · intro t hrun
    exact (wf.table_ensures.value_of_run hexact hrun).2.predicts wf

/-- A terminal selects both alternatives of a variable, since it can begin the first and follow the
second: the second keeps it. -/
theorem table_predicts_of_sharedFront :
    ofText "S = A A x\nS = A A y\nA = a\nA = EMPTY" = .ok sharedFront ∧
      ∃ t, (sharedFront.buildTable.runFrom {}).1 = .ok t ∧ t.Predicts sharedFront ∧
        t.rule? "A" (some "a") = some ⟨⟨"A", []⟩, "A", 3⟩ := by
  have hrules : (sharedFront.buildTable.runFrom {}).1.map (·.rule? "A" (some "a")) =
      .ok (some ⟨⟨"A", []⟩, "A", 3⟩) := by
    cbv
  obtain ⟨t, hrun, hrule⟩ := Analysis.exists_of_map_eq_ok hrules
  exact ⟨ofText_sharedFront, t, hrun, (table_predicts ofText_sharedFront .new).1 t hrun, hrule⟩

end Grammar

end Predictive
