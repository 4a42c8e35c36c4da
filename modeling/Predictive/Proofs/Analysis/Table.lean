import Predictive.Analysis.Prediction
import Predictive.Proofs.Analysis.Lookahead

/-!
# The predictive table is exact

Each alternative is entered under its keys over what stands there already, so a key keeps the last
alternative that belongs under it (`rowOf_ensures`). The table has such a row for each variable
(`table_ensures`).
-/

namespace Predictive

open Analysis (Ensures)

/-- A rule is found under all keys that it is entered under. -/
theorem Row.getElem?_enter (row : Row) (r : Rule) (keys : List Symbol) (key : Symbol) :
    (row.enter r keys)[key]? = if key ∈ keys then some r else row[key]? := by
  unfold enter
  induction keys generalizing row with
  | nil => simp
  | cons k keys ih =>
    rw [List.foldl_cons, ih, Std.ExtTreeMap.getElem?_insert]
    by_cases hkeys : key ∈ keys
    · simp [hkeys]
    · simp [hkeys, @eq_comm _ k key]

/-- The rules of a row are listed among its values. -/
theorem Row.mem_values {row : Row} {key : Symbol} {r : Rule} (h : row[key]? = some r) :
    r ∈ row.values := by
  have hvalues : row.values = row.toList.map Prod.snd := by
    have hfoldr : row.values = row.foldr (fun _ r rs => r :: rs) [] := by
      rcases row with ⟨⟨m⟩⟩
      induction m using Quotient.ind
      rfl
    rw [hfoldr, Std.ExtTreeMap.foldr_eq_foldr_toList, List.map_eq_foldr]
  rw [hvalues]
  exact List.mem_map.2 ⟨(key, r), Std.ExtTreeMap.mem_toList_iff_getElem?_eq_some.2 h, rfl⟩

namespace Grammar

variable {g : Grammar}

/-- What a row holds after an alternative has been entered. -/
theorem getElem?_of_entered {row : Row} {r : Rule} {selected : SymbolSet} {canBeEmpty : Bool}
    (hselected : ∀ t, t ∈ selected ↔ g.Selects r t)
    (hempty : canBeEmpty = true ↔ g.Derives r.body []) {entered : Row}
    (hentered : entered = if canBeEmpty then (row.enter r selected.toList).enter r [emptyMarker]
      else row.enter r selected.toList) (key : Symbol) :
    (g.EnteredUnder r key → entered[key]? = some r) ∧
      (¬g.EnteredUnder r key → entered[key]? = row[key]?) := by
  have hlist : key ∈ selected.toList ↔ g.Selects r key := by
    rw [Std.ExtTreeSet.mem_toList, hselected]
  subst hentered
  unfold EnteredUnder
  cases canBeEmpty with
  | true =>
    have herased := hempty.1 rfl
    rw [if_pos rfl, Row.getElem?_enter, Row.getElem?_enter]
    by_cases hkey : key = emptyMarker
    · simp [hkey, herased]
    · by_cases hkeys : g.Selects r key
      · simp [hkey, hlist, hkeys]
      · simp [hkey, hlist, hkeys]
  | false =>
    have herased : ¬g.Derives r.body [] := fun h => Bool.noConfusion (hempty.2 h)
    rw [if_neg Bool.false_ne_true, Row.getElem?_enter]
    by_cases hkeys : g.Selects r key
    · simp [herased, hlist, hkeys]
    · simp [herased, hlist, hkeys]

/-- The alternatives are entered over a row: a key keeps the last that belongs under it, and what
it had before if there is none. -/
theorem WellFormed.rowOf_ensures (wf : g.WellFormed) {rules : List Rule}
    (hrules : ∀ r ∈ rules, r ∈ g.rules) (row : Row) :
    Ensures (Memo.Exact g) (g.rowOf rules row)
      (fun result => (∀ r ∈ rules, g.GroundedForm r.body) ∧
        ∀ key r, result[key]? = some r ↔ g.LastUnder rules key r ∨
          ((∀ q ∈ rules, ¬g.EnteredUnder q key) ∧ row[key]? = some r))
      g.IsLeftRecursion := by
  induction rules generalizing row with
  | nil =>
    unfold rowOf
    refine .pure ⟨by simp, fun key r => ?_⟩
    simp [not_lastUnder_nil]
  | cons first rest ih =>
    unfold rowOf
    have hfirst := hrules first List.mem_cons_self
    refine (wf.lookahead_ensures hfirst).bind fun selected hselected => ?_
    refine (wf.ruleCanBeEmpty_ensures hfirst).of_no_error.bind fun canBeEmpty hiff => ?_
    refine (ih (fun q hq => hrules q (List.mem_cons_of_mem _ hq)) _).mono_value ?_
    rintro result ⟨hgrounded, hresult⟩
    refine ⟨List.forall_mem_cons.2 ⟨hselected.1, hgrounded⟩, fun key r => ?_⟩
    obtain ⟨hpos, hneg⟩ := @getElem?_of_entered g row _ _ _ hselected.2 hiff _ rfl key
    rw [hresult key r, lastUnder_cons_iff, List.forall_mem_cons, or_assoc]
    refine or_congr_right ?_
    by_cases hunder : g.EnteredUnder first key
    · rw [hpos hunder]
      simp [hunder, and_comm, eq_comm]
    · rw [hneg hunder]
      simp [hunder]

/-- The table has a row for each variable, with the last alternative under each key. -/
theorem WellFormed.buildTable_ensures (wf : g.WellFormed) :
    Ensures (Memo.Exact g) g.buildTable
      (fun built => (∀ r ∈ g.rules, g.GroundedForm r.body) ∧ built.Exact g)
      g.IsLeftRecursion := by
  unfold buildTable
  have hrow : ∀ v ∈ g.nonterminals, Ensures (Memo.Exact g)
      (do return (v, ← g.rowOf (g.alternatives v) ∅))
      (fun entry : Symbol × Row => (∀ r ∈ g.alternatives v, g.GroundedForm r.body) ∧ entry.1 = v ∧
        ∀ key r, entry.2[key]? = some r ↔ g.LastUnder (g.alternatives v) key r)
      g.IsLeftRecursion := by
    intro v _
    refine (wf.rowOf_ensures (rules_of_alternatives v) ∅).bind fun row hrow =>
      .pure ⟨hrow.1, rfl, fun key r => ?_⟩
    rw [hrow.2 key r, Std.ExtTreeMap.getElem?_empty]
    simp
  refine (Ensures.forEach hrow).bind fun rows hrows => .pure ⟨?_, ?_⟩
  · intro r hr
    obtain ⟨_, -, hgrounded, -⟩ := Analysis.exists_right_of_forall₂ hrows (wf.head_mem hr)
    exact hgrounded r (wf.mem_alternatives_iff.2 ⟨hr, rfl⟩)
  · exact hrows.imp fun _ _ hentry => hentry.2

theorem WellFormed.table_ensures (wf : g.WellFormed) :
    Ensures (Memo.Exact g) g.table
      (fun built => (∀ r ∈ g.rules, g.GroundedForm r.body) ∧ built.Exact g)
      g.IsLeftRecursion := by
  unfold table
  have hlookUp : Ensures (Memo.Exact g) (Analysis.lookUp (·.table))
      (fun found => ∀ known, found = some known →
        (∀ r ∈ g.rules, g.GroundedForm r.body) ∧ known.Exact g) g.IsLeftRecursion :=
    .lookUp fun memo hmemo => hmemo.table
  refine hlookUp.bind fun found hfound => ?_
  cases found with
  | some known => exact .pure (hfound known rfl)
  | none =>
    refine wf.buildTable_ensures.bind fun built hbuilt => ?_
    refine Ensures.remember_bind (fun memo hmemo => ?_) (.pure hbuilt)
    exact hmemo.set_table hbuilt.1 hbuilt.2

end Grammar

namespace Table

/-- Rows that are listed in the order of their variables are found by them. -/
theorem lookup_of_forall₂ {p : Symbol → Row → Prop} {vs : List Symbol} {rows : List (Symbol × Row)}
    (h : List.Forall₂ (fun v entry => entry.1 = v ∧ p v entry.2) vs rows) (v : Symbol) :
    (v ∈ vs → ∃ row, rows.lookup v = some row ∧ p v row) ∧ (v ∉ vs → rows.lookup v = none) := by
  induction h with
  | nil => simp
  | @cons w entry vs rows hentry _ ih =>
    obtain ⟨name, row⟩ := entry
    obtain ⟨rfl, hrow⟩ := hentry
    by_cases hv : v = name
    · subst hv
      have hlookup : List.lookup v ((v, row) :: rows) = some row := List.lookup_cons_self
      exact ⟨fun _ => ⟨row, hlookup, hrow⟩, fun hnot => absurd List.mem_cons_self hnot⟩
    · have hlookup : List.lookup v ((name, row) :: rows) = List.lookup v rows := by
        rw [List.lookup_cons, beq_eq_false_iff_ne.2 hv]
      rw [hlookup, List.mem_cons, or_iff_right hv]
      exact ih

variable {g : Grammar} {t : Table}

/-- The rule that the table has for a variable is the last alternative under the key. -/
theorem Exact.rule?_eq_some_iff (h : t.Exact g) {v : Symbol} {next : Option Symbol} {r : Rule} :
    t.rule? v next = some r ↔ g.LastUnder (g.alternatives v) (keyOf next) r := by
  unfold rule? row
  obtain ⟨hfound, hnone⟩ := @lookup_of_forall₂
    (fun v row => ∀ key r, row[key]? = some r ↔ g.LastUnder (g.alternatives v) key r) _ _ h v
  by_cases hv : v ∈ g.nonterminals
  · obtain ⟨row, hlookup, hrow⟩ := hfound hv
    rw [hlookup]
    exact hrow _ _
  · rw [hnone hv]
    refine iff_of_false ?_ fun hlast => ?_
    · simp
    · have hmem := Grammar.mem_alternatives.1 hlast.mem
      exact hv (Grammar.mem_nonterminals.2 ⟨r, hmem⟩)

/-- The table has no rule only where no alternative belongs under the key. -/
theorem Exact.rule?_eq_none_iff (h : t.Exact g) {v : Symbol} {next : Option Symbol} :
    t.rule? v next = none ↔ ∀ r ∈ g.alternatives v, ¬g.EnteredUnder r (keyOf next) := by
  constructor
  · intro hnone r hr hentered
    obtain ⟨q, hq⟩ := Grammar.exists_lastUnder ⟨r, hr, hentered⟩
    rw [h.rule?_eq_some_iff.2 hq] at hnone
    cases hnone
  · intro hfree
    cases hrule : t.rule? v next with
    | none => rfl
    | some r =>
      have hlast := h.rule?_eq_some_iff.1 hrule
      exact absurd hlast.enteredUnder (hfree r hlast.mem)

end Table

end Predictive
