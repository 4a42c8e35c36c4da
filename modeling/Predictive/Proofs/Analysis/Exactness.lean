import Predictive.Proofs.Analysis.Ensures
import Predictive.Proofs.Grammar.Selection

/-!
# Memories without a false entry

`Memo.Exact` says that all that is remembered about a grammar is true and complete: a symbol or
rule is remembered as empty if and only if it derives the empty string, and a remembered set holds
just the terminals that it should. A set is remembered only if all that was searched for it is
grounded. It is the invariant of all analyses. Here is what an entry has to satisfy to be
remembered, and what it gives when it is looked up.
-/

namespace Predictive

section Entries

variable {α β : Type} [Ord α] [Std.TransOrd α]

/-- All entries of a map satisfy a property. -/
def EveryEntry (entries : Std.ExtTreeMap α β) (p : α → β → Prop) : Prop :=
  ∀ key value, entries[key]? = some value → p key value

variable {p : α → β → Prop}

theorem everyEntry_empty : EveryEntry ∅ p := by
  intro key value h
  rw [Std.ExtTreeMap.getElem?_empty] at h
  cases h

theorem EveryEntry.insert [Std.LawfulEqOrd α] {entries : Std.ExtTreeMap α β}
    (h : EveryEntry entries p) {key : α} {value : β} (hp : p key value) :
    EveryEntry (entries.insert key value) p := by
  intro key' value' hentry
  rw [Std.ExtTreeMap.getElem?_insert] at hentry
  split at hentry
  · next heq =>
    obtain rfl := Std.LawfulEqCmp.compare_eq_iff_eq.1 heq
    obtain rfl := Option.some.inj hentry
    exact hp
  · exact h key' value' hentry

/-- What no entry can hold is not found. -/
theorem EveryEntry.getElem?_eq_none {entries : Std.ExtTreeMap α β} (h : EveryEntry entries p)
    {key : α} (hnone : ∀ value, ¬p key value) : entries[key]? = none := by
  cases hentry : entries[key]? with
  | none => rfl
  | some value => exact absurd (h key value hentry) (hnone value)

/-- What is found in a map has the property of its entries. -/
theorem Analysis.Ensures.lookUp_entry {inv : Memo → Prop} {error : GrammarError → Prop}
    {entries : Memo → Std.ExtTreeMap α β} (key : α)
    (h : ∀ memo, inv memo → EveryEntry (entries memo) p) :
    Ensures inv (Analysis.lookUp fun memo => (entries memo)[key]?)
      (fun found => ∀ known, found = some known → p key known) error :=
  .lookUp fun memo hmemo known hknown => h memo hmemo key known hknown

end Entries

namespace Memo

/-- All that is remembered about the grammar is true, and was found in grounded forms. -/
structure Exact (g : Grammar) (memo : Memo) : Prop where
  emptiness : EveryEntry memo.emptiness fun s known =>
    s ∈ g.nonterminals ∧ (known = true ↔ g.Derives [s] [])
  ruleEmptiness : EveryEntry memo.ruleEmptiness fun i known =>
    ∀ r ∈ g.rules, r.index = i → (known = true ↔ g.Derives r.body [])
  first : EveryEntry memo.first fun s known =>
    s ∈ g.nonterminals ∧ g.Grounded s ∧ ∀ t, t ∈ known ↔ g.Begins [s] t
  scanned : EveryEntry memo.scanned fun _ count => count = g.rules.length
  groundedFollow : EveryEntry memo.follow fun s known =>
    g.GroundedFollow s ∧ ∀ t, t ∈ known ↔ g.Follows s t
  lookahead : EveryEntry memo.lookahead fun i known =>
    ∀ r ∈ g.rules, r.index = i → g.GroundedRule r ∧ ∀ t, t ∈ known ↔ g.Selects r t
  table : ∀ known, memo.table = some known →
    (∀ r ∈ g.rules, g.GroundedForm r.body) ∧ known.Exact g

variable {g : Grammar} {memo : Memo}

/-- Nothing is remembered at the beginning. -/
theorem exact_empty : Exact g {} where
  emptiness := everyEntry_empty
  ruleEmptiness := everyEntry_empty
  first := everyEntry_empty
  scanned := everyEntry_empty
  groundedFollow := everyEntry_empty
  lookahead := everyEntry_empty
  table known h := by cases h

/-! What may be remembered. -/

namespace Exact

theorem insert_emptiness (hmemo : memo.Exact g) {s : Symbol} {known : Bool}
    (hs : s ∈ g.nonterminals) (h : known = true ↔ g.Derives [s] []) :
    Exact g { memo with emptiness := memo.emptiness.insert s known } :=
  { hmemo with emptiness := hmemo.emptiness.insert ⟨hs, h⟩ }

theorem insert_ruleEmptiness (hmemo : memo.Exact g) {r : Rule} {known : Bool} (hr : r ∈ g.rules)
    (h : known = true ↔ g.Derives r.body []) :
    Exact g { memo with ruleEmptiness := memo.ruleEmptiness.insert r.index known } := by
  refine { hmemo with ruleEmptiness := hmemo.ruleEmptiness.insert fun q hq hindex => ?_ }
  rwa [Grammar.eq_of_index_eq hq hr hindex]

theorem insert_first (hmemo : memo.Exact g) {s : Symbol} {known : SymbolSet}
    (hs : s ∈ g.nonterminals) (hgrounded : g.Grounded s) (h : ∀ t, t ∈ known ↔ g.Begins [s] t) :
    Exact g { memo with first := memo.first.insert s known } :=
  { hmemo with first := hmemo.first.insert ⟨hs, hgrounded, h⟩ }

theorem insert_scanned (hmemo : memo.Exact g) (s : Symbol) :
    Exact g { memo with scanned := memo.scanned.insert s g.rules.length } :=
  { hmemo with scanned := hmemo.scanned.insert rfl }

theorem follow (hmemo : memo.Exact g) :
    EveryEntry memo.follow fun s known => ∀ t, t ∈ known ↔ g.Follows s t :=
  fun s known hentry => (hmemo.groundedFollow s known hentry).2

theorem insert_follow (hmemo : memo.Exact g) {s : Symbol} {known : SymbolSet}
    (hgrounded : g.GroundedFollow s) (h : ∀ t, t ∈ known ↔ g.Follows s t) :
    Exact g { memo with follow := memo.follow.insert s known } :=
  { hmemo with groundedFollow := hmemo.groundedFollow.insert ⟨hgrounded, h⟩ }

theorem insert_lookahead (hmemo : memo.Exact g) {r : Rule} {known : SymbolSet} (hr : r ∈ g.rules)
    (hgrounded : g.GroundedRule r) (h : ∀ t, t ∈ known ↔ g.Selects r t) :
    Exact g { memo with lookahead := memo.lookahead.insert r.index known } := by
  refine { hmemo with lookahead := hmemo.lookahead.insert fun q hq hindex => ?_ }
  rw [Grammar.eq_of_index_eq hq hr hindex]
  exact ⟨hgrounded, h⟩

theorem set_table (hmemo : memo.Exact g) {known : Table}
    (hgrounded : ∀ r ∈ g.rules, g.GroundedForm r.body) (h : known.Exact g) :
    Exact g { memo with table := some known } :=
  { hmemo with
    table := fun found hfound => by
      obtain rfl := Option.some.inj hfound
      exact ⟨hgrounded, h⟩ }

end Exact

end Memo

/-- Induction along a guarded search: a variable with rules leads to all symbols under the guard
with itself. -/
theorem guard_induction {g : Grammar} {motive : SymbolSet → Symbol → Prop}
    (step : ∀ guard s, (s ∉ guard → g.alternatives s ≠ [] → ∀ t, motive (guard.insert s) t) →
      motive guard s) (guard : SymbolSet) (s : Symbol) : motive guard s := by
  generalize hcount : openCount g.nonterminals guard = count
  induction count using Nat.strongRecOn generalizing guard s with
  | ind count ih =>
    refine step guard s fun hguard hrules t => ?_
    have hs := Grammar.mem_nonterminals_of_alternatives_ne_nil hrules
    exact ih _ (hcount ▸ openCount_insert_lt hs hguard) (guard.insert s) t rfl

end Predictive
