import Predictive.Analysis.Table
import Predictive.Proofs.Grammar.Following
import Mathlib.Data.List.Forall2
import Mathlib.Data.List.Induction
import Mathlib.Data.List.Nodup
import Mathlib.Data.List.Pairwise

/-!
# Which rules a token selects

A terminal selects a rule when the body begins with it or, where the body can be erased, when it
follows the head. In a predictive table a rule is entered under the terminals that select it and,
if its body can be erased, under the reserved key; the last rule that is entered under a key keeps
it. A grammar is deterministic when no variable is left recursive and no terminal selects two rules
of one head.
-/

namespace Predictive

namespace Grammar

variable (g : Grammar)

/-- The terminal selects the rule among the alternatives of its head. -/
def Selects (r : Rule) (t : Symbol) : Prop :=
  g.Begins r.body t ∨ (g.Derives r.body [] ∧ g.Follows r.head t)

/-- All that decides what selects the rule is grounded: its body and, where that can be erased, what
follows its head. -/
def GroundedRule (r : Rule) : Prop :=
  g.GroundedForm r.body ∧ (g.Derives r.body [] → g.GroundedFollow r.head)

/-- The rule belongs under the key in the row of its head. -/
def EnteredUnder (r : Rule) (key : Symbol) : Prop :=
  g.Selects r key ∨ (key = emptyMarker ∧ g.Derives r.body [])

/-- The rule is the last of a list that belongs under the key. -/
def LastUnder (rules : List Rule) (key : Symbol) (r : Rule) : Prop :=
  ∃ before after, rules = before ++ r :: after ∧ g.EnteredUnder r key ∧
    ∀ q ∈ after, ¬g.EnteredUnder q key

/-- The rule is the first of a list that the terminal selects. -/
def FirstSelected (rules : List Rule) (t : Symbol) (r : Rule) : Prop :=
  ∃ before after, rules = before ++ r :: after ∧ g.Selects r t ∧ ∀ q ∈ before, ¬g.Selects q t

/-- No terminal selects both rules. -/
def Apart (r q : Rule) : Prop :=
  ∀ t, g.Selects r t → ¬g.Selects q t

/-- One of the two bodies at most can be erased. -/
def ErasedApart (r q : Rule) : Prop :=
  ¬(g.Derives r.body [] ∧ g.Derives q.body [])

/-- One alternative of the variable at most can be erased. -/
def OneErasable (v : Symbol) : Prop :=
  (g.alternatives v).Pairwise g.ErasedApart

/-- No variable is left recursive, and a terminal selects one rule of a head at most. -/
structure Deterministic : Prop where
  grounded : ∀ r ∈ g.rules, g.GroundedForm r.body
  apart : ∀ r ∈ g.rules, ∀ q ∈ g.rules, r.head = q.head → ∀ t, g.Selects r t → g.Selects q t →
    r = q

variable {g}

theorem Selects.isTerminal {r : Rule} {t : Symbol} (h : g.Selects r t) : g.isTerminal t := by
  rcases h with ⟨ht, -⟩ | ⟨-, ht, -⟩
  · exact ht
  · exact ht

/-- A token other than the reserved spelling finds the rules that it selects. -/
theorem enteredUnder_iff_selects {r : Rule} {t : Symbol} (ht : t ≠ emptyMarker) :
    g.EnteredUnder r t ↔ g.Selects r t :=
  or_iff_left fun h => ht h.1

/-- The reserved key finds the rules whose bodies can be erased. -/
theorem WellFormed.enteredUnder_emptyMarker_iff (wf : g.WellFormed) {r : Rule} :
    g.EnteredUnder r emptyMarker ↔ g.Derives r.body [] := by
  constructor
  · rintro (h | ⟨-, h⟩)
    · exact absurd rfl (wf.isTerminal_ne_emptyMarker h.isTerminal)
    · exact h
  · exact fun h => .inr ⟨rfl, h⟩

instance : Std.Symm g.Apart where
  symm _ _ h t hq hr := h t hr hq

instance : Std.Symm g.ErasedApart where
  symm _ _ h both := h both.symm

/-- In a deterministic grammar a terminal selects one alternative of a variable at most. -/
theorem Deterministic.eq_of_selects (hdet : g.Deterministic) (wf : g.WellFormed) {v t : Symbol}
    {r q : Rule} (hr : r ∈ g.alternatives v) (hq : q ∈ g.alternatives v) (hrt : g.Selects r t)
    (hqt : g.Selects q t) : r = q := by
  obtain ⟨hr, hrhead⟩ := wf.mem_alternatives_iff.1 hr
  obtain ⟨hq, hqhead⟩ := wf.mem_alternatives_iff.1 hq
  exact hdet.apart r hr q hq (hrhead.trans hqhead.symm) t hrt hqt

/-- In a deterministic grammar one rule at most belongs under a key in the row of a variable that
can be erased in one way at most. -/
theorem Deterministic.eq_of_enteredUnder (hdet : g.Deterministic) (wf : g.WellFormed) {v : Symbol}
    (hone : g.OneErasable v) {r q : Rule} (hr : r ∈ g.alternatives v) (hq : q ∈ g.alternatives v)
    {key : Symbol} (hrkey : g.EnteredUnder r key) (hqkey : g.EnteredUnder q key) : r = q := by
  by_cases hkey : key = emptyMarker
  · subst hkey
    by_contra hne
    refine hone.forall hr hq hne ⟨?_, ?_⟩
    · exact wf.enteredUnder_emptyMarker_iff.1 hrkey
    · exact wf.enteredUnder_emptyMarker_iff.1 hqkey
  · exact hdet.eq_of_selects wf hr hq ((enteredUnder_iff_selects hkey).1 hrkey)
      ((enteredUnder_iff_selects hkey).1 hqkey)

theorem LastUnder.mem {rules : List Rule} {key : Symbol} {r : Rule}
    (h : g.LastUnder rules key r) : r ∈ rules := by
  obtain ⟨before, after, rfl, -⟩ := h
  simp

theorem LastUnder.enteredUnder {rules : List Rule} {key : Symbol} {r : Rule}
    (h : g.LastUnder rules key r) : g.EnteredUnder r key := by
  obtain ⟨before, after, -, hentered, -⟩ := h
  exact hentered

theorem not_lastUnder_nil (key : Symbol) (r : Rule) : ¬g.LastUnder [] key r :=
  fun h => by simpa using h.mem

/-- The last rule under a key is the last of the later ones or, if none of these belongs there,
the first. -/
theorem lastUnder_cons_iff {first : Rule} {rest : List Rule} {key : Symbol} {r : Rule} :
    g.LastUnder (first :: rest) key r ↔ g.LastUnder rest key r ∨
      (r = first ∧ g.EnteredUnder first key ∧ ∀ q ∈ rest, ¬g.EnteredUnder q key) := by
  constructor
  · rintro ⟨before, after, hrules, hentered, hafter⟩
    cases before with
    | nil =>
      obtain ⟨rfl, rfl⟩ := List.cons_eq_cons.1 hrules
      exact .inr ⟨rfl, hentered, hafter⟩
    | cons a before =>
      obtain ⟨rfl, rfl⟩ := List.cons_eq_cons.1 hrules
      exact .inl ⟨before, after, rfl, hentered, hafter⟩
  · rintro (⟨before, after, rfl, hlast⟩ | ⟨rfl, hentered, hrest⟩)
    · exact ⟨first :: before, after, rfl, hlast⟩
    · exact ⟨[], rest, rfl, hentered, hrest⟩

/-- Where some rule belongs under a key, one is the last. -/
theorem exists_lastUnder {rules : List Rule} {key : Symbol}
    (h : ∃ r ∈ rules, g.EnteredUnder r key) : ∃ r, g.LastUnder rules key r := by
  induction rules with
  | nil => simp at h
  | cons first rest ih =>
    by_cases hrest : ∃ r ∈ rest, g.EnteredUnder r key
    · obtain ⟨r, hlast⟩ := ih hrest
      exact ⟨r, lastUnder_cons_iff.2 (.inl hlast)⟩
    · obtain ⟨r, hr, hentered⟩ := h
      rcases List.mem_cons.1 hr with rfl | hr
      · exact ⟨r, lastUnder_cons_iff.2 (.inr ⟨rfl, hentered, by simpa using hrest⟩)⟩
      · exact absurd ⟨r, hr, hentered⟩ hrest

/-! The first rule that a terminal selects. -/

theorem FirstSelected.mem {rules : List Rule} {t : Symbol} {r : Rule}
    (h : g.FirstSelected rules t r) : r ∈ rules := by
  obtain ⟨before, after, rfl, -⟩ := h
  simp

theorem FirstSelected.selects {rules : List Rule} {t : Symbol} {r : Rule}
    (h : g.FirstSelected rules t r) : g.Selects r t := by
  obtain ⟨before, after, -, hselects, -⟩ := h
  exact hselects

/-- Later rules do not change which rule is the first. -/
theorem FirstSelected.append {rules : List Rule} {t : Symbol} {r : Rule}
    (h : g.FirstSelected rules t r) (later : List Rule) :
    g.FirstSelected (rules ++ later) t r := by
  obtain ⟨before, after, rfl, hfirst⟩ := h
  exact ⟨before, after ++ later, by simp, hfirst⟩

/-- One more rule is the first if the terminal selects it and none before it. -/
theorem firstSelected_append_singleton_iff {rules : List Rule} {t : Symbol} {r q : Rule} :
    g.FirstSelected (rules ++ [r]) t q ↔ g.FirstSelected rules t q ∨
      (q = r ∧ g.Selects r t ∧ ∀ p ∈ rules, ¬g.Selects p t) := by
  constructor
  · rintro ⟨before, after, hrules, hselects, hbefore⟩
    rcases append_eq_append_cons_iff.1 hrules with ⟨gap, rfl, -⟩ | ⟨gap, rfl, hgap⟩
    · exact .inl ⟨before, gap, rfl, hselects, hbefore⟩
    · obtain ⟨rfl, hr⟩ := List.singleton_eq_append_iff.1 hgap |>.resolve_right (by simp)
      obtain ⟨rfl, -⟩ := List.cons_eq_cons.1 hr
      rw [List.append_nil] at hbefore
      exact .inr ⟨rfl, hselects, hbefore⟩
  · rintro (h | ⟨rfl, hselects, hrules⟩)
    · exact h.append [r]
    · exact ⟨rules, [], rfl, hselects, hrules⟩

/-- Where a terminal selects some rule, one is the first. -/
theorem exists_firstSelected {rules : List Rule} {t : Symbol}
    (h : ∃ r ∈ rules, g.Selects r t) : ∃ r, g.FirstSelected rules t r := by
  induction rules using List.reverseRecOn with
  | nil => simp at h
  | append_singleton rules r ih =>
    by_cases hrules : ∃ q ∈ rules, g.Selects q t
    · obtain ⟨q, hq⟩ := ih hrules
      exact ⟨q, hq.append [r]⟩
    · obtain ⟨q, hq, hselects⟩ := h
      rcases List.mem_append.1 hq with hq | hq
      · exact absurd ⟨q, hq, hselects⟩ hrules
      · obtain rfl := List.mem_singleton.1 hq
        have hnone : ∀ p ∈ rules, ¬g.Selects p t := by simpa using hrules
        exact ⟨q, firstSelected_append_singleton_iff.2 (.inr ⟨rfl, hselects, hnone⟩)⟩

theorem not_firstSelected_nil (t : Symbol) (r : Rule) : ¬g.FirstSelected [] t r :=
  fun h => by simpa using h.mem

/-- One rule at most is the first. -/
theorem FirstSelected.unique {rules : List Rule} {t : Symbol} {r q : Rule}
    (hr : g.FirstSelected rules t r) (hq : g.FirstSelected rules t q) : r = q := by
  classical
  have hfind : ∀ {p : Rule}, g.FirstSelected rules t p →
      rules.find? (fun p => decide (g.Selects p t)) = some p := by
    rintro p ⟨before, after, hrules, hselects, hbefore⟩
    refine List.find?_eq_some_iff_append.2 ⟨by simpa using hselects, before, after, hrules, ?_⟩
    simpa using hbefore
  exact Option.some.inj ((hfind hr).symm.trans (hfind hq))

/-- A rule in front of later ones is the first already without them. -/
theorem FirstSelected.of_append {rules later : List Rule} {t : Symbol} {r : Rule}
    (h : g.FirstSelected (rules ++ later) t r) (hr : r ∈ rules) : g.FirstSelected rules t r := by
  obtain ⟨q, hq⟩ := exists_firstSelected ⟨r, hr, h.selects⟩
  rwa [h.unique (hq.append later)]

/-- Any other rule that the terminal selects stands behind the first. -/
theorem FirstSelected.sublist {rules : List Rule} {t : Symbol} {r q : Rule}
    (h : g.FirstSelected rules t r) (hq : q ∈ rules) (hne : q ≠ r) (hselects : g.Selects q t) :
    [r, q].Sublist rules := by
  obtain ⟨before, after, rfl, -, hbefore⟩ := h
  have hafter : q ∈ after := by
    rcases List.mem_append.1 hq with hq | hq
    · exact absurd hselects (hbefore q hq)
    · exact (List.mem_cons.1 hq).resolve_left hne
  exact ((List.singleton_sublist.2 hafter).cons_cons r).trans (List.sublist_append_right before _)

/-- The rules of a grammar are told apart by their numbers. -/
theorem nodup_rules : g.rules.Nodup := by
  apply List.Nodup.of_map (·.index)
  rw [g.indexed]
  exact List.nodup_range

/-- The alternatives of a variable are different rules. -/
theorem nodup_alternatives (v : Symbol) : (g.alternatives v).Nodup := by
  rw [alternatives_eq_filter]
  exact nodup_rules.filter _

end Grammar

/-- The collision is one of two rules of a list, in their order: its symbol selects both, and none
before the first. -/
structure Collision.Among (g : Grammar) (rules : List Rule) (c : Collision) : Prop where
  ordered : [c.first, c.second].Sublist rules
  first : g.FirstSelected rules c.symbol c.first
  second : g.Selects c.second c.symbol

namespace Collision

variable {g : Grammar}

/-- Where a terminal selects two rules, the first that it selects collides with another one. -/
theorem exists_among {rules : List Rule} {t : Symbol} {r q : Rule} (hr : r ∈ rules)
    (hq : q ∈ rules) (hne : r ≠ q) (hrt : g.Selects r t) (hqt : g.Selects q t) (owner : Symbol) :
    ∃ c : Collision, c.owner = owner ∧ c.symbol = t ∧ c.Among g rules := by
  obtain ⟨first, hfirst⟩ := Grammar.exists_firstSelected ⟨r, hr, hrt⟩
  by_cases hrfirst : r = first
  · exact ⟨⟨owner, t, first, q⟩, rfl, rfl,
      hfirst.sublist hq (hrfirst ▸ hne.symm) hqt, hfirst, hqt⟩
  · exact ⟨⟨owner, t, first, r⟩, rfl, rfl, hfirst.sublist hr hrfirst hrt, hfirst, hrt⟩

theorem Among.second_mem {rules : List Rule} {c : Collision} (h : c.Among g rules) :
    c.second ∈ rules :=
  h.ordered.subset (by simp)

/-- The two rules of a collision are different ones. -/
theorem Among.first_ne_second {rules : List Rule} {c : Collision} (h : c.Among g rules)
    (hnodup : rules.Nodup) : c.first ≠ c.second := by
  have hpair := hnodup.sublist h.ordered
  simpa using hpair

/-- The first of the two rules stands in front of the second. -/
theorem Among.first_mem {front back : List Rule} {c : Collision}
    (h : c.Among g (front ++ c.second :: back)) (hnodup : (front ++ c.second :: back).Nodup) :
    c.first ∈ front := by
  obtain ⟨left, right, hpair, hleft, hright⟩ := List.sublist_append_iff.1 h.ordered
  cases left with
  | nil =>
    have hback : [c.second].Sublist back := by
      rw [List.nil_append] at hpair
      subst hpair
      exact hright.of_cons_cons
    exact absurd (hback.subset (by simp)) (List.nodup_cons.1 (List.nodup_append.1 hnodup).2.1).1
  | cons a left =>
    obtain ⟨rfl, -⟩ := List.cons_eq_cons.1 hpair
    exact hleft.subset List.mem_cons_self

end Collision

/-- The table has a row for each variable, and a row holds under each key the last alternative that
belongs there. -/
def Table.Exact (g : Grammar) (t : Table) : Prop :=
  List.Forall₂ (fun v entry => entry.1 = v ∧
    ∀ key r, entry.2[key]? = some r ↔ g.LastUnder (g.alternatives v) key r) g.nonterminals t.rows

end Predictive
