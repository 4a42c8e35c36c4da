import Predictive.Proofs.Analysis.Agreement
import Predictive.Proofs.Analysis.Determinism
import Predictive.Proofs.Analysis.Table

/-!
# Searches without a guard are steady

The outcome of a search from an empty guard does not depend on what is remembered, as long as that
is true. Where all that a search goes through is grounded it has one value and no error. Where
something is not grounded, nothing of it is ever remembered, so it is searched in any case and the
same error comes first. Under a guard this holds as long as the guarded variables lead to what is
searched (`variableFirst_steady`); of what follows a symbol only the errors are the same then, since
a remembered answer is not cut (`guardedFollow_agree`).
-/

namespace Predictive

open Analysis (Ensures Keeps Agree Steady)
open Relation (TransGen ReflTransGen)

attribute [ext] Cut

namespace Emptiness

variable {g : Grammar}

/-- Without guarded variables there is one right answer. -/
theorem Settles.eq_of_unguarded {form : List Symbol} {answer answer' : Cut Bool}
    (h : Settles g ∅ form answer) (h' : Settles g ∅ form answer') : answer = answer' := by
  have hvalue : answer.value = answer'.value :=
    Bool.eq_iff_iff.2 (h.iff_of_unguarded.trans h'.iff_of_unguarded.symm)
  exact Cut.ext hvalue (h.cuts_eq_empty.trans h'.cuts_eq_empty.symm)

end Emptiness

namespace Grammar

variable {g : Grammar}

/-! The empty string. -/

theorem WellFormed.symbolEmptiness_steady (wf : g.WellFormed) (s : Symbol) :
    Steady (Memo.Exact g) (g.symbolEmptiness ∅ s) := by
  by_cases hs : g.IsSymbol s
  · exact Agree.of_no_error (wf.symbolEmptiness_ensures ∅ s) (fun _ he => he.2 hs)
      fun _ _ ha hb => ha.eq_of_unguarded hb
  · -- An unknown symbol is never remembered and has no rules.
    have hrules : g.alternatives s = [] := wf.alternatives_eq_nil_iff.2 fun hv => hs (.inr hv)
    rw [symbolEmptiness, if_neg fun ht => hs (.inl ht), dif_neg Std.ExtTreeSet.not_mem_empty]
    refine Agree.lookUp_bind (fun memo hmemo => ?_) ?_
    · exact hmemo.emptiness.getElem?_eq_none fun _ hentry => hs (.inr hentry.1)
    · dsimp only
      rw [dif_pos hrules]
      exact .throw _

theorem WellFormed.sequenceEmptiness_steady (wf : g.WellFormed) (symbols : List Symbol) :
    Steady (Memo.Exact g) (g.sequenceEmptiness ∅ symbols) := by
  unfold sequenceEmptiness
  induction symbols with
  | nil => exact .pure rfl
  | cons s rest ih =>
    unfold Emptiness.ofSequence
    refine (wf.symbolEmptiness_steady s).bind (wf.symbolEmptiness_ensures ∅ s) fun answer _ => ?_
    split
    · exact ih
    · exact .pure rfl

theorem WellFormed.bodyEmptiness_steady (wf : g.WellFormed) {r : Rule} (hr : r ∈ g.rules) :
    Steady (Memo.Exact g) (g.bodyEmptiness ∅ r) :=
  Agree.of_no_error (wf.bodyEmptiness_ensures ∅ hr) (fun _ he => he)
    fun _ _ ha hb => ha.eq_of_unguarded hb

theorem WellFormed.symbolCanBeEmpty_steady (wf : g.WellFormed) (s : Symbol) :
    Steady (Memo.Exact g) (g.symbolCanBeEmpty s) :=
  (wf.symbolEmptiness_steady s).bind_last fun _ => .pure rfl

theorem WellFormed.sequenceCanBeEmpty_steady (wf : g.WellFormed) (symbols : List Symbol) :
    Steady (Memo.Exact g) (g.sequenceCanBeEmpty symbols) :=
  (wf.sequenceEmptiness_steady symbols).bind_last fun _ => .pure rfl

theorem WellFormed.ruleCanBeEmpty_steady (wf : g.WellFormed) {r : Rule} (hr : r ∈ g.rules) :
    Steady (Memo.Exact g) (g.ruleCanBeEmpty r) :=
  (wf.bodyEmptiness_steady hr).bind_last fun _ => .pure rfl

/-! The terminals that a sequence begins with. -/

theorem FirstOf.unique {form : List Symbol} {found found' : SymbolSet}
    (h : g.FirstOf form found) (h' : g.FirstOf form found') : found = found' :=
  Std.ExtTreeSet.ext_mem fun t => (h.2 t).trans (h'.2 t).symm

/-- A sequence is steady if the searches from its corners are. -/
theorem WellFormed.firstVia_steady (wf : g.WellFormed) {start : Symbol → Analysis SymbolSet}
    {fails : Symbol → GrammarError → Prop} {symbols : List Symbol}
    (hensures : ∀ s, ¬g.isTerminal s →
      Ensures (Memo.Exact g) (start s) (g.FirstOf [s]) (fails s))
    (hstart : ∀ s, g.Corner symbols s → ¬g.isTerminal s → Steady (Memo.Exact g) (start s)) :
    Steady (Memo.Exact g) (g.firstVia start symbols) := by
  induction symbols with
  | nil => exact .pure rfl
  | cons s rest ih =>
    unfold firstVia
    split
    · exact .pure rfl
    next hterminal =>
    have hfront := hstart s (corner_cons_iff.2 (.inl rfl)) hterminal
    refine hfront.bind (hensures s hterminal) fun found _ => ?_
    split
    · exact .pure rfl
    refine (wf.symbolCanBeEmpty_steady s).bind (wf.symbolCanBeEmpty_ensures s)
      fun canBeEmpty hiff => ?_
    split
    · next hcan =>
      have hrest := ih fun t ht => hstart t (corner_cons_iff.2 (.inr ⟨hiff.1 hcan, ht⟩))
      exact hrest.bind_last fun _ => .pure rfl
    · exact .pure rfl

/-- A variable is steady under a guard that leads to it: a grounded variable is never met again, and
one that is not grounded is never remembered. -/
theorem WellFormed.variableFirst_steady (wf : g.WellFormed) (guard : SymbolSet) (s : Symbol) :
    ¬g.isTerminal s → (∀ v ∈ guard, TransGen g.LeftCorner v s) →
      Steady (Memo.Exact g) (g.variableFirst guard s) := by
  induction guard, s using guard_induction (g := g) with
  | step guard s ih =>
    intro hterminal hleads
    by_cases hfound : s ∈ g.nonterminals ∧ g.Grounded s
    · refine Agree.of_no_error (wf.variableFirst_ensures guard s hterminal) ?_
        fun _ _ ha hb => ha.unique hb
      rintro e (⟨v, -, hsv, hguard | hrec⟩ | ⟨-, hunknown⟩)
      · exact hfound.2.not_leftRecursive (TransGen.trans_right hsv (hleads v hguard))
      · exact hfound.2 v hsv hrec
      · exact hunknown (.inr hfound.1)
    rw [variableFirst]
    split
    · exact .throw _
    next hguard =>
    refine Agree.lookUp_bind (fun memo hmemo => ?_) ?_
    · exact hmemo.first.getElem?_eq_none fun _ hentry => hfound ⟨hentry.1, hentry.2.1⟩
    dsimp only
    split
    · exact .throw _
    next hrules =>
    have hbodies : ∀ r ∈ g.alternatives s, Steady (Memo.Exact g)
        (g.firstVia (fun t => g.variableFirst (guard.insert s) t) r.body) := by
      intro r hr
      obtain ⟨hdeclared, hhead⟩ := wf.mem_alternatives_iff.1 hr
      refine wf.firstVia_steady (fun t => wf.variableFirst_ensures (guard.insert s) t)
        fun t hcorner ht => ih hguard hrules t ht fun v hv => ?_
      have hst : g.LeftCorner s t := ⟨r, hdeclared, hhead, hcorner⟩
      rcases mem_insert_guard.1 hv with rfl | hv
      · exact .single hst
      · exact (hleads v hv).tail hst
    have hkeeps : ∀ r ∈ g.alternatives s, Keeps (Memo.Exact g)
        (g.firstVia (fun t => g.variableFirst (guard.insert s) t) r.body) :=
      fun r _ => (wf.guardedFirst_ensures (guard.insert s) r.body).keeps
    exact (Steady.unionOver hbodies hkeeps).bind_last fun _ => .remember_pure

theorem WellFormed.first_steady (wf : g.WellFormed) (symbols : List Symbol) :
    Steady (Memo.Exact g) (g.first symbols) :=
  wf.firstVia_steady (fun s => wf.variableFirst_ensures ∅ s) fun s _ hs =>
    wf.variableFirst_steady ∅ s hs fun _ hv => absurd hv Std.ExtTreeSet.not_mem_empty

theorem WellFormed.first_keeps (wf : g.WellFormed) (symbols : List Symbol) :
    Keeps (Memo.Exact g) (g.first symbols) :=
  (wf.guardedFirst_ensures ∅ symbols).keeps

/-! The terminals that follow a symbol. -/

theorem occurrences_steady (s : Symbol) : Steady (Memo.Exact g) (g.occurrences s) :=
  Agree.of_no_error (@occurrences_ensures g (fun _ => False) s) (fun _ he => he)
    fun _ _ ha hb => ha.trans hb.symm

/-- At some occurrences the same error comes first if that is so for the heads of their rules. -/
theorem WellFormed.followVia_agree (wf : g.WellFormed)
    {head : Occurrence g → Analysis (Cut SymbolSet)} (os : List (Occurrence g))
    (hkeeps : ∀ o, Keeps (Memo.Exact g) (head o))
    (hhead : ∀ o, Agree (Memo.Exact g) (fun _ _ => True) (head o) (head o)) :
    Agree (Memo.Exact g) (fun _ _ => True) (g.followVia head os) (g.followVia head os) := by
  induction os with
  | nil => exact .pure trivial
  | cons o os ih =>
    unfold followVia
    refine Agree.bind (wf.first_steady o.rest) (wf.first_keeps o.rest) fun _ _ _ _ _ => ?_
    refine Agree.bind (wf.sequenceCanBeEmpty_steady o.rest) (wf.sequenceCanBeEmpty_ensures o.rest)
      fun canBeEmpty _ heq _ _ => ?_
    subst heq
    split
    · refine (hhead o).bind (hkeeps o) fun _ _ _ _ _ => ?_
      exact ih.bind_last fun _ _ _ => .pure trivial
    · exact ih.bind_last fun _ _ _ => .pure trivial

/-- Whatever is remembered, the same error comes first under a guard. -/
theorem WellFormed.guardedFollow_agree (wf : g.WellFormed) (guard : SymbolSet) (s : Symbol) :
    Agree (Memo.Exact g) (fun _ _ => True) (g.guardedFollow guard s) (g.guardedFollow guard s) := by
  induction guard, s using follow_induction (g := g) with
  | step guard s ih =>
    by_cases hgrounded : g.GroundedFollow s
    · exact Agree.of_no_error (wf.guardedFollow_ensures_grounded guard s)
        (fun _ he => he.2 hgrounded) fun _ _ _ _ => trivial
    rw [guardedFollow]
    split
    · exact .pure trivial
    next hguard =>
    refine Agree.lookUp_bind (fun memo hmemo => ?_) ?_
    · exact hmemo.groundedFollow.getElem?_eq_none fun _ hentry => hgrounded hentry.1
    dsimp only
    refine Agree.bind (occurrences_steady s) (@occurrences_ensures g (fun _ => False) s)
      fun os _ heq _ _ => ?_
    subst heq
    have hvia := wf.followVia_agree os
      (fun o => (wf.guardedFollow_ensures (guard.insert s) o.rule.head).keeps)
      fun o => ih hguard o.rule.head (mem_heads o.declared)
    exact hvia.bind_last fun _ _ _ => .rememberIf_pure trivial

theorem WellFormed.guardedFollow_steady (wf : g.WellFormed) (s : Symbol) :
    Steady (Memo.Exact g) (g.guardedFollow ∅ s) := by
  refine (wf.guardedFollow_agree ∅ s).mono_of_value (wf.guardedFollow_ensures ∅ s)
    fun a b _ ha hb => ?_
  have hvalue : a.value = b.value := Std.ExtTreeSet.ext_mem fun t =>
    (wf.iff_of_followOf ha ha.cuts_eq_empty t).trans (wf.iff_of_followOf hb hb.cuts_eq_empty t).symm
  exact Cut.ext hvalue (ha.cuts_eq_empty.trans hb.cuts_eq_empty.symm)

theorem WellFormed.follow_steady (wf : g.WellFormed) (s : Symbol) :
    Steady (Memo.Exact g) (g.follow s) :=
  (wf.guardedFollow_steady s).bind_last fun _ => .pure rfl

/-! The terminals that select a rule, and what is made of them. -/

theorem WellFormed.lookahead_steady (wf : g.WellFormed) {r : Rule} (hr : r ∈ g.rules) :
    Steady (Memo.Exact g) (g.lookahead r) := by
  by_cases hgrounded : g.GroundedRule r
  · exact Agree.of_no_error (wf.lookahead_ensures_grounded hr) (fun _ he => he.2 hgrounded)
      fun _ _ ha hb => Std.ExtTreeSet.ext_mem fun t => (ha.2 t).trans (hb.2 t).symm
  unfold lookahead
  refine Agree.lookUp_bind (fun memo hmemo => ?_) ?_
  · exact hmemo.lookahead.getElem?_eq_none fun _ hentry => hgrounded (hentry r hr rfl).1
  dsimp only
  refine (wf.first_steady r.body).bind (wf.first_keeps r.body) fun found _ => ?_
  refine (wf.ruleCanBeEmpty_steady hr).bind (wf.ruleCanBeEmpty_ensures hr) fun canBeEmpty _ => ?_
  split
  · exact (wf.follow_steady r.head).bind_last fun _ => .remember_pure
  · exact .remember_pure

theorem WellFormed.allFirst_steady (wf : g.WellFormed) : Steady (Memo.Exact g) g.allFirst :=
  Steady.forEach (fun v _ => (wf.first_steady [v]).bind_last fun _ => .pure rfl)
    fun v _ => (wf.first_keeps [v]).bind fun _ _ => .pure trivial

theorem WellFormed.allFollow_steady (wf : g.WellFormed) : Steady (Memo.Exact g) g.allFollow :=
  Steady.forEach (fun v _ => (wf.follow_steady v).bind_last fun _ => .pure rfl)
    fun v _ => (wf.follow_ensures v).keeps.bind fun _ _ => .pure trivial

theorem WellFormed.allLookahead_steady (wf : g.WellFormed) :
    Steady (Memo.Exact g) g.allLookahead :=
  Steady.forEach (fun _ hr => (wf.lookahead_steady hr).bind_last fun _ => .pure rfl)
    fun _ hr => (wf.lookahead_ensures hr).keeps.bind fun _ _ => .pure trivial

theorem WellFormed.collisionsAmong_steady (wf : g.WellFormed) (owner : Symbol) {rest : List Rule}
    (hrest : ∀ r ∈ rest, r ∈ g.rules) (claims : Claims) :
    Steady (Memo.Exact g) (g.collisionsAmong owner rest claims) := by
  induction rest generalizing claims with
  | nil => exact .pure rfl
  | cons r rest ih =>
    unfold collisionsAmong
    have hr := hrest r List.mem_cons_self
    refine (wf.lookahead_steady hr).bind (wf.lookahead_ensures hr) fun selected _ => ?_
    have hlater := ih (fun q hq => hrest q (List.mem_cons_of_mem _ hq)) (claims.add r selected)
    exact hlater.bind_last fun _ => .pure rfl

theorem WellFormed.collisions_steady (wf : g.WellFormed) : Steady (Memo.Exact g) g.collisions := by
  have hall := Steady.forEach (fun v (_ : v ∈ g.nonterminals) =>
    wf.collisionsAmong_steady v (rules_of_alternatives v) ∅)
    fun v _ => (wf.collisionsAmong_ensures v (rules_of_alternatives v) Claims.heldFor_nil
      (nodup_alternatives v)).keeps
  exact hall.bind_last fun _ => .pure rfl

theorem WellFormed.checkAmong_steady (wf : g.WellFormed) (owner : Symbol) {rest : List Rule}
    (hrest : ∀ r ∈ rest, r ∈ g.rules) (claims : Claims) :
    Steady (Memo.Exact g) (g.checkAmong owner rest claims) := by
  induction rest generalizing claims with
  | nil => exact .pure rfl
  | cons r rest ih =>
    unfold checkAmong
    have hr := hrest r List.mem_cons_self
    refine (wf.lookahead_steady hr).bind (wf.lookahead_ensures hr) fun selected _ => ?_
    split
    · exact .throw _
    · exact ih (fun q hq => hrest q (List.mem_cons_of_mem _ hq)) (claims.add r selected)

theorem WellFormed.checkVariables_steady (wf : g.WellFormed) (vs : List Symbol) :
    Steady (Memo.Exact g) (g.checkVariables vs) := by
  induction vs with
  | nil => exact .pure rfl
  | cons v rest ih =>
    unfold checkVariables
    exact (wf.checkAmong_steady v (rules_of_alternatives v) ∅).bind
      (wf.checkAmong_ensures v (rules_of_alternatives v) Claims.heldFor_nil .nil) fun _ _ => ih

theorem WellFormed.requireDeterministic_steady (wf : g.WellFormed) :
    Steady (Memo.Exact g) g.requireDeterministic :=
  wf.checkVariables_steady g.nonterminals

theorem WellFormed.isDeterministic_steady (wf : g.WellFormed) :
    Steady (Memo.Exact g) g.isDeterministic := by
  unfold isDeterministic
  have hyes : Ensures (Memo.Exact g) (do g.requireDeterministic; return true) (fun _ => True)
      (g.Refutes g.nonterminals) := wf.requireDeterministic_ensures.bind fun _ _ => .pure trivial
  refine Steady.tryCatch (wf.requireDeterministic_steady.bind_last fun _ => .pure rfl) hyes
    fun e _ => ?_
  split
  · exact .pure rfl
  · exact .throw _

theorem WellFormed.rowOf_steady (wf : g.WellFormed) {rules : List Rule}
    (hrules : ∀ r ∈ rules, r ∈ g.rules) (row : Row) :
    Steady (Memo.Exact g) (g.rowOf rules row) := by
  induction rules generalizing row with
  | nil => exact .pure rfl
  | cons r rest ih =>
    unfold rowOf
    have hr := hrules r List.mem_cons_self
    refine (wf.lookahead_steady hr).bind (wf.lookahead_ensures hr) fun selected _ => ?_
    refine (wf.ruleCanBeEmpty_steady hr).bind (wf.ruleCanBeEmpty_ensures hr) fun canBeEmpty _ => ?_
    exact ih (fun q hq => hrules q (List.mem_cons_of_mem _ hq)) _

theorem WellFormed.buildTable_steady (wf : g.WellFormed) : Steady (Memo.Exact g) g.buildTable := by
  have hrow : ∀ v, Steady (Memo.Exact g) (do return (v, ← g.rowOf (g.alternatives v) ∅)) :=
    fun v => (wf.rowOf_steady (rules_of_alternatives v) ∅).bind_last fun _ => .pure rfl
  have hrows := Steady.forEach (fun v (_ : v ∈ g.nonterminals) => hrow v)
    fun v _ => (wf.rowOf_ensures (rules_of_alternatives v) ∅).keeps.bind fun _ _ => .pure trivial
  exact hrows.bind_last fun _ => .pure rfl

end Grammar

/-- A grammar has one exact table. -/
theorem Table.Exact.unique {g : Grammar} {t t' : Table} (h : t.Exact g) (h' : t'.Exact g) :
    t = t' := by
  have hrows : t.rows = t'.rows := by
    refine List.right_unique_forall₂' ?_ h h'
    rintro v ⟨name, row⟩ ⟨name', row'⟩ ⟨rfl, hrow⟩ ⟨hname, hrow'⟩
    have heq : row = row' := Std.ExtTreeMap.ext_getElem? fun key =>
      Option.ext fun r => (hrow key r).trans (hrow' key r).symm
    exact Prod.ext hname.symm heq
  cases t
  cases t'
  exact congrArg Table.mk hrows

namespace Grammar

variable {g : Grammar}

theorem WellFormed.table_steady (wf : g.WellFormed) : Steady (Memo.Exact g) g.table := by
  by_cases hgrounded : ∀ r ∈ g.rules, g.GroundedForm r.body
  · exact Agree.of_no_error wf.table_ensures (not_isLeftRecursion_of_bodies hgrounded)
      fun _ _ ha hb => ha.2.unique hb.2
  unfold table
  refine Agree.lookUp_bind (fun memo hmemo => ?_) ?_
  · cases htable : memo.table with
    | none => rfl
    | some known => exact absurd (hmemo.table known htable).1 hgrounded
  · exact wf.buildTable_steady.bind_last fun _ => .remember_pure

end Grammar

end Predictive
