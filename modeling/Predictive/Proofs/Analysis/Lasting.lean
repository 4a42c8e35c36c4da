import Predictive.Proofs.Analysis.FollowMemory
import Predictive.Proofs.Analysis.Steadiness

/-!
# Analyses that last

An analysis lasts if all that it needs is remembered once it has come to an answer: wherever at
least as much is remembered, it has the same answer at once and adds nothing (`Lasting`). Sequences
and traversals of lasting analyses last, since nothing is forgotten in between. So it is enough to
look at the searches themselves. Without a guard their answers are not cut, hence remembered, and
what is found again is the same because the searches are steady.
-/

namespace Predictive

open Memo (Robust)

namespace Analysis

variable {α β : Type} {g : Grammar}

/-- The outcome is an answer: a value or a collision. -/
def IsAnswer : Except GrammarError α → Prop
  | .ok _ => True
  | .error e => ∃ c, e = .collision c

theorem runFrom_tryCatch_of_ok {x : Analysis α} {handle : GrammarError → Analysis α}
    {memo after : Memo} {a : α} (h : x.runFrom memo = (.ok a, after)) :
    (tryCatch x handle).runFrom memo = (.ok a, after) := by
  rw [runFrom_tryCatch, h]

theorem runFrom_tryCatch_of_error {x : Analysis α} {handle : GrammarError → Analysis α}
    {memo after : Memo} {e : GrammarError} (h : x.runFrom memo = (.error e, after)) :
    (tryCatch x handle).runFrom memo = (handle e).runFrom after := by
  rw [runFrom_tryCatch, h]

variable (g) in
/-- If the outcome is an answer, then wherever at least as much is remembered, the analysis has it
again and adds nothing. -/
def Repeats (x : Analysis α) (outcome : Except GrammarError α) (memo : Memo) : Prop :=
  IsAnswer outcome → ∀ later, later.Thorough g → memo.Within later →
    x.runFrom later = (outcome, later)

variable (g) in
/-- After the analysis, its answer needs no further search. -/
def Lasting (x : Analysis α) : Prop :=
  Leaves (Memo.Thorough g) x fun outcome memo => memo.Thorough g ∧ Repeats g x outcome memo

theorem Repeats.mono {x : Analysis α} {outcome : Except GrammarError α} {memo later : Memo}
    (hwithin : memo.Within later) (h : Repeats g x outcome memo) : Repeats g x outcome later :=
  fun hanswer last hlast hwithin' => h hanswer last hlast (hwithin.trans hwithin')

namespace Lasting

theorem leaves {x : Analysis α} (h : Lasting g x) :
    Leaves (Memo.Thorough g) x fun _ memo => memo.Thorough g :=
  h.mono fun _ _ hx => hx.1

theorem pure (a : α) : Lasting g (pure a) :=
  Leaves.pure fun _ hmemo => ⟨hmemo, fun _ _ _ _ => rfl⟩

theorem throw (e : GrammarError) : Lasting g (throw e : Analysis α) :=
  Leaves.throw fun _ hmemo => ⟨hmemo, fun _ _ _ _ => rfl⟩

/-- The answer of the first part lasts until the second one is done. -/
theorem bind {x : Analysis α} {f : α → Analysis β} (hx : Lasting g x)
    (hf : ∀ a, Lasting g (f a)) : Lasting g (x >>= f) := by
  refine Leaves.bind hx (fun e memo h => ⟨h.1, fun hanswer later hlater hwithin => ?_⟩) fun a => ?_
  · exact runFrom_bind_of_error (h.2 hanswer later hlater hwithin)
  · refine ((hf a).frame fun _ _ => Repeats.mono).mono fun outcome memo h => ?_
    refine ⟨h.1.1, fun hanswer later hlater hwithin => ?_⟩
    rw [runFrom_bind_of_ok (h.2 trivial later hlater hwithin)]
    exact h.1.2 hanswer later hlater hwithin

theorem forEach {f : α → Analysis β} {xs : List α} (h : ∀ x ∈ xs, Lasting g (f x)) :
    Lasting g (forEach f xs) := by
  induction xs with
  | nil => exact pure []
  | cons x xs ih =>
    refine (h x List.mem_cons_self).bind fun y => ?_
    exact (ih fun z hz => h z (List.mem_cons_of_mem _ hz)).bind fun ys => pure (y :: ys)

/-- A collision may be caught, as long as every other error stays one. -/
theorem tryCatch {x : Analysis α} {handle : GrammarError → Analysis α} (hx : Lasting g x)
    (hcollision : ∀ c, Lasting g (handle (.collision c)))
    (hother : ∀ e, (∀ c, e ≠ .collision c) → handle e = MonadExcept.throw e) :
    Lasting g (tryCatch x handle) := by
  intro memo hmemo
  obtain ⟨hwithin, hafter, hrepeats⟩ := hx memo hmemo
  rcases hrun : x.runFrom memo with ⟨e | a, after⟩
  all_goals rw [hrun] at hwithin hafter hrepeats
  · rw [runFrom_tryCatch_of_error hrun]
    by_cases he : ∃ c, e = .collision c
    · obtain ⟨c, rfl⟩ := he
      obtain ⟨hwithin', hafter', hrepeats'⟩ := hcollision c after hafter
      refine ⟨hwithin.trans hwithin', hafter', fun hanswer later hlater hlast => ?_⟩
      rw [runFrom_tryCatch_of_error (hrepeats ⟨c, rfl⟩ later hlater (hwithin'.trans hlast))]
      exact hrepeats' hanswer later hlater hlast
    · rw [hother e (not_exists.1 he)]
      exact ⟨hwithin, hafter, fun hanswer => absurd hanswer he⟩
  · rw [runFrom_tryCatch_of_ok hrun]
    refine ⟨hwithin, hafter, fun _ later hlater hlast => ?_⟩
    exact runFrom_tryCatch_of_ok (hrepeats trivial later hlater hlast)

/-- A steady search lasts if after a value something is known by which the next search ends at
once. -/
theorem of_known {x : Analysis α} {value : α → Prop} {error : GrammarError → Prop}
    (known : Memo → Prop) (hx : Leaves (Memo.Thorough g) x (Thoroughly g fun _ => known))
    (hlasts : ∀ memo later, memo.Within later → known memo → known later)
    (hhit : ∀ memo, known memo → ∃ a, x.runFrom memo = (.ok a, memo))
    (hsteady : Steady (Memo.Exact g) x) (hensures : Ensures (Memo.Exact g) x value error)
    (hcollision : ∀ c, ¬error (.collision c)) : Lasting g x := by
  intro memo hmemo
  obtain ⟨hwithin, hafter, hknown⟩ := hx memo hmemo
  refine ⟨hwithin, hafter, fun hanswer later hlater hlast => ?_⟩
  have hsame := hsteady.outcome_eq hmemo.exact hlater.exact
  cases houtcome : (x.runFrom memo).1 with
  | ok a =>
    rw [houtcome] at hknown hsame
    obtain ⟨b, hrun⟩ := hhit later (hlasts _ _ hlast hknown)
    rw [hrun] at hsame ⊢
    rw [hsame]
  | error e =>
    rw [houtcome] at hanswer
    obtain ⟨c, rfl⟩ := hanswer
    exact absurd (hensures.error_of_run hmemo.exact houtcome) (hcollision c)

end Lasting

/-- What is remembered is found. -/
theorem runFrom_lookUp_bind_of_mem {κ γ : Type} [Ord κ] [Std.TransOrd κ] {key : κ}
    {entries : Memo → Std.ExtTreeMap κ γ} {memo : Memo} (h : key ∈ entries memo)
    (f : Option γ → Analysis β) :
    ∃ known, (lookUp (fun memo => (entries memo)[key]?) >>= f).runFrom memo =
      (f (some known)).runFrom memo := by
  refine ⟨(entries memo)[key], ?_⟩
  rw [runFrom_bind_of_ok (runFrom_lookUp _ memo), Std.ExtTreeMap.getElem?_eq_some_getElem h]

theorem Leaves.of_within {x : Analysis α} {pre : Memo → Prop}
    (h : ∀ start : Memo, Keeps start.Within x) : Leaves pre x fun _ _ => True :=
  fun memo _ => ⟨(h memo memo (.refl memo)).1, trivial⟩

/-- A search that does not touch what follows leaves nothing missing, and an entry if one comes with
such a value. -/
theorem Leaves.of_robust_known {x : Analysis α} {value : α → Prop} {error : GrammarError → Prop}
    {entry : α → Memo → Prop} {known : Memo → Prop}
    (hexact : Ensures (Memo.Exact g) x value error) (hkeeps : ∀ inv, Robust inv → Keeps inv x)
    (hentry : Leaves (fun _ => True) x (OfValue entry))
    (hknown : ∀ a memo, value a → entry a memo → known memo) :
    Leaves (Memo.Thorough g) x (Thoroughly g fun _ => known) := by
  intro memo hmemo
  obtain ⟨hwithin, hthorough, hvalue⟩ := Leaves.of_robust hexact hkeeps memo hmemo
  have hentry := (hentry memo trivial).2
  refine ⟨hwithin, hthorough, ?_⟩
  generalize (x.runFrom memo).1 = outcome at hvalue hentry
  cases outcome with
  | ok a => exact hknown a _ hvalue hentry
  | error e => trivial

/-- For an analysis that keeps all that is remembered true it remains to see that nothing is missing
ahead. -/
theorem Leaves.thoroughly_of_closed {x : Analysis α} {value : α → Memo → Prop}
    (hexact : Keeps (Memo.Exact g) x)
    (hx : Leaves (Memo.Thorough g) x fun outcome memo =>
      memo.FollowClosed g ∧ OfValue value outcome memo) :
    Leaves (Memo.Thorough g) x (Thoroughly g value) := by
  intro memo hmemo
  obtain ⟨hwithin, hclosed, hvalue⟩ := hx memo hmemo
  exact ⟨hwithin, ⟨(hexact memo hmemo.exact).1, hclosed⟩, hvalue⟩

end Analysis

open Analysis (Ensures Keeps Steady Leaves OfValue Thoroughly Lasting runFrom_lookUp_bind_of_mem)

/-! Symbols, sequences and rules that derive the empty string. -/

theorem Emptiness.ofRule_entry {symbol : Symbol → Analysis (Cut Bool)}
    (h : ∀ inv, Robust inv → ∀ s, Keeps inv (symbol s)) (r : Rule) :
    Leaves (fun _ => True) (ofRule symbol r)
      (OfValue fun answer memo => answer.cuts = ∅ → r.index ∈ memo.ruleEmptiness) := by
  unfold ofRule
  refine .lookUp_bind fun found => ?_
  cases found with
  | some known =>
    exact .pure fun memo hmemo _ => (Std.ExtTreeMap.getElem?_eq_some_iff.1 hmemo.2).fst
  | none =>
    have hbody := fun start => ofSequence_keeps (h _ (Memo.robust_within start)) r.body
    refine (Leaves.of_within hbody).bind (fun _ _ h => h) fun answer => ?_
    refine .rememberIf_bind (fun memo => answer.cuts = ∅ → r.index ∈ memo.ruleEmptiness) ?_ ?_
      (.pure fun _ h => h)
    · intro _ memo _
      have hwithin := (Memo.robust_within memo).ruleEmptiness memo r.index answer.value (.refl memo)
      exact ⟨fun _ => Std.ExtTreeMap.mem_insert_self, hwithin⟩
    · intro hcut memo _ hcuts
      have hfinal := Std.ExtTreeSet.isEmpty_iff.2 hcuts
      exact absurd ((Bool.or_eq_false_iff.1 hcut).2.symm.trans hfinal) Bool.false_ne_true

namespace Grammar

variable {g : Grammar}

theorem symbolEmptiness_entry (guard : SymbolSet) (s : Symbol) (hguard : s ∉ guard) :
    Leaves (fun _ => True) (g.symbolEmptiness guard s)
      (OfValue fun answer memo => answer.cuts = ∅ → g.isTerminal s ∨ s ∈ memo.emptiness) := by
  rw [symbolEmptiness]
  split
  · next hterminal => exact .pure fun _ _ _ => .inl hterminal
  refine .lookUp_bind fun found => ?_
  cases found with
  | some known =>
    exact .pure fun memo hmemo _ => .inr (Std.ExtTreeMap.getElem?_eq_some_iff.1 hmemo.2).fst
  | none =>
    dsimp only
    split
    · exact .throw fun _ _ => trivial
    have halternatives (start : Memo) : Keeps start.Within
        (Emptiness.ofRules (fun t => g.symbolEmptiness (guard.insert s) t) (g.alternatives s)) :=
      Emptiness.ofRules_keeps (Memo.robust_within start)
        (symbolEmptiness_keeps (Memo.robust_within start) (guard.insert s)) _
    refine (Leaves.of_within halternatives).bind (fun _ _ h => h) fun answer => ?_
    refine .rememberIf_bind
      (fun memo => answer.cuts.erase s = ∅ → g.isTerminal s ∨ s ∈ memo.emptiness) ?_ ?_
      (.pure fun _ h => h)
    · intro _ memo _
      have hwithin := (Memo.robust_within memo).emptiness memo s answer.value (.refl memo)
      exact ⟨fun _ => .inr Std.ExtTreeMap.mem_insert_self, hwithin⟩
    · intro hcut memo _ hcuts
      have hfinal := Std.ExtTreeSet.isEmpty_iff.2 hcuts
      exact absurd ((Bool.or_eq_false_iff.1 hcut).2.symm.trans hfinal) Bool.false_ne_true

theorem WellFormed.symbolEmptiness_lasting (wf : g.WellFormed) (s : Symbol) :
    Lasting g (g.symbolEmptiness ∅ s) := by
  refine .of_known (fun memo => g.isTerminal s ∨ s ∈ memo.emptiness) ?_ ?_ ?_
    (wf.symbolEmptiness_steady s) (wf.symbolEmptiness_ensures ∅ s) ?_
  · exact .of_robust_known (wf.symbolEmptiness_ensures ∅ s)
      (fun _ hinv => symbolEmptiness_keeps hinv ∅ s)
      (symbolEmptiness_entry ∅ s Std.ExtTreeSet.not_mem_empty)
      fun _ _ hsettles hentry => hentry hsettles.cuts_eq_empty
  · exact fun _ _ hwithin => Or.imp_right (hwithin.emptiness s)
  · intro memo hknown
    rw [symbolEmptiness]
    split
    · exact ⟨_, rfl⟩
    next hterminal =>
    rw [dif_neg Std.ExtTreeSet.not_mem_empty]
    obtain ⟨known, hrun⟩ := runFrom_lookUp_bind_of_mem (hknown.resolve_left hterminal) _
    exact ⟨_, hrun⟩
  · rintro c ⟨he, -⟩
    cases he

theorem WellFormed.sequenceEmptiness_lasting (wf : g.WellFormed) (symbols : List Symbol) :
    Lasting g (g.sequenceEmptiness ∅ symbols) := by
  unfold sequenceEmptiness
  induction symbols with
  | nil => exact .pure _
  | cons s rest ih =>
    unfold Emptiness.ofSequence
    refine (wf.symbolEmptiness_lasting s).bind fun answer => ?_
    split
    · exact ih
    · exact .pure _

theorem WellFormed.bodyEmptiness_lasting (wf : g.WellFormed) {r : Rule} (hr : r ∈ g.rules) :
    Lasting g (g.bodyEmptiness ∅ r) := by
  refine .of_known (fun memo => r.index ∈ memo.ruleEmptiness) ?_ ?_ ?_
    (wf.bodyEmptiness_steady hr) (wf.bodyEmptiness_ensures ∅ hr) fun _ he => he
  · exact .of_robust_known (wf.bodyEmptiness_ensures ∅ hr)
      (fun _ hinv => bodyEmptiness_keeps hinv ∅ r)
      (Emptiness.ofRule_entry (fun _ hinv => symbolEmptiness_keeps hinv ∅) r)
      fun _ _ hsettles hentry => hentry hsettles.cuts_eq_empty
  · exact fun _ _ hwithin => hwithin.ruleEmptiness r.index
  · intro memo hknown
    obtain ⟨known, hrun⟩ := runFrom_lookUp_bind_of_mem hknown _
    exact ⟨_, hrun⟩

theorem WellFormed.symbolCanBeEmpty_lasting (wf : g.WellFormed) (s : Symbol) :
    Lasting g (g.symbolCanBeEmpty s) :=
  (wf.symbolEmptiness_lasting s).bind fun _ => .pure _

theorem WellFormed.sequenceCanBeEmpty_lasting (wf : g.WellFormed) (symbols : List Symbol) :
    Lasting g (g.sequenceCanBeEmpty symbols) :=
  (wf.sequenceEmptiness_lasting symbols).bind fun _ => .pure _

theorem WellFormed.ruleCanBeEmpty_lasting (wf : g.WellFormed) {r : Rule} (hr : r ∈ g.rules) :
    Lasting g (g.ruleCanBeEmpty r) :=
  (wf.bodyEmptiness_lasting hr).bind fun _ => .pure _

/-! The terminals that a sequence begins with. -/

theorem variableFirst_entry (guard : SymbolSet) (s : Symbol) :
    Leaves (fun _ => True) (g.variableFirst guard s) (OfValue fun _ memo => s ∈ memo.first) := by
  rw [variableFirst]
  split
  · exact .throw fun _ _ => trivial
  refine .lookUp_bind fun found => ?_
  cases found with
  | some known =>
    exact .pure fun memo hmemo => (Std.ExtTreeMap.getElem?_eq_some_iff.1 hmemo.2).fst
  | none =>
    dsimp only
    split
    · exact .throw fun _ _ => trivial
    have hbodies (start : Memo) : Keeps start.Within (Analysis.unionOver
        (fun r : Rule => g.firstVia (fun t => g.variableFirst (guard.insert s) t) r.body)
        (g.alternatives s)) :=
      Analysis.keeps_unionOver fun r _ => firstVia_keeps (Memo.robust_within start)
        (variableFirst_keeps (Memo.robust_within start) (guard.insert s)) r.body
    refine (Leaves.of_within hbodies).bind (fun _ _ h => h) fun found => ?_
    refine .remember_bind (fun memo => s ∈ memo.first) (fun memo _ => ?_) (.pure fun _ h => h)
    have hwithin := (Memo.robust_within memo).first memo s found (.refl memo)
    exact ⟨Std.ExtTreeMap.mem_insert_self, hwithin⟩

theorem WellFormed.variableFirst_lasting (wf : g.WellFormed) {s : Symbol}
    (hs : ¬g.isTerminal s) : Lasting g (g.variableFirst ∅ s) := by
  have hsteady := wf.variableFirst_steady ∅ s hs fun _ hv => absurd hv Std.ExtTreeSet.not_mem_empty
  refine .of_known (fun memo => s ∈ memo.first) ?_ ?_ ?_ hsteady
    (wf.variableFirst_ensures ∅ s hs) ?_
  · exact .of_robust_known (wf.variableFirst_ensures ∅ s hs)
      (fun _ hinv => variableFirst_keeps hinv ∅ s) (variableFirst_entry ∅ s) fun _ _ _ h => h
  · exact fun _ _ hwithin => hwithin.first s
  · intro memo hknown
    rw [variableFirst, dif_neg Std.ExtTreeSet.not_mem_empty]
    obtain ⟨known, hrun⟩ := runFrom_lookUp_bind_of_mem hknown _
    exact ⟨_, hrun⟩
  · rintro c (⟨v, he, -⟩ | ⟨he, -⟩) <;> cases he

theorem WellFormed.first_lasting (wf : g.WellFormed) (symbols : List Symbol) :
    Lasting g (g.first symbols) := by
  unfold first guardedFirst
  induction symbols with
  | nil => exact .pure _
  | cons s rest ih =>
    unfold firstVia
    split
    · exact .pure _
    next hs =>
    refine (wf.variableFirst_lasting hs).bind fun found => ?_
    split
    · exact .pure _
    refine (wf.symbolCanBeEmpty_lasting s).bind fun canBeEmpty => ?_
    split
    · exact ih.bind fun further => .pure _
    · exact .pure _

/-! The terminals that follow a symbol. -/

theorem occurrences_entry (s : Symbol) :
    Leaves (fun _ => True) (g.occurrences s) (OfValue fun _ memo => s ∈ memo.scanned) := by
  unfold occurrences
  refine .lookUp_bind fun found => ?_
  cases found with
  | some count =>
    exact .pure fun memo hmemo => (Std.ExtTreeMap.getElem?_eq_some_iff.1 hmemo.2).fst
  | none =>
    refine .remember_bind (fun memo => s ∈ memo.scanned) (fun memo _ => ?_) (.pure fun _ h => h)
    have hwithin := (Memo.robust_within memo).scanned memo s g.rules.length (.refl memo)
    exact ⟨Std.ExtTreeMap.mem_insert_self, hwithin⟩

theorem occurrences_lasting (s : Symbol) : Lasting g (g.occurrences s) := by
  have hensures := @occurrences_ensures g (fun _ => False) s
  refine .of_known (fun memo => s ∈ memo.scanned) ?_ ?_ ?_ (occurrences_steady s) hensures
    fun _ he => he
  · exact .of_robust_known hensures (fun _ hinv => occurrences_keeps hinv s) (occurrences_entry s)
      fun _ _ _ h => h
  · exact fun _ _ hwithin => hwithin.scanned s
  · intro memo hknown
    obtain ⟨count, hrun⟩ := runFrom_lookUp_bind_of_mem hknown _
    exact ⟨_, hrun⟩

/-- Without a guard, what follows a symbol is remembered. -/
theorem WellFormed.guardedFollow_entry (wf : g.WellFormed) (s : Symbol) :
    Leaves (Memo.Thorough g) (g.guardedFollow ∅ s)
      (Thoroughly g fun _ memo => s ∈ memo.follow) := by
  have hgathers := (wf.guardedFollow_leaves ∅ s).and_ensures (fun _ hmemo => hmemo.exact)
    (wf.guardedFollow_ensures ∅ s)
  refine hgathers.mono fun outcome memo h => ⟨h.1.1, ?_⟩
  obtain ⟨⟨-, hvalue⟩, houtcome⟩ := h
  cases outcome with
  | ok answer => exact hvalue.known houtcome.cuts_eq_empty
  | error e => trivial

theorem WellFormed.guardedFollow_lasting (wf : g.WellFormed) (s : Symbol) :
    Lasting g (g.guardedFollow ∅ s) := by
  refine .of_known (fun memo => s ∈ memo.follow) (wf.guardedFollow_entry s) ?_ ?_
    (wf.guardedFollow_steady s) (wf.guardedFollow_ensures ∅ s) ?_
  · exact fun _ _ hwithin => hwithin.follow s
  · intro memo hknown
    rw [guardedFollow, dif_neg Std.ExtTreeSet.not_mem_empty]
    obtain ⟨known, hrun⟩ := runFrom_lookUp_bind_of_mem hknown _
    exact ⟨_, hrun⟩
  · rintro c ⟨v, he, -⟩
    cases he

theorem WellFormed.follow_lasting (wf : g.WellFormed) (s : Symbol) : Lasting g (g.follow s) :=
  (wf.guardedFollow_lasting s).bind fun _ => .pure _

/-! The terminals that select a rule, and what is made of them. -/

theorem WellFormed.lookahead_entry (wf : g.WellFormed) {r : Rule} (hr : r ∈ g.rules) :
    Leaves (Memo.Thorough g) (g.lookahead r)
      (Thoroughly g fun _ memo => r.index ∈ memo.lookahead) := by
  refine .thoroughly_of_closed (wf.lookahead_ensures hr).keeps ?_
  unfold lookahead
  refine .lookUp_bind fun found => ?_
  cases found with
  | some known =>
    refine .pure fun memo hmemo => ⟨hmemo.1.closed, ?_⟩
    exact (Std.ExtTreeMap.getElem?_eq_some_iff.1 hmemo.2).fst
  | none =>
    have hremember (selected : SymbolSet) : Leaves (Memo.Thorough g)
        (do
          Analysis.remember fun memo =>
            { memo with lookahead := memo.lookahead.insert r.index selected }
          pure selected)
        fun outcome memo =>
          memo.FollowClosed g ∧ OfValue (fun _ memo => r.index ∈ memo.lookahead) outcome memo := by
      refine .remember_bind (fun memo => memo.FollowClosed g ∧ r.index ∈ memo.lookahead)
        (fun memo hmemo => ?_) (.pure fun _ h => h)
      have hwithin := (Memo.Within.refl memo).insert_lookahead r.index selected
      exact ⟨⟨hmemo.closed, Std.ExtTreeMap.mem_insert_self⟩, hwithin⟩
    refine ((wf.first_lasting r.body).leaves.imp_pre fun _ h => h.1).bind
      (fun _ _ h => ⟨h.closed, trivial⟩) fun found => ?_
    refine (wf.ruleCanBeEmpty_lasting hr).leaves.bind
      (fun _ _ h => ⟨h.closed, trivial⟩) fun canBeEmpty => ?_
    split
    · exact (wf.follow_lasting r.head).leaves.bind (fun _ _ h => ⟨h.closed, trivial⟩)
        fun further => hremember _
    · exact hremember _

theorem WellFormed.lookahead_lasting (wf : g.WellFormed) {r : Rule} (hr : r ∈ g.rules) :
    Lasting g (g.lookahead r) := by
  refine .of_known (fun memo => r.index ∈ memo.lookahead) (wf.lookahead_entry hr) ?_ ?_
    (wf.lookahead_steady hr) (wf.lookahead_ensures hr) ?_
  · exact fun _ _ hwithin => hwithin.lookahead r.index
  · intro memo hknown
    obtain ⟨known, hrun⟩ := runFrom_lookUp_bind_of_mem hknown _
    exact ⟨_, hrun⟩
  · rintro c ⟨v, he, -⟩
    cases he

theorem WellFormed.allFirst_lasting (wf : g.WellFormed) : Lasting g g.allFirst :=
  .forEach fun v _ => (wf.first_lasting [v]).bind fun _ => .pure _

theorem WellFormed.allFollow_lasting (wf : g.WellFormed) : Lasting g g.allFollow :=
  .forEach fun v _ => (wf.follow_lasting v).bind fun _ => .pure _

theorem WellFormed.allLookahead_lasting (wf : g.WellFormed) : Lasting g g.allLookahead :=
  .forEach fun _ hr => (wf.lookahead_lasting hr).bind fun _ => .pure _

theorem WellFormed.collisionsAmong_lasting (wf : g.WellFormed) (owner : Symbol) {rest : List Rule}
    (hrest : ∀ r ∈ rest, r ∈ g.rules) (claims : Claims) :
    Lasting g (g.collisionsAmong owner rest claims) := by
  induction rest generalizing claims with
  | nil => exact .pure _
  | cons r rest ih =>
    unfold collisionsAmong
    refine (wf.lookahead_lasting (hrest r List.mem_cons_self)).bind fun selected => ?_
    exact (ih (fun q hq => hrest q (List.mem_cons_of_mem _ hq)) _).bind fun later => .pure _

theorem WellFormed.collisions_lasting (wf : g.WellFormed) : Lasting g g.collisions := by
  have hall := Lasting.forEach fun v (_ : v ∈ g.nonterminals) =>
    wf.collisionsAmong_lasting v (rules_of_alternatives v) ∅
  exact hall.bind fun _ => .pure _

theorem WellFormed.checkAmong_lasting (wf : g.WellFormed) (owner : Symbol) {rest : List Rule}
    (hrest : ∀ r ∈ rest, r ∈ g.rules) (claims : Claims) :
    Lasting g (g.checkAmong owner rest claims) := by
  induction rest generalizing claims with
  | nil => exact .pure _
  | cons r rest ih =>
    unfold checkAmong
    refine (wf.lookahead_lasting (hrest r List.mem_cons_self)).bind fun selected => ?_
    split
    · exact .throw _
    · exact ih (fun q hq => hrest q (List.mem_cons_of_mem _ hq)) _

theorem WellFormed.checkVariables_lasting (wf : g.WellFormed) (vs : List Symbol) :
    Lasting g (g.checkVariables vs) := by
  induction vs with
  | nil => exact .pure _
  | cons v rest ih =>
    unfold checkVariables
    exact (wf.checkAmong_lasting v (rules_of_alternatives v) ∅).bind fun _ => ih

theorem WellFormed.requireDeterministic_lasting (wf : g.WellFormed) :
    Lasting g g.requireDeterministic :=
  wf.checkVariables_lasting g.nonterminals

theorem WellFormed.isDeterministic_lasting (wf : g.WellFormed) : Lasting g g.isDeterministic := by
  refine .tryCatch (wf.requireDeterministic_lasting.bind fun _ => .pure _) (fun c => .pure _)
    fun e he => ?_
  cases e with
  | collision c => exact absurd rfl (he c)
  | _ => rfl

theorem WellFormed.rowOf_lasting (wf : g.WellFormed) {rules : List Rule}
    (hrules : ∀ r ∈ rules, r ∈ g.rules) (row : Row) : Lasting g (g.rowOf rules row) := by
  induction rules generalizing row with
  | nil => exact .pure _
  | cons r rest ih =>
    unfold rowOf
    have hr := hrules r List.mem_cons_self
    refine (wf.lookahead_lasting hr).bind fun selected => ?_
    refine (wf.ruleCanBeEmpty_lasting hr).bind fun canBeEmpty => ?_
    exact ih (fun q hq => hrules q (List.mem_cons_of_mem _ hq)) _

theorem WellFormed.buildTable_lasting (wf : g.WellFormed) : Lasting g g.buildTable := by
  have hrows := Lasting.forEach fun v (_ : v ∈ g.nonterminals) =>
    (wf.rowOf_lasting (rules_of_alternatives v) ∅).bind fun row => .pure (v, row)
  exact hrows.bind fun _ => .pure _

theorem WellFormed.table_entry (wf : g.WellFormed) :
    Leaves (Memo.Thorough g) g.table (Thoroughly g fun _ memo => memo.table.isSome) := by
  refine .thoroughly_of_closed wf.table_ensures.keeps ?_
  unfold table
  refine .lookUp_bind fun found => ?_
  cases found with
  | some known =>
    exact .pure fun memo hmemo => ⟨hmemo.1.closed, Option.isSome_of_eq_some hmemo.2⟩
  | none =>
    refine (wf.buildTable_lasting.leaves.imp_pre fun _ h => h.1).bind
      (fun _ _ h => ⟨h.closed, trivial⟩) fun built => ?_
    refine .remember_bind (fun memo => memo.FollowClosed g ∧ memo.table.isSome)
      (fun memo hmemo => ?_) (.pure fun _ h => h)
    exact ⟨⟨hmemo.closed, rfl⟩, (Memo.Within.refl memo).set_table built⟩

theorem WellFormed.table_lasting (wf : g.WellFormed) : Lasting g g.table := by
  refine .of_known (fun memo => memo.table.isSome) wf.table_entry ?_ ?_ wf.table_steady
    wf.table_ensures ?_
  · exact fun _ _ hwithin => hwithin.table
  · intro memo hknown
    obtain ⟨known, htable⟩ := Option.isSome_iff_exists.1 hknown
    rw [table, Analysis.runFrom_bind_of_ok (Analysis.runFrom_lookUp _ memo), htable]
    exact ⟨known, rfl⟩
  · rintro c ⟨v, he, -⟩
    cases he

end Grammar

end Predictive
