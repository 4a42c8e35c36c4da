import Predictive.Analysis.First
import Predictive.Proofs.Analysis.Emptiness

/-!
# The search for first terminals is exact

A set that is found is just the terminals that the form begins with, and all corners of the form
are then grounded (`FirstOf`): a search that ends in a set has been through all left-corner steps.
A search that ends in an error has met a variable again, along left-corner steps from a corner of
the form: one that was guarded from the outset or a left-recursive one (`FailsAt`).
-/

namespace Predictive.Grammar

open Analysis (Ensures)
open Relation (TransGen ReflTransGen)

variable (g : Grammar)

/-- The set holds the terminals that the form begins with, and the form is grounded. -/
def FirstOf (form : List Symbol) (found : SymbolSet) : Prop :=
  g.GroundedForm form ∧ ∀ t, t ∈ found ↔ g.Begins form t

/-- The search from a symbol meets a guarded or left-recursive variable, or the symbol is
unknown. -/
def FailsAt (guard : SymbolSet) (s : Symbol) (e : GrammarError) : Prop :=
  (∃ v, e = .leftRecursion v ∧ ReflTransGen g.LeftCorner s v ∧ (v ∈ guard ∨ g.LeftRecursive v)) ∨
    g.Unknown s e

variable {g}

theorem firstOf_nil : g.FirstOf [] ∅ :=
  ⟨fun s hs => absurd hs (not_corner_nil s),
    fun t => iff_of_false Std.ExtTreeSet.not_mem_empty (not_begins_nil t)⟩

theorem WellFormed.firstOf_terminal (wf : g.WellFormed) {s : Symbol} (hs : g.isTerminal s)
    (rest : List Symbol) : g.FirstOf (s :: rest) {s} := by
  constructor
  · intro t ht
    rcases corner_cons_iff.1 ht with rfl | ⟨herased, -⟩
    · exact wf.grounded_of_isTerminal hs
    · exact absurd herased (wf.not_derives_terminal_nil hs)
  · intro t
    rw [mem_singleton_guard, wf.begins_terminal_cons_iff hs, eq_comm]

/-- Where the first symbol can be erased, the rest adds what it begins with. -/
theorem FirstOf.cons {s : Symbol} {rest : List Symbol} {found further : SymbolSet}
    (h : g.FirstOf [s] found) (hs : g.Derives [s] []) (hrest : g.FirstOf rest further) :
    g.FirstOf (s :: rest) (found ∪ further) := by
  constructor
  · intro t ht
    rcases corner_cons_iff.1 ht with rfl | ⟨-, ht⟩
    · exact h.1 t (corner_cons_iff.2 (.inl rfl))
    · exact hrest.1 t ht
  · intro t
    rw [Std.ExtTreeSet.mem_union_iff, h.2, hrest.2, @begins_cons_iff g s rest, and_iff_right hs]

/-- Where the first symbol cannot be erased, the rest adds nothing. -/
theorem FirstOf.cons_of_not_derives {s : Symbol} {found : SymbolSet} (h : g.FirstOf [s] found)
    (hs : ¬g.Derives [s] []) (rest : List Symbol) : g.FirstOf (s :: rest) found := by
  constructor
  · intro t ht
    rcases corner_cons_iff.1 ht with rfl | ⟨herased, -⟩
    · exact h.1 t (corner_cons_iff.2 (.inl rfl))
    · exact absurd herased hs
  · intro t
    rw [h.2, @begins_cons_iff g s rest, or_iff_left fun hrest => hs hrest.1]

/-- A sequence, from answers for the symbols in it that are no terminals. -/
theorem WellFormed.firstVia_ensures (wf : g.WellFormed) {start : Symbol → Analysis SymbolSet}
    {fails : Symbol → GrammarError → Prop} (hunknown : ∀ s e, g.Unknown s e → fails s e)
    {symbols : List Symbol}
    (h : ∀ s ∈ symbols, ¬g.isTerminal s →
      Ensures (Memo.Exact g) (start s) (g.FirstOf [s]) (fails s)) :
    Ensures (Memo.Exact g) (g.firstVia start symbols) (g.FirstOf symbols)
      (fun e => ∃ s, g.Corner symbols s ∧ fails s e) := by
  induction symbols with
  | nil => exact .pure firstOf_nil
  | cons s rest ih =>
    unfold firstVia
    split
    · next hterminal => exact .pure (wf.firstOf_terminal hterminal rest)
    next hterminal =>
    have hcorner : g.Corner (s :: rest) s := corner_cons_iff.2 (.inl rfl)
    have hstart : Ensures (Memo.Exact g) (start s) (g.FirstOf [s])
        (fun e => ∃ t, g.Corner (s :: rest) t ∧ fails t e) :=
      (h s List.mem_cons_self hterminal).mono_error fun e he => ⟨s, hcorner, he⟩
    refine hstart.bind fun found hfound => ?_
    split
    · next hempty =>
      obtain rfl := List.isEmpty_iff.1 hempty
      exact .pure hfound
    have hemptiness : Ensures (Memo.Exact g) (g.symbolCanBeEmpty s)
        (fun b => b = true ↔ g.Derives [s] []) (fun e => ∃ t, g.Corner (s :: rest) t ∧ fails t e) :=
      (wf.symbolCanBeEmpty_ensures s).mono_error fun e he => ⟨s, hcorner, hunknown s e he⟩
    refine hemptiness.bind fun canBeEmpty hiff => ?_
    split
    · next hcan =>
      have herased := hiff.1 hcan
      have hrest : Ensures (Memo.Exact g) (g.firstVia start rest) (g.FirstOf rest)
          (fun e => ∃ t, g.Corner (s :: rest) t ∧ fails t e) := by
        refine (ih fun t ht => h t (List.mem_cons_of_mem _ ht)).mono_error ?_
        rintro e ⟨t, ht, he⟩
        exact ⟨t, corner_cons_iff.2 (.inr ⟨herased, ht⟩), he⟩
      exact hrest.bind fun further hfurther => .pure (hfound.cons herased hfurther)
    · next hcan =>
      exact .pure (hfound.cons_of_not_derives (fun herased => hcan (hiff.2 herased)) rest)

/-- What goes wrong at a corner of a body goes wrong at the head: the variable itself may be met
again, and is left recursive then. -/
theorem FailsAt.of_corner {guard : SymbolSet} {s t : Symbol} {e : GrammarError}
    (hst : g.LeftCorner s t) (ht : g.IsSymbol t) (h : g.FailsAt (guard.insert s) t e) :
    g.FailsAt guard s e := by
  rcases h with ⟨v, rfl, htv, hv⟩ | hunknown
  · refine .inl ⟨v, rfl, .head hst htv, ?_⟩
    rcases hv with hv | hv
    · rcases mem_insert_guard.1 hv with rfl | hv
      · exact .inr (TransGen.head' hst htv)
      · exact .inl hv
    · exact .inr hv
  · exact absurd ht hunknown.2

/-- A variable, from answers for the bodies of its alternatives. -/
theorem WellFormed.firstOf_of_alternatives (wf : g.WellFormed) {s : Symbol} {found : SymbolSet}
    (hs : ¬g.isTerminal s)
    (h : (∀ r ∈ g.alternatives s, g.GroundedForm r.body) ∧
      ∀ t, t ∈ found ↔ ∃ r ∈ g.alternatives s, g.Begins r.body t) : g.FirstOf [s] found := by
  constructor
  · intro t ht
    obtain rfl := (corner_cons_iff.1 ht).resolve_right fun hrest => not_corner_nil t hrest.2
    exact grounded_of_bodies fun r hr hhead => h.1 r (wf.mem_alternatives_iff.2 ⟨hr, hhead⟩)
  · intro t
    rw [h.2, begins_singleton_iff hs]
    simp only [wf.mem_alternatives_iff, and_assoc]

theorem WellFormed.variableFirst_ensures (wf : g.WellFormed) (guard : SymbolSet) (s : Symbol) :
    ¬g.isTerminal s →
      Ensures (Memo.Exact g) (g.variableFirst guard s) (g.FirstOf [s]) (g.FailsAt guard s) := by
  induction guard, s using guard_induction (g := g) with
  | step guard s ih =>
    intro hterminal
    rw [variableFirst]
    split
    · next hguard => exact .throw (.inl ⟨s, rfl, .refl, .inl hguard⟩)
    next hguard =>
    refine (Ensures.lookUp_entry s fun memo hmemo => hmemo.first).bind fun found hfound => ?_
    cases found with
    | some known =>
      obtain ⟨-, hgrounded, hiff⟩ := hfound known rfl
      refine .pure ⟨fun t ht => ?_, hiff⟩
      obtain rfl := (corner_cons_iff.1 ht).resolve_right fun hrest => not_corner_nil t hrest.2
      exact hgrounded
    | none =>
      dsimp only
      split
      · next hrules =>
        refine .throw (.inr ⟨rfl, ?_⟩)
        rintro (hs | hs)
        · exact hterminal hs
        · exact wf.alternatives_eq_nil_iff.1 hrules hs
      next hrules =>
      have hs := mem_nonterminals_of_alternatives_ne_nil hrules
      have hbodies : ∀ r ∈ g.alternatives s, Ensures (Memo.Exact g)
          (g.firstVia (fun t => g.variableFirst (guard.insert s) t) r.body)
          (g.FirstOf r.body) (g.FailsAt guard s) := by
        intro r hr
        obtain ⟨hdeclared, hhead⟩ := wf.mem_alternatives_iff.1 hr
        have hvia := wf.firstVia_ensures (fun t e he => .inr he)
          fun t (_ : t ∈ r.body) ht => ih hguard hrules t ht
        refine hvia.mono_error ?_
        rintro e ⟨t, hcorner, he⟩
        obtain ⟨before, after, hbody, -⟩ := id hcorner
        have ht : t ∈ r.body := by simp [hbody]
        exact he.of_corner ⟨r, hdeclared, hhead, hcorner⟩ (wf.isSymbol_of_mem_body hdeclared ht)
      refine (Ensures.unionOver hbodies).bind fun found hfound => ?_
      have hfirst := wf.firstOf_of_alternatives hterminal hfound
      refine Ensures.remember_bind (fun memo hmemo => ?_) (.pure hfirst)
      have hgrounded := hfirst.1 s (corner_cons_iff.2 (.inl rfl))
      exact hmemo.insert_first hs hgrounded hfirst.2

/-- The search from a sequence under a guard. -/
theorem WellFormed.guardedFirst_ensures (wf : g.WellFormed) (guard : SymbolSet)
    (symbols : List Symbol) :
    Ensures (Memo.Exact g) (g.guardedFirst guard symbols) (g.FirstOf symbols)
      (fun e => ∃ s, g.Corner symbols s ∧ g.FailsAt guard s e) :=
  wf.firstVia_ensures (fun _ _ he => .inr he) fun s _ hs => wf.variableFirst_ensures guard s hs

/-- Without guard, and of symbols of the grammar, the only error is a left-recursive variable that
a corner leads to. -/
theorem WellFormed.first_ensures (wf : g.WellFormed) {symbols : List Symbol}
    (hsymbols : ∀ s ∈ symbols, g.IsSymbol s) :
    Ensures (Memo.Exact g) (g.first symbols) (g.FirstOf symbols)
      (fun e => ∃ v, e = .leftRecursion v ∧ g.LeftRecursive v ∧
        ∃ s, g.Corner symbols s ∧ ReflTransGen g.LeftCorner s v) := by
  refine (wf.guardedFirst_ensures ∅ symbols).mono_error ?_
  rintro e ⟨s, hcorner, ⟨v, rfl, hsv, hv⟩ | ⟨-, hunknown⟩⟩
  · exact ⟨v, rfl, hv.resolve_left Std.ExtTreeSet.not_mem_empty, s, hcorner, hsv⟩
  · obtain ⟨before, after, rfl, -⟩ := hcorner
    exact absurd (hsymbols s (by simp)) hunknown

variable (g) in
/-- The error names a left-recursive variable. -/
def IsLeftRecursion (e : GrammarError) : Prop :=
  ∃ v, e = .leftRecursion v ∧ g.LeftRecursive v

/-- Where all bodies are grounded, no error can name a left-recursive variable. -/
theorem not_isLeftRecursion_of_bodies (h : ∀ r ∈ g.rules, g.GroundedForm r.body)
    (e : GrammarError) : ¬g.IsLeftRecursion e := by
  rintro ⟨v, -, hv⟩
  exact not_leftRecursive_of_bodies h v hv

variable (g) in
/-- The error of a search that needs something grounded: it names a left-recursive variable. -/
def UngroundedError (grounded : Prop) (e : GrammarError) : Prop :=
  g.IsLeftRecursion e ∧ ¬grounded

theorem WellFormed.first_of_symbols_ensures (wf : g.WellFormed) {symbols : List Symbol}
    (hsymbols : ∀ s ∈ symbols, g.IsSymbol s) :
    Ensures (Memo.Exact g) (g.first symbols) (g.FirstOf symbols)
      (g.UngroundedError (g.GroundedForm symbols)) := by
  refine (wf.first_ensures hsymbols).mono_error ?_
  rintro e ⟨v, he, hv, s, hcorner, hsv⟩
  exact ⟨⟨v, he, hv⟩, fun hgrounded => hgrounded s hcorner v hsv hv⟩

end Predictive.Grammar
