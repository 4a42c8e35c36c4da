import Predictive.Analysis.Emptiness
import Predictive.Proofs.Analysis.Exactness
import Predictive.Proofs.Grammar.Erasing

/-!
# The search for empty symbols is exact

An answer settles whether a form derives the empty string: a positive one is not cut, and a
negative one says that the form cannot be erased without expanding one of the guarded variables
that it was cut at (`Settles`). Every step of the search gives such an answer from the answers
below it. That a variable may drop itself from the cuts is `Grammar.erases_singleton_iff`.
-/

namespace Predictive

open Analysis (Ensures)

theorem mem_erase_guard {guard : SymbolSet} {s t : Symbol} :
    t ∈ guard.erase s ↔ s ≠ t ∧ t ∈ guard := by
  rw [Std.ExtTreeSet.mem_erase, ne_eq, Std.LawfulEqCmp.compare_eq_iff_eq]

theorem mem_singleton_guard {s t : Symbol} : t ∈ ({s} : SymbolSet) ↔ s = t := by
  rw [Std.ExtTreeSet.singleton_eq_insert, mem_insert_guard]
  simp

/-- Where nothing is guarded, nothing is cut. -/
theorem eq_empty_of_unguarded {cuts : SymbolSet} (h : ∀ s ∈ cuts, s ∈ (∅ : SymbolSet)) :
    cuts = ∅ :=
  Std.ExtTreeSet.ext_mem fun s =>
    iff_of_false (fun hs => Std.ExtTreeSet.not_mem_empty (h s hs)) Std.ExtTreeSet.not_mem_empty

namespace Emptiness

variable {g : Grammar} {guard : SymbolSet}

/-- The answer is right about the form: a positive one is not cut, and a negative one is cut at
guarded variables, one of which is expanded whenever the form is erased. -/
structure Settles (g : Grammar) (guard : SymbolSet) (form : List Symbol) (answer : Cut Bool) :
    Prop where
  yes : answer.value = true → answer.cuts = ∅ ∧ g.Derives form []
  no : answer.value = false → (∀ s ∈ answer.cuts, s ∈ guard) ∧ ¬g.Erases answer.cuts form

/-- An answer without cuts is settled by what the form derives. -/
theorem settles_of_iff {form : List Symbol} {known : Bool}
    (h : known = true ↔ g.Derives form []) : Settles g guard form { value := known } where
  yes hyes := ⟨rfl, h.1 hyes⟩
  no hno := by
    refine ⟨fun s hs => absurd hs Std.ExtTreeSet.not_mem_empty, fun herases => ?_⟩
    have hyes : known = true := h.2 (Grammar.erases_empty_iff.1 herases)
    exact Bool.noConfusion (hyes.symm.trans hno)

/-- Without guarded variables an answer is the truth. -/
theorem Settles.iff_of_unguarded {form : List Symbol} {answer : Cut Bool}
    (h : Settles g ∅ form answer) : answer.value = true ↔ g.Derives form [] := by
  refine ⟨fun hyes => (h.yes hyes).2, fun hderives => ?_⟩
  cases hvalue : answer.value with
  | true => rfl
  | false =>
    obtain ⟨hguard, herases⟩ := h.no hvalue
    refine absurd ((Grammar.erases_empty_iff.2 hderives).mono fun s hs => ?_) herases
    exact absurd (hguard s hs) Std.ExtTreeSet.not_mem_empty

theorem Settles.cuts_eq_empty {form : List Symbol} {answer : Cut Bool}
    (h : Settles g ∅ form answer) : answer.cuts = ∅ := by
  cases hvalue : answer.value with
  | true => exact (h.yes hvalue).1
  | false => exact eq_empty_of_unguarded (h.no hvalue).1

/-- An answer that is worth to be remembered is the truth. -/
theorem Settles.iff_of_worth {form : List Symbol} {answer : Cut Bool}
    (h : Settles g guard form answer) (hworth : (answer.value || answer.isFinal) = true) :
    answer.value = true ↔ g.Derives form [] := by
  cases hvalue : answer.value with
  | true => simpa using (h.yes hvalue).2
  | false =>
    rw [hvalue, Bool.false_or] at hworth
    have hcuts : answer.cuts = ∅ := Std.ExtTreeSet.isEmpty_iff.1 hworth
    have hno := (h.no hvalue).2
    rw [hcuts, Grammar.erases_empty_iff] at hno
    simpa using hno

/-- Alternatives: a positive answer is not cut and comes from one of them, and a negative one holds
of all of them. -/
structure SettlesRules (g : Grammar) (guard : SymbolSet) (rules : List Rule) (answer : Cut Bool) :
    Prop where
  yes : answer.value = true → answer.cuts = ∅ ∧ ∃ r ∈ rules, g.Derives r.body []
  no : answer.value = false →
    (∀ s ∈ answer.cuts, s ∈ guard) ∧ ∀ r ∈ rules, ¬g.Erases answer.cuts r.body

variable {symbol : Symbol → Analysis (Cut Bool)} {error : GrammarError → Prop}

theorem ofSequence_ensures {symbols : List Symbol}
    (h : ∀ s ∈ symbols, Ensures (Memo.Exact g) (symbol s) (Settles g guard [s]) error) :
    Ensures (Memo.Exact g) (ofSequence symbol symbols) (Settles g guard symbols) error := by
  induction symbols with
  | nil => exact .pure ⟨fun _ => ⟨rfl, .refl []⟩, nofun⟩
  | cons s rest ih =>
    unfold ofSequence
    refine (h s List.mem_cons_self).bind fun answer hs => ?_
    split
    · next hvalue =>
      refine (ih fun t ht => h t (List.mem_cons_of_mem _ ht)).mono_value ?_
      intro others hrest
      constructor
      · intro hyes
        obtain ⟨hcuts, hderives⟩ := hrest.yes hyes
        exact ⟨hcuts, Grammar.derives_cons_nil_iff.2 ⟨(hs.yes hvalue).2, hderives⟩⟩
      · intro hno
        obtain ⟨hguard, herases⟩ := hrest.no hno
        exact ⟨hguard, fun herased => herases (Grammar.erases_cons_iff.1 herased).2⟩
    · next hvalue =>
      refine .pure ⟨fun hyes => absurd hyes hvalue, fun hno => ?_⟩
      obtain ⟨hguard, herases⟩ := hs.no hno
      exact ⟨hguard, fun herased => herases (Grammar.erases_cons_iff.1 herased).1⟩

theorem ofRule_ensures {r : Rule} (hr : r ∈ g.rules)
    (h : ∀ s ∈ r.body, Ensures (Memo.Exact g) (symbol s) (Settles g guard [s]) error) :
    Ensures (Memo.Exact g) (ofRule symbol r) (Settles g guard r.body) error := by
  unfold ofRule
  refine (Ensures.lookUp_entry r.index fun memo hmemo => hmemo.ruleEmptiness).bind
    fun found hfound => ?_
  cases found with
  | some known => exact .pure (settles_of_iff (hfound known rfl r hr rfl))
  | none =>
    refine (ofSequence_ensures h).bind fun answer hanswer => ?_
    refine Ensures.rememberIf_bind ?_ (.pure hanswer)
    intro hworth memo hmemo
    exact hmemo.insert_ruleEmptiness hr (hanswer.iff_of_worth hworth)

theorem ofRules_ensures {rules : List Rule} (hrules : ∀ r ∈ rules, r ∈ g.rules)
    (h : ∀ r ∈ rules, ∀ s ∈ r.body,
      Ensures (Memo.Exact g) (symbol s) (Settles g guard [s]) error) :
    Ensures (Memo.Exact g) (ofRules symbol rules) (SettlesRules g guard rules) error := by
  induction rules with
  | nil =>
    refine .pure ⟨nofun, fun _ => ⟨fun s hs => ?_, by simp⟩⟩
    exact absurd hs Std.ExtTreeSet.not_mem_empty
  | cons r rest ih =>
    unfold ofRules
    refine (ofRule_ensures (hrules r List.mem_cons_self) (h r List.mem_cons_self)).bind
      fun answer hanswer => ?_
    split
    · next hvalue =>
      exact .pure ⟨fun _ => ⟨rfl, r, List.mem_cons_self, (hanswer.yes hvalue).2⟩, nofun⟩
    · next hvalue =>
      obtain ⟨hguard, herases⟩ := hanswer.no (by simpa using hvalue)
      refine (ih (fun q hq => hrules q (List.mem_cons_of_mem _ hq))
        (fun q hq => h q (List.mem_cons_of_mem _ hq))).bind fun others hothers => ?_
      split
      · next hyes =>
        obtain ⟨-, q, hq, hderives⟩ := hothers.yes hyes
        exact .pure ⟨fun _ => ⟨rfl, q, List.mem_cons_of_mem _ hq, hderives⟩, nofun⟩
      · next hno =>
        obtain ⟨hguard', herases'⟩ := hothers.no (by simpa using hno)
        refine .pure ⟨nofun, fun _ => ⟨?_, ?_⟩⟩
        · intro s hs
          rcases Std.ExtTreeSet.mem_union_iff.1 hs with hs | hs
          · exact hguard s hs
          · exact hguard' s hs
        · intro q hq herased
          rcases List.mem_cons.1 hq with rfl | hq
          · exact herases (herased.mono fun s hs => Std.ExtTreeSet.mem_union_of_left hs)
          · exact herases' q hq (herased.mono fun s hs => Std.ExtTreeSet.mem_union_of_right hs)

end Emptiness

namespace Grammar

open Emptiness

variable {g : Grammar}

/-- The only error of the search: a symbol that the grammar does not have. -/
def Unknown (g : Grammar) (s : Symbol) (e : GrammarError) : Prop :=
  e = .undeclaredVariable s ∧ ¬g.IsSymbol s

/-- An answer about the alternatives of a variable, without the cuts at the variable itself, is an
answer about the variable. -/
theorem WellFormed.settles_of_alternatives (wf : g.WellFormed) {guard : SymbolSet} {s : Symbol}
    {answer : Cut Bool} (h : SettlesRules g (guard.insert s) (g.alternatives s) answer) :
    Settles g guard [s] { value := answer.value, cuts := answer.cuts.erase s } where
  yes hyes := by
    obtain ⟨hcuts, r, hr, hderives⟩ := h.yes hyes
    obtain ⟨hdeclared, hhead⟩ := wf.mem_alternatives_iff.1 hr
    refine ⟨?_, derives_singleton_nil_iff.2 ⟨r, hdeclared, hhead, hderives⟩⟩
    rw [hcuts]
    exact Std.ExtTreeSet.erase_empty
  no hno := by
    obtain ⟨hguard, herases⟩ := h.no hno
    constructor
    · intro t ht
      obtain ⟨hne, hcut⟩ := mem_erase_guard.1 ht
      exact (mem_insert_guard.1 (hguard t hcut)).resolve_left hne
    · intro herased
      obtain ⟨-, r, hr, hhead, hbody⟩ := erases_singleton_iff.1 herased
      refine herases r (wf.mem_alternatives_iff.2 ⟨hr, hhead⟩) (hbody.mono fun t ht => ?_)
      by_cases hst : s = t
      · exact mem_insert_guard.2 (.inl hst)
      · exact mem_insert_guard.2 (.inr (mem_erase_guard.2 ⟨hst, ht⟩))

/-- The search from a symbol: its answers are right, and it ends in an error for an unknown symbol
only. -/
theorem WellFormed.symbolEmptiness_ensures (wf : g.WellFormed) (guard : SymbolSet) (s : Symbol) :
    Ensures (Memo.Exact g) (g.symbolEmptiness guard s) (Settles g guard [s]) (g.Unknown s) := by
  induction guard, s using guard_induction (g := g) with
  | step guard s ih =>
    rw [symbolEmptiness]
    split
    · next hterminal =>
      refine .pure (settles_of_iff ?_)
      simpa using wf.not_derives_terminal_nil hterminal
    split
    · next hguard =>
      refine .pure ⟨nofun, fun _ => ⟨fun t ht => ?_, fun herased => ?_⟩⟩
      · exact mem_singleton_guard.1 ht ▸ hguard
      · exact (erases_singleton_iff.1 herased).1 (mem_singleton_guard.2 rfl)
    · next hterminal hguard =>
      refine (Ensures.lookUp_entry s fun memo hmemo => hmemo.emptiness).bind fun found hfound => ?_
      cases found with
      | some known => exact .pure (settles_of_iff (hfound known rfl).2)
      | none =>
        dsimp only
        split
        · next hrules =>
          refine .throw ⟨rfl, ?_⟩
          rintro (hs | hs)
          · exact hterminal hs
          · exact wf.alternatives_eq_nil_iff.1 hrules hs
        · next hrules =>
          have hs := mem_nonterminals_of_alternatives_ne_nil hrules
          have hsymbols : ∀ r ∈ g.alternatives s, ∀ t ∈ r.body, Ensures (Memo.Exact g)
              (g.symbolEmptiness (guard.insert s) t) (Settles g (guard.insert s) [t])
              (g.Unknown s) := by
            intro r hr t ht
            refine (ih hguard hrules t).mono_error fun e he => ?_
            exact absurd (wf.isSymbol_of_mem_body (rules_of_alternatives s r hr) ht) he.2
          have halternatives := ofRules_ensures (rules_of_alternatives s) hsymbols
          refine halternatives.bind fun answer hanswer => ?_
          have hsettles := wf.settles_of_alternatives hanswer
          refine Ensures.rememberIf_bind ?_ (.pure hsettles)
          intro hworth memo hmemo
          exact hmemo.insert_emptiness hs (hsettles.iff_of_worth hworth)

/-- The same of a sequence. -/
theorem WellFormed.sequenceEmptiness_ensures (wf : g.WellFormed) (guard : SymbolSet)
    (symbols : List Symbol) :
    Ensures (Memo.Exact g) (g.sequenceEmptiness guard symbols) (Settles g guard symbols)
      (fun e => ∃ s ∈ symbols, g.Unknown s e) :=
  ofSequence_ensures fun s hs =>
    (wf.symbolEmptiness_ensures guard s).mono_error fun _ he => ⟨s, hs, he⟩

/-- The same of a rule of the grammar, where no symbol is unknown. -/
theorem WellFormed.bodyEmptiness_ensures (wf : g.WellFormed) (guard : SymbolSet) {r : Rule}
    (hr : r ∈ g.rules) :
    Ensures (Memo.Exact g) (g.bodyEmptiness guard r) (Settles g guard r.body)
      (fun _ => False) :=
  ofRule_ensures hr fun s hs =>
    (wf.symbolEmptiness_ensures guard s).mono_error fun _ he =>
      he.2 (wf.isSymbol_of_mem_body hr hs)

/-! Without guard. -/

theorem WellFormed.symbolCanBeEmpty_ensures (wf : g.WellFormed) (s : Symbol) :
    Ensures (Memo.Exact g) (g.symbolCanBeEmpty s) (fun b => b = true ↔ g.Derives [s] [])
      (g.Unknown s) :=
  (wf.symbolEmptiness_ensures ∅ s).bind fun _ ha => .pure ha.iff_of_unguarded

theorem WellFormed.sequenceCanBeEmpty_ensures (wf : g.WellFormed) (symbols : List Symbol) :
    Ensures (Memo.Exact g) (g.sequenceCanBeEmpty symbols)
      (fun b => b = true ↔ g.Derives symbols []) (fun e => ∃ s ∈ symbols, g.Unknown s e) :=
  (wf.sequenceEmptiness_ensures ∅ symbols).bind fun _ ha => .pure ha.iff_of_unguarded

theorem WellFormed.ruleCanBeEmpty_ensures (wf : g.WellFormed) {r : Rule} (hr : r ∈ g.rules) :
    Ensures (Memo.Exact g) (g.ruleCanBeEmpty r) (fun b => b = true ↔ g.Derives r.body [])
      (fun _ => False) :=
  (wf.bodyEmptiness_ensures ∅ hr).bind fun _ ha => .pure ha.iff_of_unguarded

end Grammar

end Predictive
