import Predictive.Proofs.Analysis.Ensures

/-!
# Runs that agree

`Agree inv related x y` compares a run of one analysis with a run of another. Whatever the two
remember at the beginning, as long as `inv` holds of it, both end in the same error or in values
that are related. An analysis is steady when it agrees with itself up to equality: its outcome does
not depend on what is remembered. There is again one rule for each building block of analyses. That
`inv` still holds where the second part of an analysis begins is left to `Ensures`.
-/

namespace Predictive.Analysis

variable {α β : Type} {inv : Memo → Prop}

/-- The outcomes are values that are related, or the same error. -/
inductive Alike (related : α → α → Prop) : Except GrammarError α → Except GrammarError α → Prop
  | values {a b : α} (h : related a b) : Alike related (.ok a) (.ok b)
  | error (e : GrammarError) : Alike related (.error e) (.error e)

/-- The analysis keeps `inv`, however it ends. -/
abbrev Keeps (inv : Memo → Prop) (x : Analysis α) : Prop :=
  Ensures inv x (fun _ => True) fun _ => True

theorem Ensures.keeps {x : Analysis α} {value : α → Prop} {error : GrammarError → Prop}
    (h : Ensures inv x value error) : Keeps inv x :=
  h.mono (fun _ _ => trivial) fun _ _ => trivial

/-- Nothing is asked of the analysis. -/
theorem keeps_true (x : Analysis α) : Keeps (fun _ => True) x := by
  intro memo _
  refine ⟨trivial, ?_⟩
  cases (x.runFrom memo).1 <;> trivial

/-- From any two memories that satisfy `inv`, the outcomes are alike. -/
def Agree (inv : Memo → Prop) (related : α → α → Prop) (x y : Analysis α) : Prop :=
  ∀ memo memo', inv memo → inv memo' → Alike related (x.runFrom memo).1 (y.runFrom memo').1

/-- The outcome does not depend on what is remembered. -/
abbrev Steady (inv : Memo → Prop) (x : Analysis α) : Prop :=
  Agree inv (· = ·) x x

theorem Alike.eq {outcome outcome' : Except GrammarError α} (h : Alike (· = ·) outcome outcome') :
    outcome = outcome' := by
  cases h with
  | values h => exact congrArg _ h
  | error e => rfl

/-- A steady analysis has one outcome. -/
theorem Steady.outcome_eq {x : Analysis α} (h : Steady inv x) {memo memo' : Memo}
    (hmemo : inv memo) (hmemo' : inv memo') : (x.runFrom memo).1 = (x.runFrom memo').1 :=
  (h memo memo' hmemo hmemo').eq

namespace Agree

variable {related : α → α → Prop} {related' : β → β → Prop} {value : α → Prop}
  {error : GrammarError → Prop}

theorem pure {a b : α} (h : related a b) : Agree inv related (pure a) (pure b) :=
  fun _ _ _ _ => .values h

theorem throw (e : GrammarError) : Agree inv related (throw e) (throw e : Analysis α) :=
  fun _ _ _ _ => .error e

/-- The next parts may rely on what holds after the first, of the memory and of the values, and on
the relation of the values. -/
theorem bind_of_after {after : Memo → Prop} {x : Analysis α} {f f' : α → Analysis β}
    (hx : Agree inv related x x)
    (hafter : ∀ memo, inv memo →
      after (x.runFrom memo).2 ∧ Outcome value error (x.runFrom memo).1)
    (hf : ∀ a b, related a b → value a → value b → Agree after related' (f a) (f' b)) :
    Agree inv related' (x >>= f) (x >>= f') := by
  intro memo memo' hmemo hmemo'
  have halike := hx memo memo' hmemo hmemo'
  obtain ⟨hbehind, hvalue⟩ := hafter memo hmemo
  obtain ⟨hbehind', hvalue'⟩ := hafter memo' hmemo'
  rw [runFrom_bind, runFrom_bind]
  rcases hrun : x.runFrom memo with ⟨outcome, after⟩
  rcases hrun' : x.runFrom memo' with ⟨outcome', after'⟩
  rw [hrun, hrun'] at halike
  rw [hrun] at hbehind hvalue
  rw [hrun'] at hbehind' hvalue'
  cases halike with
  | values hab => exact hf _ _ hab hvalue hvalue' _ _ hbehind hbehind'
  | error e => exact .error e

/-- The next parts may rely on what is ensured of the values before, and on their relation. -/
theorem bind {x : Analysis α} {f f' : α → Analysis β} (hx : Agree inv related x x)
    (hensures : Ensures inv x value error)
    (hf : ∀ a b, related a b → value a → value b → Agree inv related' (f a) (f' b)) :
    Agree inv related' (x >>= f) (x >>= f') :=
  hx.bind_of_after hensures hf

/-- A last part that does not look anything up needs nothing to be ensured. -/
theorem bind_last {x : Analysis α} {f f' : α → Analysis β} (hx : Agree inv related x x)
    (hf : ∀ a b, related a b → Agree (fun _ => True) related' (f a) (f' b)) :
    Agree inv related' (x >>= f) (x >>= f') :=
  hx.bind_of_after (fun memo _ => keeps_true x memo trivial) fun a b hab _ _ => hf a b hab

/-- What is ensured of the values may turn one relation into another. -/
theorem mono_of_value {x : Analysis α} {weaker : α → α → Prop} (hx : Agree inv related x x)
    (hensures : Ensures inv x value error)
    (h : ∀ a b, related a b → value a → value b → weaker a b) : Agree inv weaker x x := by
  intro memo memo' hmemo hmemo'
  have halike := hx memo memo' hmemo hmemo'
  have hvalue := (hensures memo hmemo).2
  have hvalue' := (hensures memo' hmemo').2
  generalize (x.runFrom memo).1 = outcome at halike hvalue
  generalize (x.runFrom memo').1 = outcome' at halike hvalue'
  cases halike with
  | values hab => exact .values (h _ _ hab hvalue hvalue')
  | error e => exact .error e

/-- An analysis without a possible error has values that are related. -/
theorem of_no_error {x : Analysis α} (hensures : Ensures inv x value error)
    (hnone : ∀ e, ¬error e) (h : ∀ a b, value a → value b → related a b) :
    Agree inv related x x := by
  intro memo memo' hmemo hmemo'
  obtain ⟨a, hrun, ha⟩ := hensures.exists_value hmemo hnone
  obtain ⟨b, hrun', hb⟩ := hensures.exists_value hmemo' hnone
  rw [hrun, hrun']
  exact .values (h a b ha hb)

/-- What is never remembered is found nowhere. -/
theorem lookUp_bind {look : Memo → Option β} {f f' : Option β → Analysis α}
    (hnone : ∀ memo, inv memo → look memo = none) (h : Agree inv related (f none) (f' none)) :
    Agree inv related (lookUp look >>= f) (lookUp look >>= f') := by
  intro memo memo' hmemo hmemo'
  rw [runFrom_bind_of_ok (runFrom_lookUp look memo), hnone memo hmemo]
  rw [runFrom_bind_of_ok (runFrom_lookUp look memo'), hnone memo' hmemo']
  exact h memo memo' hmemo hmemo'

/-- It does not matter what is remembered last. -/
theorem rememberIf_pure {worth worth' : Bool} {add add' : Memo → Memo} {a b : α}
    (h : related a b) :
    Agree inv related (do rememberIf worth add; Pure.pure a)
      (do rememberIf worth' add'; Pure.pure b) := by
  intro memo memo' _ _
  rw [runFrom_bind_of_ok (runFrom_rememberIf worth add memo)]
  rw [runFrom_bind_of_ok (runFrom_rememberIf worth' add' memo')]
  exact .values h

end Agree

namespace Steady

variable {value : α → Prop} {error : GrammarError → Prop}

theorem bind {x : Analysis α} {f : α → Analysis β} (hx : Steady inv x)
    (hensures : Ensures inv x value error) (hf : ∀ a, value a → Steady inv (f a)) :
    Steady inv (x >>= f) :=
  Agree.bind hx hensures fun a _ hab ha _ => hab ▸ hf a ha

theorem bind_last {x : Analysis α} {f : α → Analysis β} (hx : Steady inv x)
    (hf : ∀ a, Steady (fun _ => True) (f a)) : Steady inv (x >>= f) :=
  Agree.bind_last hx fun a _ hab => hab ▸ hf a

theorem remember_pure {add : Memo → Memo} {a : α} : Steady inv (do remember add; pure a) :=
  @Agree.rememberIf_pure α inv (· = ·) true true add add a a rfl

/-- What is caught goes on with the same error. -/
theorem tryCatch {x : Analysis α} {handle : GrammarError → Analysis α} (hx : Steady inv x)
    (hensures : Ensures inv x value error) (hhandle : ∀ e, error e → Steady inv (handle e)) :
    Steady inv (tryCatch x handle) := by
  intro memo memo' hmemo hmemo'
  have heq := hx.outcome_eq hmemo hmemo'
  obtain ⟨hafter, houtcome⟩ := hensures memo hmemo
  obtain ⟨hafter', -⟩ := hensures memo' hmemo'
  rw [runFrom_tryCatch, runFrom_tryCatch]
  rcases hrun : x.runFrom memo with ⟨outcome, after⟩
  rcases hrun' : x.runFrom memo' with ⟨outcome', after'⟩
  rw [hrun] at heq hafter houtcome
  rw [hrun'] at heq hafter'
  obtain rfl : outcome = outcome' := heq
  cases outcome with
  | ok a => exact .values rfl
  | error e => exact hhandle e houtcome after after' hafter hafter'

theorem forEach {f : α → Analysis β} {xs : List α} (hf : ∀ x ∈ xs, Steady inv (f x))
    (hkeeps : ∀ x ∈ xs, Keeps inv (f x)) : Steady inv (forEach f xs) := by
  induction xs with
  | nil => exact Agree.pure rfl
  | cons x xs ih =>
    refine (hf x List.mem_cons_self).bind (hkeeps x List.mem_cons_self) fun y _ => ?_
    have hrest := ih (fun z hz => hf z (List.mem_cons_of_mem _ hz))
      fun z hz => hkeeps z (List.mem_cons_of_mem _ hz)
    exact hrest.bind_last fun _ => .pure rfl

theorem unionOver {f : α → Analysis SymbolSet} {xs : List α} (hf : ∀ x ∈ xs, Steady inv (f x))
    (hkeeps : ∀ x ∈ xs, Keeps inv (f x)) : Steady inv (unionOver f xs) := by
  induction xs with
  | nil => exact Agree.pure rfl
  | cons x xs ih =>
    refine (hf x List.mem_cons_self).bind (hkeeps x List.mem_cons_self) fun found _ => ?_
    have hrest := ih (fun z hz => hf z (List.mem_cons_of_mem _ hz))
      fun z hz => hkeeps z (List.mem_cons_of_mem _ hz)
    exact hrest.bind_last fun _ => .pure rfl

end Steady

end Predictive.Analysis
