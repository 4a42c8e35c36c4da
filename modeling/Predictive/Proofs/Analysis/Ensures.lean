import Predictive.Analysis.Memo
import Mathlib.Data.List.Forall2

/-!
# What an analysis ensures

`Ensures inv x value error` says of an analysis: wherever `inv` holds of all that is remembered, it
holds again at the end, also if the analysis ends in an error; a value satisfies `value` and an
error satisfies `error`. There is one rule for each building block of analyses, so a proof about
an analysis follows its text.
-/

namespace Predictive.Analysis

variable {α β : Type} {inv : Memo → Prop}

/-! Lists whose elements are related place by place. -/

theorem exists_right_of_forall₂ {related : α → β → Prop} {xs : List α} {ys : List β}
    (h : List.Forall₂ related xs ys) {x : α} (hx : x ∈ xs) : ∃ y ∈ ys, related x y := by
  induction h with
  | nil => cases hx
  | cons hhead _ ih =>
    rcases List.mem_cons.1 hx with rfl | hx
    · exact ⟨_, List.mem_cons_self, hhead⟩
    · obtain ⟨y, hy, hrelated⟩ := ih hx
      exact ⟨y, List.mem_cons_of_mem _ hy, hrelated⟩

theorem exists_left_of_forall₂ {related : α → β → Prop} {xs : List α} {ys : List β}
    (h : List.Forall₂ related xs ys) {y : β} (hy : y ∈ ys) : ∃ x ∈ xs, related x y :=
  exists_right_of_forall₂ h.flip hy

/-- What is said of the value of a computation says that it has one. -/
theorem exists_of_map_eq_ok {outcome : Except GrammarError α} {f : α → β} {b : β}
    (h : outcome.map f = .ok b) : ∃ a, outcome = .ok a ∧ f a = b := by
  cases outcome with
  | ok a => exact ⟨a, rfl, Except.ok.inj h⟩
  | error e => cases h

/-- An error that is caught leaves all that is remembered. -/
theorem runFrom_tryCatch (x : Analysis α) (handle : GrammarError → Analysis α) (memo : Memo) :
    (tryCatch x handle).runFrom memo =
      match x.runFrom memo with
      | (.ok a, after) => (.ok a, after)
      | (.error e, after) => (handle e).runFrom after := by
  simp only [runFrom, ExceptT.run_tryCatch, StateT.run_bind, Id.run_bind]
  rcases (StateT.run x.run memo).run with ⟨outcome, after⟩
  cases outcome <;> rfl

/-- A statement about the outcome of an analysis. -/
def Outcome (value : α → Prop) (error : GrammarError → Prop) : Except GrammarError α → Prop
  | .ok a => value a
  | .error e => error e

/-- The analysis keeps `inv`, its values satisfy `value` and its errors `error`. -/
def Ensures (inv : Memo → Prop) (x : Analysis α) (value : α → Prop)
    (error : GrammarError → Prop) : Prop :=
  ∀ memo, inv memo → inv (x.runFrom memo).2 ∧ Outcome value error (x.runFrom memo).1

namespace Ensures

variable {value : α → Prop} {value' : β → Prop} {error error' : GrammarError → Prop}

theorem mono {x : Analysis α} {weaker : α → Prop} (h : Ensures inv x value error)
    (hvalue : ∀ a, value a → weaker a) (herror : ∀ e, error e → error' e) :
    Ensures inv x weaker error' := by
  intro memo hmemo
  obtain ⟨hinv, houtcome⟩ := h memo hmemo
  refine ⟨hinv, ?_⟩
  cases hx : (x.runFrom memo).1 with
  | ok a => exact hvalue a (by simpa [hx, Outcome] using houtcome)
  | error e => exact herror e (by simpa [hx, Outcome] using houtcome)

theorem mono_value {x : Analysis α} {weaker : α → Prop} (h : Ensures inv x value error)
    (hvalue : ∀ a, value a → weaker a) : Ensures inv x weaker error :=
  h.mono hvalue fun _ he => he

theorem mono_error {x : Analysis α} (h : Ensures inv x value error)
    (herror : ∀ e, error e → error' e) : Ensures inv x value error' :=
  h.mono (fun _ ha => ha) herror

/-- An analysis without a possible error may stand where any error is possible. -/
theorem of_no_error {x : Analysis α} (h : Ensures inv x value fun _ => False) :
    Ensures inv x value error :=
  h.mono_error fun _ he => he.elim

theorem pure {a : α} (h : value a) : Ensures inv (pure a) value error :=
  fun _ hmemo => ⟨hmemo, h⟩

theorem throw {e : GrammarError} (h : error e) :
    Ensures inv (throw e : Analysis α) value error :=
  fun _ hmemo => ⟨hmemo, h⟩

/-- The next part may rely on what is ensured of the value before. -/
theorem bind {x : Analysis α} {f : α → Analysis β} (hx : Ensures inv x value error)
    (hf : ∀ a, value a → Ensures inv (f a) value' error) : Ensures inv (x >>= f) value' error := by
  intro memo hmemo
  obtain ⟨hinv, houtcome⟩ := hx memo hmemo
  rw [runFrom_bind]
  rcases hrun : x.runFrom memo with ⟨outcome, after⟩
  rw [hrun] at hinv houtcome
  cases outcome with
  | ok a => exact hf a houtcome after hinv
  | error e => exact ⟨hinv, houtcome⟩

/-- What is looked up satisfies all that `inv` says about it. -/
theorem lookUp {look : Memo → α} (h : ∀ memo, inv memo → value (look memo)) :
    Ensures inv (lookUp look) value error :=
  fun memo hmemo => ⟨hmemo, h memo hmemo⟩

/-- What is remembered has to keep `inv`. -/
theorem remember_bind {add : Memo → Memo} {f : Unit → Analysis β}
    (hadd : ∀ memo, inv memo → inv (add memo)) (hf : Ensures inv (f ()) value' error) :
    Ensures inv (remember add >>= f) value' error := by
  intro memo hmemo
  rw [runFrom_bind_of_ok (runFrom_remember add memo)]
  exact hf (add memo) (hadd memo hmemo)

/-- What is remembered has to keep `inv` only where it is worth it. -/
theorem rememberIf_bind {worth : Bool} {add : Memo → Memo} {f : Unit → Analysis β}
    (hadd : worth = true → ∀ memo, inv memo → inv (add memo))
    (hf : Ensures inv (f ()) value' error) :
    Ensures inv (rememberIf worth add >>= f) value' error := by
  intro memo hmemo
  rw [runFrom_bind_of_ok (runFrom_rememberIf worth add memo)]
  cases worth with
  | true => exact hf (add memo) (hadd rfl memo hmemo)
  | false => exact hf memo hmemo

/-- What is caught goes on with all that is remembered. -/
theorem tryCatch {x : Analysis α} {handle : GrammarError → Analysis α}
    (hx : Ensures inv x value error)
    (hhandle : ∀ e, error e → Ensures inv (handle e) value error') :
    Ensures inv (tryCatch x handle) value error' := by
  intro memo hmemo
  obtain ⟨hinv, houtcome⟩ := hx memo hmemo
  rw [runFrom_tryCatch]
  rcases hrun : x.runFrom memo with ⟨outcome, after⟩
  rw [hrun] at hinv houtcome
  cases outcome with
  | ok a => exact ⟨hinv, houtcome⟩
  | error e => exact hhandle e houtcome after hinv

/-- Each answer belongs to the element at its place. -/
theorem forEach {f : α → Analysis β} {related : α → β → Prop} {xs : List α}
    (h : ∀ x ∈ xs, Ensures inv (f x) (related x) error) :
    Ensures inv (forEach f xs) (List.Forall₂ related xs) error := by
  induction xs with
  | nil => exact pure .nil
  | cons x xs ih =>
    refine (h x List.mem_cons_self).bind fun y hy => ?_
    refine (ih fun z hz => h z (List.mem_cons_of_mem _ hz)).bind fun ys hys => ?_
    exact pure (.cons hy hys)

/-- A union holds what one of the answers holds; what else is ensured of the elements is kept. -/
theorem unionOver {f : α → Analysis SymbolSet} {holds : α → Symbol → Prop} {side : α → Prop}
    {xs : List α}
    (h : ∀ x ∈ xs, Ensures inv (f x) (fun found => side x ∧ ∀ t, t ∈ found ↔ holds x t) error) :
    Ensures inv (unionOver f xs)
      (fun found => (∀ x ∈ xs, side x) ∧ ∀ t, t ∈ found ↔ ∃ x ∈ xs, holds x t) error := by
  induction xs with
  | nil =>
    refine .pure ⟨by simp, fun t => ?_⟩
    simp
  | cons x xs ih =>
    refine (h x List.mem_cons_self).bind fun found hfound => ?_
    refine (ih fun z hz => h z (List.mem_cons_of_mem _ hz)).bind fun others hothers => ?_
    refine .pure ⟨List.forall_mem_cons.2 ⟨hfound.1, hothers.1⟩, fun t => ?_⟩
    rw [Std.ExtTreeSet.mem_union_iff, hfound.2, hothers.2]
    simp

/-- An analysis that ends in a value where `inv` holds gives what is ensured. -/
theorem value_of_run {x : Analysis α} {memo : Memo} {a : α} (h : Ensures inv x value error)
    (hmemo : inv memo) (hrun : (x.runFrom memo).1 = .ok a) : value a := by
  have houtcome := (h memo hmemo).2
  rwa [hrun] at houtcome

/-- So does one that ends in an error. -/
theorem error_of_run {x : Analysis α} {memo : Memo} {e : GrammarError}
    (h : Ensures inv x value error) (hmemo : inv memo) (hrun : (x.runFrom memo).1 = .error e) :
    error e := by
  have houtcome := (h memo hmemo).2
  rwa [hrun] at houtcome

/-- An analysis without a possible error ends in a value. -/
theorem exists_value {x : Analysis α} {memo : Memo} (h : Ensures inv x value error)
    (hmemo : inv memo) (hnone : ∀ e, ¬error e) : ∃ a, (x.runFrom memo).1 = .ok a ∧ value a := by
  have houtcome := (h memo hmemo).2
  cases hrun : (x.runFrom memo).1 with
  | ok a => exact ⟨a, rfl, by rwa [hrun] at houtcome⟩
  | error e => exact absurd (by rwa [hrun] at houtcome) (hnone e)

end Ensures

end Predictive.Analysis
