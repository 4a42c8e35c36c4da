import Predictive.Analysis.Table
import Predictive.Grammar.Error

/-!
# Analyses with a memory

The sets of a grammar are computed on demand and remembered. A `Memo` holds all that has been
remembered, and an `Analysis` is a computation that reads and extends it. A computation that ends
in an error keeps what it had remembered before.

Recursions over the variables of a grammar carry a guard, the set of variables that are being
expanded; `openCount` counts the variables that are still outside and decreases at every step
(`openCount_insert_lt`). An answer that met a guarded variable may be incomplete: `Cut` pairs an
answer with the guarded variables that it was cut at.
-/

namespace Predictive

/-- What has been found out about a grammar so far. Rules are known by their numbers. -/
structure Memo where
  /-- Variables known to derive, or not to derive, the empty string. -/
  emptiness : Std.ExtTreeMap Symbol Bool := ∅
  /-- The same for the bodies of rules. -/
  ruleEmptiness : Std.ExtTreeMap Nat Bool := ∅
  /-- The terminals that a variable can begin with. -/
  first : Std.ExtTreeMap Symbol SymbolSet := ∅
  /-- Symbols whose occurrences have been listed, with the number of rules there were then. -/
  scanned : Std.ExtTreeMap Symbol Nat := ∅
  /-- The terminals that can follow a symbol. -/
  follow : Std.ExtTreeMap Symbol SymbolSet := ∅
  /-- The terminals that select a rule. -/
  lookahead : Std.ExtTreeMap Nat SymbolSet := ∅
  /-- The predictive table. -/
  table : Option Table := none

/-- A computation on a grammar that may end in an error and remembers what it finds. -/
abbrev Analysis := ExceptT GrammarError (StateM Memo)

namespace Analysis

variable {α β : Type}

/-- The outcome of an analysis and all that is remembered after it. -/
def runFrom (x : Analysis α) (memo : Memo) : Except GrammarError α × Memo :=
  Id.run (x.run.run memo)

/-- Looks something up in what is remembered. -/
def lookUp (look : Memo → α) : Analysis α := do
  return look (← get)

/-- Adds to what is remembered. -/
def remember (add : Memo → Memo) : Analysis Unit :=
  modify add

/-- Adds to what is remembered if that is worth it. -/
def rememberIf (worth : Bool) (add : Memo → Memo) : Analysis Unit :=
  if worth then remember add else pure ()

/-- The answers for the elements of a list, in order. -/
def forEach (f : α → Analysis β) : List α → Analysis (List β)
  | [] => pure []
  | x :: xs => do
    let y ← f x
    let ys ← forEach f xs
    pure (y :: ys)

/-- The union of the answers for the elements of a list. -/
def unionOver (f : α → Analysis SymbolSet) : List α → Analysis SymbolSet
  | [] => pure ∅
  | x :: xs => do
    let found ← f x
    let others ← unionOver f xs
    pure (found ∪ others)

/-! How the building blocks of analyses run. -/

@[simp] theorem runFrom_pure (a : α) (memo : Memo) :
    (pure a : Analysis α).runFrom memo = (.ok a, memo) := rfl

@[simp] theorem runFrom_throw (e : GrammarError) (memo : Memo) :
    (throw e : Analysis α).runFrom memo = (.error e, memo) := rfl

@[simp] theorem runFrom_lookUp (look : Memo → α) (memo : Memo) :
    (lookUp look).runFrom memo = (.ok (look memo), memo) := rfl

@[simp] theorem runFrom_remember (add : Memo → Memo) (memo : Memo) :
    (remember add).runFrom memo = (.ok (), add memo) := rfl

@[simp] theorem runFrom_rememberIf (worth : Bool) (add : Memo → Memo) (memo : Memo) :
    (rememberIf worth add).runFrom memo = (.ok (), if worth then add memo else memo) := by
  cases worth <;> rfl

/-- An error ends an analysis; otherwise the next part goes on with all that is remembered. -/
theorem runFrom_bind (x : Analysis α) (f : α → Analysis β) (memo : Memo) :
    (x >>= f).runFrom memo =
      match x.runFrom memo with
      | (.ok a, after) => (f a).runFrom after
      | (.error e, after) => (.error e, after) := by
  change ExceptT.bindCont f (x.runFrom memo).1 (x.runFrom memo).2 = _
  rcases x.runFrom memo with ⟨outcome, after⟩
  cases outcome <;> rfl

theorem runFrom_bind_of_ok {x : Analysis α} {f : α → Analysis β} {memo after : Memo} {a : α}
    (h : x.runFrom memo = (.ok a, after)) : (x >>= f).runFrom memo = (f a).runFrom after := by
  rw [runFrom_bind, h]

theorem runFrom_bind_of_error {x : Analysis α} {f : α → Analysis β} {memo after : Memo}
    {e : GrammarError} (h : x.runFrom memo = (.error e, after)) :
    (x >>= f).runFrom memo = (.error e, after) := by
  rw [runFrom_bind, h]

end Analysis

/-- An answer and the guarded variables that it was cut at. -/
structure Cut (α : Type) where
  value : α
  cuts : SymbolSet := ∅

namespace Cut

variable {α : Type}

/-- An answer that met no guarded variable does not depend on the guard. -/
def isFinal (answer : Cut α) : Bool :=
  answer.cuts.isEmpty

end Cut

/-! Guards. -/

/-- The number of symbols of a list that are outside a guard. -/
def openCount (symbols : List Symbol) (guard : SymbolSet) : Nat :=
  symbols.countP fun s => s ∉ guard

theorem mem_insert_guard {guard : SymbolSet} {s t : Symbol} :
    t ∈ guard.insert s ↔ s = t ∨ t ∈ guard := by
  rw [Std.ExtTreeSet.mem_insert, Std.LawfulEqCmp.compare_eq_iff_eq]

theorem openCount_insert_le (symbols : List Symbol) (guard : SymbolSet) (s : Symbol) :
    openCount symbols (guard.insert s) ≤ openCount symbols guard := by
  refine List.countP_mono_left fun t _ ht => ?_
  simp only [mem_insert_guard, not_or, decide_eq_true_eq] at ht ⊢
  exact ht.2

/-- Guarding a symbol of the list leaves fewer outside. -/
theorem openCount_insert_lt {symbols : List Symbol} {guard : SymbolSet} {s : Symbol}
    (hmem : s ∈ symbols) (hnew : s ∉ guard) :
    openCount symbols (guard.insert s) < openCount symbols guard := by
  induction symbols with
  | nil => simp at hmem
  | cons t rest ih =>
    have hle := openCount_insert_le rest guard s
    by_cases hts : s = t
    · subst hts
      have hin : decide (s ∉ guard.insert s) = false := by simp
      have hout : decide (s ∉ guard) = true := by simp [hnew]
      simp only [openCount, List.countP_cons, hin, hout, if_true, Bool.false_eq_true,
        if_false] at hle ⊢
      omega
    · have hrest := ih ((List.mem_cons.1 hmem).resolve_left hts)
      simp only [openCount, List.countP_cons, mem_insert_guard, hts, false_or] at hrest ⊢
      omega

end Predictive
