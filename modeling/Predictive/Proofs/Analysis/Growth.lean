import Predictive.Proofs.Analysis.Exactness
import Predictive.Proofs.Analysis.Agreement
import Predictive.Analysis.Prediction

/-!
# What an analysis leaves behind

Nothing that is remembered is forgotten: whatever a memory has an entry for, it has one for after
every analysis (`Memo.Within`). `Leaves pre x left` says so of an analysis that begins where `pre`
holds, and moreover that `left` holds of its outcome together with all that is remembered at the
end. There is a rule for each building block of analyses, and `Leaves.frame` for what lasts anyhow.

A property is robust if no search for empty symbols, for first terminals or for occurrences can
break it, whatever it remembers. Such a search keeps every robust property, and to keep entries is
one of them.
-/

namespace Predictive

namespace Memo

/-- Whatever there is an entry for, the later memory has one for too. -/
structure Within (memo later : Memo) : Prop where
  emptiness : ∀ s ∈ memo.emptiness, s ∈ later.emptiness
  ruleEmptiness : ∀ i ∈ memo.ruleEmptiness, i ∈ later.ruleEmptiness
  first : ∀ s ∈ memo.first, s ∈ later.first
  scanned : ∀ s ∈ memo.scanned, s ∈ later.scanned
  follow : ∀ s ∈ memo.follow, s ∈ later.follow
  lookahead : ∀ i ∈ memo.lookahead, i ∈ later.lookahead
  table : memo.table.isSome → later.table.isSome

namespace Within

variable {memo later last : Memo}

@[refl] theorem refl (memo : Memo) : memo.Within memo where
  emptiness _ h := h
  ruleEmptiness _ h := h
  first _ h := h
  scanned _ h := h
  follow _ h := h
  lookahead _ h := h
  table h := h

@[trans] theorem trans (h : memo.Within later) (h' : later.Within last) : memo.Within last where
  emptiness s hs := h'.emptiness s (h.emptiness s hs)
  ruleEmptiness i hi := h'.ruleEmptiness i (h.ruleEmptiness i hi)
  first s hs := h'.first s (h.first s hs)
  scanned s hs := h'.scanned s (h.scanned s hs)
  follow s hs := h'.follow s (h.follow s hs)
  lookahead i hi := h'.lookahead i (h.lookahead i hi)
  table htable := h'.table (h.table htable)

end Within

/-- The property holds on after all that a search for empty symbols, for first terminals or for
occurrences may remember. -/
structure Robust (inv : Memo → Prop) : Prop where
  emptiness : ∀ memo s known, inv memo →
    inv { memo with emptiness := memo.emptiness.insert s known }
  ruleEmptiness : ∀ memo i known, inv memo →
    inv { memo with ruleEmptiness := memo.ruleEmptiness.insert i known }
  first : ∀ memo s known, inv memo → inv { memo with first := memo.first.insert s known }
  scanned : ∀ memo s known, inv memo → inv { memo with scanned := memo.scanned.insert s known }

section Insert

variable {α β : Type} [Ord α] [Std.TransOrd α]

theorem mem_insert_of_mem {entries : Std.ExtTreeMap α β} {key : α} (h : key ∈ entries) (key' : α)
    (value : β) : key ∈ entries.insert key' value :=
  Std.ExtTreeMap.mem_insert.2 (.inr h)

end Insert

/-- To have at least the entries of some memory is robust. -/
theorem robust_within (start : Memo) : Robust start.Within where
  emptiness _ s known h :=
    { h with emptiness := fun t ht => mem_insert_of_mem (h.emptiness t ht) s known }
  ruleEmptiness _ i known h :=
    { h with ruleEmptiness := fun j hj => mem_insert_of_mem (h.ruleEmptiness j hj) i known }
  first _ s known h := { h with first := fun t ht => mem_insert_of_mem (h.first t ht) s known }
  scanned _ s known h :=
    { h with scanned := fun t ht => mem_insert_of_mem (h.scanned t ht) s known }

theorem Within.insert_follow {start memo : Memo} (h : start.Within memo) (s : Symbol)
    (known : SymbolSet) : start.Within { memo with follow := memo.follow.insert s known } :=
  { h with follow := fun t ht => mem_insert_of_mem (h.follow t ht) s known }

theorem Within.insert_lookahead {start memo : Memo} (h : start.Within memo) (i : Nat)
    (known : SymbolSet) :
    start.Within { memo with lookahead := memo.lookahead.insert i known } :=
  { h with lookahead := fun j hj => mem_insert_of_mem (h.lookahead j hj) i known }

theorem Within.set_table {start memo : Memo} (h : start.Within memo) (known : Table) :
    start.Within { memo with table := some known } :=
  { h with table := fun _ => rfl }

/-- A property of what is remembered about following terminals is robust. -/
theorem robust_follow (p : Std.ExtTreeMap Symbol SymbolSet → Prop) :
    Robust fun memo => p memo.follow where
  emptiness _ _ _ h := h
  ruleEmptiness _ _ _ h := h
  first _ _ _ h := h
  scanned _ _ _ h := h

end Memo

namespace Analysis

variable {α β : Type} {inv : Memo → Prop}

/-- Whatever is found, the rest keeps what is kept. -/
theorem keeps_lookUp {look : Memo → α} {f : α → Analysis β} (h : ∀ a, Keeps inv (f a)) :
    Keeps inv (lookUp look >>= f) := by
  intro memo hmemo
  rw [runFrom_bind_of_ok (runFrom_lookUp look memo)]
  exact h _ memo hmemo

theorem keeps_unionOver {f : α → Analysis SymbolSet} {xs : List α}
    (h : ∀ x ∈ xs, Keeps inv (f x)) : Keeps inv (unionOver f xs) := by
  induction xs with
  | nil => exact .pure trivial
  | cons x xs ih =>
    refine (h x List.mem_cons_self).bind fun found _ => ?_
    exact (ih fun y hy => h y (List.mem_cons_of_mem _ hy)).bind fun _ _ => .pure trivial

/-- Where `pre` holds of all that is remembered, the analysis keeps every entry, and `left` holds of
its outcome together with all that is remembered at the end. -/
def Leaves (pre : Memo → Prop) (x : Analysis α) (left : Except GrammarError α → Memo → Prop) :
    Prop :=
  ∀ memo, pre memo →
    memo.Within (x.runFrom memo).2 ∧ left (x.runFrom memo).1 (x.runFrom memo).2

/-- A statement that is about values only. -/
def OfValue (value : α → Memo → Prop) : Except GrammarError α → Memo → Prop
  | .ok a, memo => value a memo
  | .error _, _ => True

namespace Leaves

variable {pre : Memo → Prop} {left left' : Except GrammarError α → Memo → Prop}
  {next : Except GrammarError β → Memo → Prop}

theorem of_run {x : Analysis α} {memo after : Memo} {outcome : Except GrammarError α}
    (h : Leaves pre x left) (hmemo : pre memo) (hrun : x.runFrom memo = (outcome, after)) :
    memo.Within after ∧ left outcome after := by
  have hx := h memo hmemo
  rwa [hrun] at hx

theorem mono {x : Analysis α} (h : Leaves pre x left)
    (hleft : ∀ outcome memo, left outcome memo → left' outcome memo) : Leaves pre x left' :=
  fun memo hmemo => (h memo hmemo).imp_right (hleft _ _)

theorem imp_pre {x : Analysis α} {pre' : Memo → Prop} (h : Leaves pre x left)
    (hpre : ∀ memo, pre' memo → pre memo) : Leaves pre' x left :=
  fun memo hmemo => h memo (hpre memo hmemo)

theorem pure {a : α} (h : ∀ memo, pre memo → left (.ok a) memo) : Leaves pre (pure a) left :=
  fun memo hmemo => ⟨.refl memo, h memo hmemo⟩

theorem throw {e : GrammarError} (h : ∀ memo, pre memo → left (.error e) memo) :
    Leaves pre (throw e : Analysis α) left :=
  fun memo hmemo => ⟨.refl memo, h memo hmemo⟩

/-- The next part begins with what the first one left. -/
theorem bind {x : Analysis α} {f : α → Analysis β} (hx : Leaves pre x left)
    (herror : ∀ e memo, left (.error e) memo → next (.error e) memo)
    (hf : ∀ a, Leaves (left (.ok a)) (f a) next) : Leaves pre (x >>= f) next := by
  intro memo hmemo
  obtain ⟨hwithin, hleft⟩ := hx memo hmemo
  rw [runFrom_bind]
  rcases hrun : x.runFrom memo with ⟨outcome, after⟩
  rw [hrun] at hwithin hleft
  cases outcome with
  | error e => exact ⟨hwithin, herror e after hleft⟩
  | ok a =>
    obtain ⟨hwithin', hnext⟩ := hf a after hleft
    exact ⟨hwithin.trans hwithin', hnext⟩

theorem lookUp_bind {look : Memo → α} {f : α → Analysis β}
    (hf : ∀ found, Leaves (fun memo => pre memo ∧ look memo = found) (f found) next) :
    Leaves pre (lookUp look >>= f) next := by
  intro memo hmemo
  rw [runFrom_bind_of_ok (runFrom_lookUp look memo)]
  exact hf (look memo) memo ⟨hmemo, rfl⟩

theorem rememberIf_bind {worth : Bool} {add : Memo → Memo} {f : Unit → Analysis β}
    (mid : Memo → Prop)
    (hadd : worth = true → ∀ memo, pre memo → mid (add memo) ∧ memo.Within (add memo))
    (hkeep : worth = false → ∀ memo, pre memo → mid memo) (hf : Leaves mid (f ()) next) :
    Leaves pre (rememberIf worth add >>= f) next := by
  intro memo hmemo
  rw [runFrom_bind_of_ok (runFrom_rememberIf worth add memo)]
  cases worth with
  | false => exact hf memo (hkeep rfl memo hmemo)
  | true =>
    obtain ⟨hmid, hwithin⟩ := hadd rfl memo hmemo
    exact (hf (add memo) hmid).imp_left hwithin.trans

theorem remember_bind {add : Memo → Memo} {f : Unit → Analysis β} (mid : Memo → Prop)
    (hadd : ∀ memo, pre memo → mid (add memo) ∧ memo.Within (add memo))
    (hf : Leaves mid (f ()) next) : Leaves pre (remember add >>= f) next := by
  intro memo hmemo
  rw [runFrom_bind_of_ok (runFrom_remember add memo)]
  obtain ⟨hmid, hwithin⟩ := hadd memo hmemo
  exact (hf (add memo) hmid).imp_left hwithin.trans

/-- What lasts while entries are added need not be watched. -/
theorem frame {x : Analysis α} {p : Memo → Prop} (h : Leaves pre x left)
    (hp : ∀ memo later, memo.Within later → p memo → p later) :
    Leaves (fun memo => pre memo ∧ p memo) x fun outcome memo => left outcome memo ∧ p memo := by
  rintro memo ⟨hmemo, hpmemo⟩
  obtain ⟨hwithin, hleft⟩ := h memo hmemo
  exact ⟨hwithin, hleft, hp _ _ hwithin hpmemo⟩

/-- What does not depend on the memory may be assumed. -/
theorem of_imp {x : Analysis α} {p : Prop} (h : p → Leaves pre x left) :
    Leaves (fun memo => pre memo ∧ p) x left :=
  fun memo hmemo => h hmemo.2 memo hmemo.1

/-- What is ensured besides. -/
theorem and_ensures {x : Analysis α} {inv : Memo → Prop} {value : α → Prop}
    {error : GrammarError → Prop} (h : Leaves pre x left) (hpre : ∀ memo, pre memo → inv memo)
    (hx : Ensures inv x value error) :
    Leaves pre x fun outcome memo => left outcome memo ∧ Outcome value error outcome := by
  intro memo hmemo
  obtain ⟨hwithin, hleft⟩ := h memo hmemo
  exact ⟨hwithin, hleft, (hx memo (hpre memo hmemo)).2⟩

end Leaves

end Analysis

open Analysis (Ensures Keeps keeps_lookUp keeps_unionOver)
open Memo (Robust)

/-! Searches keep what is robust. -/

namespace Emptiness

variable {inv : Memo → Prop} {symbol : Symbol → Analysis (Cut Bool)}

theorem ofSequence_keeps (h : ∀ s, Keeps inv (symbol s)) (symbols : List Symbol) :
    Keeps inv (ofSequence symbol symbols) := by
  induction symbols with
  | nil => exact .pure trivial
  | cons s rest ih =>
    unfold ofSequence
    refine (h s).bind fun answer _ => ?_
    split
    · exact ih
    · exact .pure trivial

theorem ofRule_keeps (hinv : Robust inv) (h : ∀ s, Keeps inv (symbol s)) (r : Rule) :
    Keeps inv (ofRule symbol r) := by
  unfold ofRule
  refine keeps_lookUp fun found => ?_
  cases found with
  | some known => exact .pure trivial
  | none =>
    refine (ofSequence_keeps h r.body).bind fun answer _ => ?_
    exact Ensures.rememberIf_bind (fun _ memo => hinv.ruleEmptiness memo _ _) (.pure trivial)

theorem ofRules_keeps (hinv : Robust inv) (h : ∀ s, Keeps inv (symbol s)) (rules : List Rule) :
    Keeps inv (ofRules symbol rules) := by
  induction rules with
  | nil => exact .pure trivial
  | cons r rest ih =>
    unfold ofRules
    refine (ofRule_keeps hinv h r).bind fun answer _ => ?_
    split
    · exact .pure trivial
    refine ih.bind fun others _ => ?_
    split <;> exact .pure trivial

end Emptiness

namespace Grammar

variable {g : Grammar} {inv : Memo → Prop}

theorem symbolEmptiness_keeps (hinv : Robust inv) (guard : SymbolSet) (s : Symbol) :
    Keeps inv (g.symbolEmptiness guard s) := by
  induction guard, s using guard_induction (g := g) with
  | step guard s ih =>
    rw [symbolEmptiness]
    split
    · exact .pure trivial
    split
    · exact .pure trivial
    next hguard =>
    refine keeps_lookUp fun found => ?_
    cases found with
    | some known => exact .pure trivial
    | none =>
      dsimp only
      split
      · exact .throw trivial
      next hrules =>
      refine (Emptiness.ofRules_keeps hinv (ih hguard hrules) _).bind fun answer _ => ?_
      exact Ensures.rememberIf_bind (fun _ memo => hinv.emptiness memo _ _) (.pure trivial)

theorem sequenceEmptiness_keeps (hinv : Robust inv) (guard : SymbolSet) (symbols : List Symbol) :
    Keeps inv (g.sequenceEmptiness guard symbols) :=
  Emptiness.ofSequence_keeps (symbolEmptiness_keeps hinv guard) symbols

theorem bodyEmptiness_keeps (hinv : Robust inv) (guard : SymbolSet) (r : Rule) :
    Keeps inv (g.bodyEmptiness guard r) :=
  Emptiness.ofRule_keeps hinv (symbolEmptiness_keeps hinv guard) r

theorem symbolCanBeEmpty_keeps (hinv : Robust inv) (s : Symbol) :
    Keeps inv (g.symbolCanBeEmpty s) :=
  (symbolEmptiness_keeps hinv ∅ s).bind fun _ _ => .pure trivial

theorem sequenceCanBeEmpty_keeps (hinv : Robust inv) (symbols : List Symbol) :
    Keeps inv (g.sequenceCanBeEmpty symbols) :=
  (sequenceEmptiness_keeps hinv ∅ symbols).bind fun _ _ => .pure trivial

theorem firstVia_keeps (hinv : Robust inv) {start : Symbol → Analysis SymbolSet}
    (h : ∀ s, Keeps inv (start s)) (symbols : List Symbol) :
    Keeps inv (g.firstVia start symbols) := by
  induction symbols with
  | nil => exact .pure trivial
  | cons s rest ih =>
    unfold firstVia
    split
    · exact .pure trivial
    refine (h s).bind fun found _ => ?_
    split
    · exact .pure trivial
    refine (symbolCanBeEmpty_keeps hinv s).bind fun canBeEmpty _ => ?_
    split
    · exact ih.bind fun _ _ => .pure trivial
    · exact .pure trivial

theorem variableFirst_keeps (hinv : Robust inv) (guard : SymbolSet) (s : Symbol) :
    Keeps inv (g.variableFirst guard s) := by
  induction guard, s using guard_induction (g := g) with
  | step guard s ih =>
    rw [variableFirst]
    split
    · exact .throw trivial
    next hguard =>
    refine keeps_lookUp fun found => ?_
    cases found with
    | some known => exact .pure trivial
    | none =>
      dsimp only
      split
      · exact .throw trivial
      next hrules =>
      refine (keeps_unionOver fun r _ => ?_).bind fun found _ => ?_
      · exact firstVia_keeps hinv (ih hguard hrules) r.body
      exact Ensures.remember_bind (fun memo => hinv.first memo _ _) (.pure trivial)

theorem guardedFirst_keeps (hinv : Robust inv) (guard : SymbolSet) (symbols : List Symbol) :
    Keeps inv (g.guardedFirst guard symbols) :=
  firstVia_keeps hinv (variableFirst_keeps hinv guard) symbols

theorem occurrences_keeps (hinv : Robust inv) (s : Symbol) : Keeps inv (g.occurrences s) := by
  unfold occurrences
  refine keeps_lookUp fun found => ?_
  cases found with
  | some count => exact .pure trivial
  | none => exact Ensures.remember_bind (fun memo => hinv.scanned memo _ _) (.pure trivial)

end Grammar

end Predictive
