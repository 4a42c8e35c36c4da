import Predictive.Proofs.History

/-!
# What the answers of a grammar mean

Whatever was asked of a grammar before, and whatever guard a question carries, an answer about the
empty string or about what follows a symbol can be taken at its word. An answer without cuts is the
truth, and an answer with cuts says no more than what holds apart from the guarded variables that
it was cut at. The same is true of all that is remembered. What a sequence begins with is found
unless a left-recursive variable is met, and met it is wherever left-corner steps lead to one.
-/

namespace Predictive

namespace Grammar

open Relation (ReflTransGen)

variable (g : Grammar)

/-! Answers about the empty string. -/

/-- A positive answer is not cut and true. A negative one is cut at guarded variables, one of which
is expanded in every derivation of the empty string; without cuts there is none. -/
structure EmptinessAnswer (guard : SymbolSet) (form : List Symbol) (answer : Cut Bool) : Prop where
  yes : answer.value = true → answer.cuts = ∅ ∧ g.Derives form []
  no : answer.value = false → (∀ s ∈ answer.cuts, s ∈ guard) ∧
    ∀ rules, g.DerivesBy rules form [] → ∃ r ∈ rules, r.head ∈ answer.cuts
  final : answer.value = false → answer.cuts = ∅ → ¬g.Derives form []

/-- With the given memory, every question about the empty string is answered, by what is true. -/
structure EmptinessExact (memo : Memo) : Prop where
  /-- Of a symbol, under a guard. -/
  ofSymbol : ∀ guard s, g.IsSymbol s → ∃ answer,
    ((g.symbolEmptiness guard s).runFrom memo).1 = .ok answer ∧ g.EmptinessAnswer guard [s] answer
  /-- Of a sequence, under a guard. -/
  ofSequence : ∀ guard symbols, (∀ s ∈ symbols, g.IsSymbol s) → ∃ answer,
    ((g.sequenceEmptiness guard symbols).runFrom memo).1 = .ok answer ∧
      g.EmptinessAnswer guard symbols answer
  /-- Of a rule, under a guard. -/
  ofRule : ∀ guard, ∀ r ∈ g.rules, ∃ answer,
    ((g.bodyEmptiness guard r).runFrom memo).1 = .ok answer ∧ g.EmptinessAnswer guard r.body answer
  /-- Without a guard. -/
  symbolCanBeEmpty : ∀ s, g.IsSymbol s → ∃ b,
    ((g.symbolCanBeEmpty s).runFrom memo).1 = .ok b ∧ (b = true ↔ g.Derives [s] [])
  sequenceCanBeEmpty : ∀ symbols, (∀ s ∈ symbols, g.IsSymbol s) → ∃ b,
    ((g.sequenceCanBeEmpty symbols).runFrom memo).1 = .ok b ∧ (b = true ↔ g.Derives symbols [])
  ruleCanBeEmpty : ∀ r ∈ g.rules, ∃ b,
    ((g.ruleCanBeEmpty r).runFrom memo).1 = .ok b ∧ (b = true ↔ g.Derives r.body [])
  /-- What is remembered of a symbol and of a rule. -/
  remembered : ∀ s known, memo.emptiness[s]? = some known → (known = true ↔ g.Derives [s] [])
  rememberedRule : ∀ r ∈ g.rules, ∀ known, memo.ruleEmptiness[r.index]? = some known →
    (known = true ↔ g.Derives r.body [])

variable {g}

/-- What the search settles is what an answer says. -/
theorem EmptinessAnswer.of_settles {guard : SymbolSet} {form : List Symbol} {answer : Cut Bool}
    (h : Emptiness.Settles g guard form answer) : g.EmptinessAnswer guard form answer where
  yes := h.yes
  no hno := by
    obtain ⟨hguard, herases⟩ := h.no hno
    refine ⟨hguard, fun rules hrules => ?_⟩
    by_contra hnone
    refine herases (erases_iff_exists_derivesBy.2 ⟨rules, hrules, fun r hr hcut => ?_⟩)
    exact hnone ⟨r, hr, hcut⟩
  final hno hcuts hderives := by
    have herases := (h.no hno).2
    rw [hcuts] at herases
    exact herases (erases_empty_iff.2 hderives)

/-- Questions about the empty string are answered by what is true, whatever was asked before. -/
theorem emptiness_exact {text : String} (hread : ofText text = .ok g) {memo : Memo}
    (hmemo : g.Reachable memo) : g.EmptinessExact memo := by
  have wf := wellFormed_ofText hread
  have hexact := hmemo.exact wf
  have known {s : Symbol} (hs : g.IsSymbol s) (e : GrammarError) : ¬g.Unknown s e :=
    fun he => he.2 hs
  have knownAll {symbols : List Symbol} (hsymbols : ∀ s ∈ symbols, g.IsSymbol s)
      (e : GrammarError) : ¬∃ s ∈ symbols, g.Unknown s e :=
    fun ⟨s, hs, he⟩ => known (hsymbols s hs) e he
  constructor
  · intro guard s hs
    obtain ⟨answer, hrun, hanswer⟩ :=
      (wf.symbolEmptiness_ensures guard s).exists_value hexact (known hs)
    exact ⟨answer, hrun, .of_settles hanswer⟩
  · intro guard symbols hsymbols
    obtain ⟨answer, hrun, hanswer⟩ :=
      (wf.sequenceEmptiness_ensures guard symbols).exists_value hexact (knownAll hsymbols)
    exact ⟨answer, hrun, .of_settles hanswer⟩
  · intro guard r hr
    obtain ⟨answer, hrun, hanswer⟩ :=
      (wf.bodyEmptiness_ensures guard hr).exists_value hexact fun _ he => he
    exact ⟨answer, hrun, .of_settles hanswer⟩
  · exact fun s hs => (wf.symbolCanBeEmpty_ensures s).exists_value hexact (known hs)
  · exact fun symbols hsymbols =>
      (wf.sequenceCanBeEmpty_ensures symbols).exists_value hexact (knownAll hsymbols)
  · exact fun r hr => (wf.ruleCanBeEmpty_ensures hr).exists_value hexact fun _ he => he
  · exact fun s known hentry => (hexact.emptiness s known hentry).2
  · exact fun r hr known hentry => hexact.ruleEmptiness r.index known hentry r hr rfl

/-- Two variables that end in one another, with an empty alternative. -/
def mutualCycle : Grammar :=
  .ofProductions ⟨"S", ["A", "x"]⟩ [⟨"A", ["a", "B"]⟩, ⟨"A", []⟩, ⟨"B", ["A"]⟩]

theorem ofText_mutualCycle : ofText "S = A x\nA = a B\nA = EMPTY\nB = A" = .ok mutualCycle := rfl

/-- An answer that was cut at the guarded half of a cycle spoils no later one. -/
theorem emptiness_exact_of_mutualCycle :
    ofText "S = A x\nA = a B\nA = EMPTY\nB = A" = .ok mutualCycle ∧
      mutualCycle.EmptinessExact ((mutualCycle.symbolEmptiness {"A"} "B").runFrom {}).2 := by
  have hmemo : mutualCycle.Reachable ((mutualCycle.symbolEmptiness {"A"} "B").runFrom {}).2 :=
    .ask .new (.symbolEmptiness {"A"} "B")
  exact ⟨ofText_mutualCycle, emptiness_exact ofText_mutualCycle hmemo⟩

/-! Answers about what a sequence begins with. -/

variable (g) in
/-- A left-recursive variable is reached by left-corner steps from a symbol of the form that has
only symbols before it that derive the empty string. -/
def MeetsLeftRecursion (form : List Symbol) : Prop :=
  ∃ s, g.Corner form s ∧ ∃ v, ReflTransGen g.LeftCorner s v ∧ g.LeftRecursive v

/-- Left recursion is met in the forms that are not grounded. -/
theorem meetsLeftRecursion_iff {form : List Symbol} :
    g.MeetsLeftRecursion form ↔ ¬g.GroundedForm form := by
  constructor
  · rintro ⟨s, hs, v, hsv, hv⟩ hgrounded
    exact hgrounded s hs v hsv hv
  · intro hground
    by_contra hnone
    exact hground fun s hs v hsv hv => hnone ⟨s, hs, v, hsv, hv⟩

/-- What a sequence of symbols begins with is found exactly, unless left recursion is met; then the
error names a left-recursive variable. This is so whatever was asked before. -/
theorem first_exact {text : String} (hread : ofText text = .ok g) {memo : Memo}
    (hmemo : g.Reachable memo) {symbols : List Symbol} (hsymbols : ∀ s ∈ symbols, g.IsSymbol s) :
    ((∃ v, ((g.first symbols).runFrom memo).1 = .error (.leftRecursion v)) ↔
        g.MeetsLeftRecursion symbols) ∧
      (∀ e, ((g.first symbols).runFrom memo).1 = .error e →
        ∃ v, e = .leftRecursion v ∧ g.LeftRecursive v) ∧
      (¬g.MeetsLeftRecursion symbols → ∃ found, ((g.first symbols).runFrom memo).1 = .ok found ∧
        ∀ t, t ∈ found ↔ g.Begins symbols t) := by
  have wf := wellFormed_ofText hread
  have hensures := wf.first_of_symbols_ensures hsymbols
  have houtcome := (hensures memo (hmemo.exact wf)).2
  rw [meetsLeftRecursion_iff, not_not]
  cases hrun : ((g.first symbols).runFrom memo).1 with
  | ok found =>
    rw [hrun] at houtcome
    obtain ⟨hgrounded, hfound⟩ : g.FirstOf symbols found := houtcome
    refine ⟨?_, nofun, fun _ => ⟨found, rfl, hfound⟩⟩
    exact iff_of_false (fun ⟨_, hv⟩ => nomatch hv) (not_not_intro hgrounded)
  | error e =>
    rw [hrun] at houtcome
    obtain ⟨⟨v, rfl, hv⟩, hground⟩ : g.UngroundedError (g.GroundedForm symbols) e := houtcome
    refine ⟨iff_of_true ⟨v, rfl⟩ hground, ?_, fun hgrounded => absurd hgrounded hground⟩
    rintro _ ⟨⟩
    exact ⟨v, rfl, hv⟩

/-- A variable that begins with itself behind another one that can be erased. -/
def hiddenCycle : Grammar :=
  .ofProductions ⟨"S", ["A", "S", "x"]⟩ [⟨"S", ["y"]⟩, ⟨"A", []⟩]

theorem ofText_hiddenCycle : ofText "S = A S x\nS = y\nA = EMPTY" = .ok hiddenCycle := rfl

/-- The variable is met behind another occurrence of the erased one, though a guarded search has
found nothing wrong with that before. -/
theorem first_exact_of_hiddenCycle :
    ofText "S = A S x\nS = y\nA = EMPTY" = .ok hiddenCycle ∧
      (∀ s ∈ ["A", "S"], hiddenCycle.IsSymbol s) ∧
      ((∃ v, ((hiddenCycle.first ["A", "S"]).runFrom
          ((hiddenCycle.guardedFirst {"S"} ["A"]).runFrom {}).2).1 = .error (.leftRecursion v)) ↔
        hiddenCycle.MeetsLeftRecursion ["A", "S"]) := by
  have hsymbols : ∀ s ∈ ["A", "S"], hiddenCycle.IsSymbol s := by
    intro s hs
    exact .inr (by revert s; decide)
  have hmemo : hiddenCycle.Reachable ((hiddenCycle.guardedFirst {"S"} ["A"]).runFrom {}).2 :=
    .ask .new (.first {"S"} ["A"])
  exact ⟨ofText_hiddenCycle, hsymbols, (first_exact ofText_hiddenCycle hmemo hsymbols).1⟩

/-! Answers about what follows. -/

variable (g)

/-- The answer is cut at guarded variables; all that it holds follows the symbol, and without cuts
it holds all that does. -/
structure FollowAnswer (guard : SymbolSet) (s : Symbol) (answer : Cut SymbolSet) : Prop where
  guarded : ∀ v ∈ answer.cuts, v ∈ guard
  sound : ∀ t ∈ answer.value, g.Follows s t
  complete : answer.cuts = ∅ → ∀ t, g.Follows s t → t ∈ answer.value

/-- The variable occurs in a form that the start symbol derives. -/
def Occurs (v : Symbol) : Prop :=
  ∃ before after, g.Derives [g.start] (before ++ v :: after)

/-- With the given memory, a question about what follows a symbol is answered by what does. -/
structure FollowExact (memo : Memo) : Prop where
  /-- Under a guard. -/
  guarded : ∀ guard s answer, ((g.guardedFollow guard s).runFrom memo).1 = .ok answer →
    g.FollowAnswer guard s answer
  /-- Without a guard. -/
  unguarded : ∀ s found, ((g.follow s).runFrom memo).1 = .ok found → ∀ t, t ∈ found ↔ g.Follows s t
  /-- Where every variable can be reached, the forms of the start symbol are enough. -/
  fromStart : (∀ v ∈ g.nonterminals, g.Occurs v) →
    ∀ s found, ((g.follow s).runFrom memo).1 = .ok found → ∀ t, t ∈ found ↔
      g.isTerminal t ∧ ∃ before after, g.Derives [g.start] (before ++ s :: t :: after)
  /-- There is an answer unless a variable is left recursive. -/
  answered : (∀ v, ¬g.LeftRecursive v) →
    ∀ guard s, ∃ answer, ((g.guardedFollow guard s).runFrom memo).1 = .ok answer
  /-- What is remembered. -/
  remembered : ∀ s known, memo.follow[s]? = some known → ∀ t, t ∈ known ↔ g.Follows s t

variable {g}

/-- Where every variable can be reached, a terminal follows a symbol just where it does so in a form
of the start symbol. -/
theorem WellFormed.follows_iff_of_occurs (wf : g.WellFormed)
    (hoccurs : ∀ v ∈ g.nonterminals, g.Occurs v) {s t : Symbol} :
    g.Follows s t ↔
      g.isTerminal t ∧ ∃ before after, g.Derives [g.start] (before ++ s :: t :: after) := by
  constructor
  · rintro ⟨ht, v, hv, before, after, hform⟩
    obtain ⟨front, back, hstart⟩ := hoccurs v hv
    refine ⟨ht, front ++ before, after ++ back, ?_⟩
    exact hstart.trans (by simpa using hform.within front back)
  · rintro ⟨ht, before, after, hform⟩
    exact ⟨ht, g.start, wf.start_mem, before, after, hform⟩

/-- Questions about what follows are answered by what does, whatever was asked before. -/
theorem follow_exact {text : String} (hread : ofText text = .ok g) {memo : Memo}
    (hmemo : g.Reachable memo) : g.FollowExact memo := by
  have wf := wellFormed_ofText hread
  have hexact := hmemo.exact wf
  constructor
  · intro guard s answer hrun
    have hanswer := (wf.guardedFollow_ensures guard s).value_of_run hexact hrun
    refine ⟨hanswer.guarded, hanswer.sound, fun hcuts t ht => ?_⟩
    exact (wf.iff_of_followOf hanswer hcuts t).2 ht
  · exact fun s found hrun => (wf.follow_ensures s).value_of_run hexact hrun
  · intro hoccurs s found hrun t
    rw [(wf.follow_ensures s).value_of_run hexact hrun t]
    exact wf.follows_iff_of_occurs hoccurs
  · intro hrec guard s
    obtain ⟨answer, hrun, -⟩ := (wf.guardedFollow_ensures guard s).exists_value hexact
      fun _ ⟨v, _, hv⟩ => hrec v hv
    exact ⟨answer, hrun⟩
  · exact hexact.follow

/-- What follows one half of a cycle also follows the other, after an answer that was cut between
them. -/
theorem follow_exact_of_mutualCycle :
    ofText "S = A x\nA = a B\nA = EMPTY\nB = A" = .ok mutualCycle ∧
      mutualCycle.FollowExact ((mutualCycle.guardedFollow {"A"} "B").runFrom {}).2 := by
  have hmemo : mutualCycle.Reachable ((mutualCycle.guardedFollow {"A"} "B").runFrom {}).2 :=
    .ask .new (.follow {"A"} "B")
  exact ⟨ofText_mutualCycle, follow_exact ofText_mutualCycle hmemo⟩

end Grammar

end Predictive
