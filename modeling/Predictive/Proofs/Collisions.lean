import Predictive.Proofs.Disjointness
import Predictive.Proofs.Independence
import Predictive.Proofs.Outcomes

/-!
# The check of determinism and the listing of collisions

Both go through the alternatives of all variables with the same claims, the check up to the first
collision and the listing up to the end. `StopsAtFirst` compares the two from the same memory, part
by part: while the check goes on, the listing has listed nothing and remembers the same, and where
the check stops at a collision, that is the first one listed. The listing may still end in an error
further on.
-/

namespace Predictive

open Analysis (forEach)

/-- A check and a listing have come to the same: both have found nothing, the check has stopped at
the first of the collisions listed, or both have ended in an error. -/
inductive SameFirst :
    Except GrammarError Unit × Memo → Except GrammarError (List Collision) × Memo → Prop where
  | passed (after : Memo) : SameFirst (.ok (), after) (.ok [], after)
  | stopped (c : Collision) (later : List Collision) (after after' : Memo) :
      SameFirst (.error (.collision c), after) (.ok (c :: later), after')
  | failed (e e' : GrammarError) (after after' : Memo) :
      SameFirst (.error e, after) (.error e', after')

/-- From the same memory, the check stops at the first collision of the listing. -/
def StopsAtFirst (check : Analysis Unit) (listing : Analysis (List Collision)) : Prop :=
  ∀ memo, SameFirst (check.runFrom memo) (listing.runFrom memo)

namespace StopsAtFirst

variable {check rest : Analysis Unit} {listing others : Analysis (List Collision)}

theorem pure : StopsAtFirst (pure ()) (pure []) :=
  fun memo => .passed memo

/-- Whatever the listing goes on with, its first collision is there. -/
theorem throw (c : Collision) (here : List Collision) :
    StopsAtFirst (throw (.collision c)) (do
      let later ← listing
      return c :: here ++ later) := by
  intro memo
  rw [Analysis.runFrom_bind]
  rcases listing.runFrom memo with ⟨outcome, after⟩
  cases outcome with
  | ok later => exact .stopped c (here ++ later) memo after
  | error e => exact .failed _ e memo after

/-- The two may begin with the same search. -/
theorem bind {α : Type} (x : Analysis α) {check : α → Analysis Unit}
    {listing : α → Analysis (List Collision)} (h : ∀ a, StopsAtFirst (check a) (listing a)) :
    StopsAtFirst (x >>= check) (x >>= listing) := by
  intro memo
  rw [Analysis.runFrom_bind, Analysis.runFrom_bind]
  rcases x.runFrom memo with ⟨outcome, after⟩
  cases outcome with
  | ok a => exact h a after
  | error e => exact .failed e e after after

/-- One check goes on after another where the other has listed nothing. -/
theorem append (h : StopsAtFirst check listing) (hrest : StopsAtFirst rest others) :
    StopsAtFirst (do check; rest) (do
      let found ← listing
      let later ← others
      return found ++ later) := by
  intro memo
  have hfirst := h memo
  rw [Analysis.runFrom_bind, Analysis.runFrom_bind]
  generalize check.runFrom memo = checked at hfirst
  generalize listing.runFrom memo = listed at hfirst
  cases hfirst with
  | passed after => simpa using hrest after
  | stopped c later after after' =>
    dsimp only
    rw [Analysis.runFrom_bind]
    rcases others.runFrom after' with ⟨outcome, final⟩
    cases outcome with
    | ok more => exact .stopped c (later ++ more) after final
    | error e => exact .failed _ e after final
  | failed e e' after after' => exact .failed e e' after after'

/-- The first collision that is listed stops the check. -/
theorem error_of_run (h : StopsAtFirst check listing) {memo : Memo} {c : Collision}
    {later : List Collision} (hrun : (listing.runFrom memo).1 = .ok (c :: later)) :
    (check.runFrom memo).1 = .error (.collision c) := by
  have hfirst := h memo
  generalize check.runFrom memo = checked at hfirst ⊢
  generalize listing.runFrom memo = listed at hfirst hrun
  cases hfirst with
  | passed after => cases hrun
  | stopped c' later' after after' =>
    cases hrun
    rfl
  | failed e e' after after' => cases hrun

/-- The collision that stops the check is the first listed, if the listing comes to an end. -/
theorem run_of_error (h : StopsAtFirst check listing) {memo : Memo} {c : Collision}
    (hstop : (check.runFrom memo).1 = .error (.collision c)) :
    (∃ later, (listing.runFrom memo).1 = .ok (c :: later)) ∨
      ∃ e, (listing.runFrom memo).1 = .error e := by
  have hfirst := h memo
  generalize check.runFrom memo = checked at hfirst hstop
  generalize listing.runFrom memo = listed at hfirst
  cases hfirst with
  | passed after => cases hstop
  | stopped c' later after after' =>
    cases hstop
    exact .inl ⟨later, rfl⟩
  | failed e e' after after' => exact .inr ⟨e', rfl⟩

end StopsAtFirst

namespace Grammar

variable (g : Grammar)

theorem checkAmong_stopsAtFirst (owner : Symbol) (rules : List Rule) (claims : Claims) :
    StopsAtFirst (g.checkAmong owner rules claims) (g.collisionsAmong owner rules claims) := by
  induction rules generalizing claims with
  | nil => exact .pure
  | cons r rest ih =>
    unfold checkAmong collisionsAmong
    refine .bind _ fun selected => ?_
    cases claims.collisions owner r selected with
    | nil => simpa using ih (claims.add r selected)
    | cons c here => exact .throw c here

/-- The listing of some variables, in one list. -/
theorem checkVariables_stopsAtFirst (vs : List Symbol) :
    StopsAtFirst (g.checkVariables vs) (do
      let found ← forEach (fun v => g.collisionsAmong v (g.alternatives v) ∅) vs
      return found.flatten) := by
  induction vs with
  | nil => exact .pure
  | cons v rest ih =>
    have happend := (g.checkAmong_stopsAtFirst v (g.alternatives v) ∅).append ih
    unfold checkVariables forEach
    simpa only [bind_assoc, pure_bind, List.flatten_cons] using happend

/-- The check of determinism stops at the first collision that is listed. -/
theorem requireDeterministic_stopsAtFirst : StopsAtFirst g.requireDeterministic g.collisions :=
  g.checkVariables_stopsAtFirst g.nonterminals

/-- The list is what the check and the lookahead sets of the grammar say: the claimed sets are the
answers with the same memory. -/
structure CollisionsAgree (memo : Memo) (claimed : Claimed) (found : List Collision) : Prop where
  /-- Without collisions the check passes. -/
  passes : found = [] ↔ (g.requireDeterministic.runFrom memo).1 = .ok ()
  disjoint : found = [] ↔ ∀ v ∈ g.nonterminals, (g.alternatives v).Pairwise fun r q =>
    ∀ t ∈ claimed.selected r, t ∉ claimed.selected q
  isDeterministic : ∃ b, (g.isDeterministic.runFrom memo).1 = .ok b ∧ (found = [] ↔ b = true)
  /-- Otherwise the check stops at the first of them. -/
  stops : ∀ c later, found = c :: later →
    (g.requireDeterministic.runFrom memo).1 = .error (.collision c)
  /-- The two rules of a collision are different alternatives in the order of declaration. -/
  ordered : ∀ c ∈ found, [c.first, c.second].Sublist (g.alternatives c.owner) ∧ c.first ≠ c.second
  shared : ∀ c ∈ found, c.symbol ∈ claimed.selected c.first ∧ c.symbol ∈ claimed.selected c.second
  /-- No alternative before the first of the two has the symbol. -/
  earliest : ∀ c ∈ found, ∃ before after, g.alternatives c.owner = before ++ c.first :: after ∧
    ∀ r ∈ before, c.symbol ∉ claimed.selected r
  /-- A symbol that two alternatives of a variable have is listed for the variable. -/
  complete : ∀ v, ∀ r ∈ g.alternatives v, ∀ q ∈ g.alternatives v, r ≠ q →
    ∀ t, t ∈ claimed.selected r → t ∈ claimed.selected q →
      ∃ c ∈ found, c.owner = v ∧ c.symbol = t

variable {g}

/-- A list that the grammar gives agrees with the sets that it gives. -/
theorem WellFormed.collisionsAgree_of_run (wf : g.WellFormed) {memo : Memo} (hexact : memo.Exact g)
    {claimed : Claimed} (hclaimed : claimed.Answered g memo) {found : List Collision}
    (hrun : (g.collisions.runFrom memo).1 = .ok found) : g.CollisionsAgree memo claimed found := by
  have hlisted := wf.collisions_ensures.value_of_run hexact hrun
  have hdet : found = [] ↔ g.Deterministic := wf.collisions_eq_nil_iff hlisted
  have hselected : ∀ v, ∀ r ∈ g.alternatives v, ∀ t, t ∈ claimed.selected r ↔ g.Selects r t :=
    fun v r hr t => hclaimed.mem_selected_iff wf hexact (rules_of_alternatives v r hr)
  have hshared : ∀ c ∈ found,
      c.symbol ∈ claimed.selected c.first ∧ c.symbol ∈ claimed.selected c.second := by
    intro c hc
    have hamong := (hlisted.2 c).1 hc
    exact ⟨(hselected _ _ hamong.first.mem _).2 hamong.first.selects,
      (hselected _ _ hamong.second_mem _).2 hamong.second⟩
  constructor
  case passes => rw [hdet, wf.requireDeterministic_ok_iff hexact]
  case disjoint =>
    refine ⟨fun hnone v _ => hclaimed.apart wf hexact (hdet.1 hnone) v, fun hdisjoint => ?_⟩
    refine List.eq_nil_iff_forall_not_mem.2 fun c hc => ?_
    have hamong := (hlisted.2 c).1 hc
    have howner := mem_nonterminals.2 ⟨c.second, mem_alternatives.1 hamong.second_mem⟩
    have hpair := (hdisjoint c.owner howner).sublist hamong.ordered
    obtain ⟨hfirst, hsecond⟩ := hshared c hc
    exact List.pairwise_pair.1 hpair c.symbol hfirst hsecond
  case isDeterministic =>
    obtain ⟨b, hb, hiff⟩ := wf.isDeterministic_ensures.exists_value hexact
      (not_isLeftRecursion_of_bodies hlisted.1)
    exact ⟨b, hb, hdet.trans hiff.symm⟩
  case stops =>
    rintro c later rfl
    exact g.requireDeterministic_stopsAtFirst.error_of_run hrun
  case ordered =>
    intro c hc
    have hamong := (hlisted.2 c).1 hc
    exact ⟨hamong.ordered, hamong.first_ne_second (nodup_alternatives c.owner)⟩
  case shared => exact hshared
  case earliest =>
    intro c hc
    obtain ⟨before, after, halternatives, -, hbefore⟩ := ((hlisted.2 c).1 hc).first
    refine ⟨before, after, halternatives, fun r hr hsymbol => hbefore r hr ?_⟩
    exact (hselected c.owner r (by simp [halternatives, hr]) c.symbol).1 hsymbol
  case complete =>
    intro v r hr q hq hne t hrt hqt
    obtain ⟨c, rfl, rfl, hamong⟩ := Collision.exists_among hr hq hne
      ((hselected v r hr t).1 hrt) ((hselected v q hq t).1 hqt) v
    exact ⟨c, (hlisted.2 c).2 hamong, rfl, rfl⟩

/-- The check and the listing agree, whatever was asked before each. If there is a list, it is empty
just where the check passes and the sets of all alternatives are disjoint, and otherwise the check
stops at its first collision. If the check stops at a collision, there is a list that begins with
it, unless left recursion is in the way of the listing. -/
theorem collisions_agree {text : String} (hread : ofText text = .ok g) {listed memo : Memo}
    (hlisted : g.Reachable listed) (hmemo : g.Reachable memo) :
    (∀ found, (g.collisions.runFrom listed).1 = .ok found →
      ∃ claimed, Claimed.Answered g memo claimed ∧ g.CollisionsAgree memo claimed found) ∧
    ∀ c, (g.requireDeterministic.runFrom memo).1 = .error (.collision c) →
      (∃ later, (g.collisions.runFrom listed).1 = .ok (c :: later)) ∨
        ∃ v, (g.collisions.runFrom listed).1 = .error (.leftRecursion v) := by
  have wf := wellFormed_ofText hread
  have hexact := hmemo.exact wf
  rw [wf.collisions_steady.outcome_eq (hlisted.exact wf) hexact]
  constructor
  · intro found hrun
    have hbodies := (wf.collisions_ensures.value_of_run hexact hrun).1
    have hclaimed := Claimed.answered_of_not_isLeftRecursion wf
      (not_isLeftRecursion_of_bodies hbodies) hexact
    exact ⟨_, hclaimed, wf.collisionsAgree_of_run hexact hclaimed hrun⟩
  · intro c hstop
    rcases g.requireDeterministic_stopsAtFirst.run_of_error hstop with hlist | ⟨e, herror⟩
    · exact .inl hlist
    · have hleft := (wf.collisions_ensures memo hexact).2
      rw [herror] at hleft
      obtain ⟨v, rfl, -⟩ : g.IsLeftRecursion e := hleft
      exact .inr ⟨v, herror⟩

/-- Two variables whose alternatives share a symbol: both collisions are listed, and the check stops
at the first. -/
theorem collisions_agree_of_sharedFront :
    ofText "S = A A x\nS = A A y\nA = a\nA = EMPTY" = .ok sharedFront ∧
      ∃ c later claimed, (sharedFront.collisions.runFrom {}).1 = .ok (c :: later) ∧
        Claimed.Answered sharedFront (sharedFront.isDeterministic.runFrom {}).2 claimed ∧
        sharedFront.CollisionsAgree (sharedFront.isDeterministic.runFrom {}).2 claimed
          (c :: later) := by
  have hlist : (sharedFront.collisions.runFrom {}).1 =
      .ok [⟨"S", "a", ⟨⟨"S", ["A", "A", "x"]⟩, "S", 0⟩, ⟨⟨"S", ["A", "A", "y"]⟩, "S", 1⟩⟩,
        ⟨"A", "a", ⟨⟨"A", ["a"]⟩, "A", 2⟩, ⟨⟨"A", []⟩, "A", 3⟩⟩] := by
    cbv
  obtain ⟨claimed, hclaimed, hagree⟩ :=
    (collisions_agree ofText_sharedFront .new (.ask .new .isDeterministic)).1 _ hlist
  exact ⟨ofText_sharedFront, _, _, claimed, hlist, hclaimed, hagree⟩

end Grammar

end Predictive
