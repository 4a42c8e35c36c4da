import Predictive.Analysis.Determinism
import Predictive.Proofs.Analysis.Lookahead

/-!
# The check of determinism is exact

Among the alternatives of a variable every terminal is held by the first rule that it selects
(`Claims.HeldFor`), so the check stops at the first alternative that shares a terminal with one
before it. It passes exactly the deterministic grammars (`requireDeterministic_ensures`,
`requireDeterministic_ok_iff`). The listing holds exactly the collisions of a rule with the first
one that its terminal selects (`collisions_ensures`), so it is empty just for the deterministic
grammars (`collisions_eq_nil_iff`).
-/

namespace Predictive

open Analysis (Ensures)

namespace Claims

/-- A claimed terminal stays with the rule that claimed it first. -/
theorem getElem?_add (claims : Claims) (r : Rule) (selected : SymbolSet) (s : Symbol) :
    (claims.add r selected)[s]? = claims[s]?.or (if s ∈ selected then some r else none) := by
  suffices hlist : ∀ (symbols : List Symbol) (held : Claims),
      (symbols.foldl (fun held s => held.insertIfNew s r) held)[s]? =
        held[s]?.or (if s ∈ symbols then some r else none) by
    simpa [add] using hlist selected.toList claims
  intro symbols
  induction symbols with
  | nil => simp
  | cons t rest ih =>
    intro held
    rw [List.foldl_cons, ih, Std.ExtTreeMap.getElem?_insertIfNew]
    by_cases hts : t = s
    · subst hts
      by_cases hmem : t ∈ held
      · simp [hmem]
      · simp [hmem]
    · simp [hts, Ne.symm hts]

theorem mem_collisions_iff {claims : Claims} {owner : Symbol} {r : Rule} {selected : SymbolSet}
    {c : Collision} :
    c ∈ claims.collisions owner r selected ↔ c.owner = owner ∧ c.second = r ∧
      c.symbol ∈ selected ∧ claims[c.symbol]? = some c.first := by
  simp only [collisions, List.mem_filterMap, Std.ExtTreeSet.mem_toList, Option.map_eq_some_iff]
  constructor
  · rintro ⟨s, hs, first, hfirst, rfl⟩
    exact ⟨rfl, rfl, hs, hfirst⟩
  · rintro ⟨rfl, rfl, hs, hfirst⟩
    exact ⟨c.symbol, hs, c.first, hfirst, rfl⟩

/-- Every terminal is held by the first of the rules that it selects. -/
def HeldFor (g : Grammar) (rules : List Rule) (claims : Claims) : Prop :=
  ∀ s r, claims[s]? = some r ↔ g.FirstSelected rules s r

variable {g : Grammar}

theorem heldFor_nil : HeldFor g [] ∅ := by
  intro s r
  rw [Std.ExtTreeMap.getElem?_empty]
  exact iff_of_false nofun (Grammar.not_firstSelected_nil s r)

/-- A free terminal is one that selects no rule so far. -/
theorem HeldFor.eq_none_iff {rules : List Rule} {claims : Claims} (h : claims.HeldFor g rules)
    {s : Symbol} : claims[s]? = none ↔ ∀ r ∈ rules, ¬g.Selects r s := by
  constructor
  · intro hnone r hr hselects
    obtain ⟨q, hq⟩ := Grammar.exists_firstSelected ⟨r, hr, hselects⟩
    rw [(h s q).2 hq] at hnone
    cases hnone
  · intro hfree
    cases hclaim : claims[s]? with
    | none => rfl
    | some q =>
      have hq := (h s q).1 hclaim
      exact absurd hq.selects (hfree q hq.mem)

theorem HeldFor.add {rules : List Rule} {claims : Claims} (h : claims.HeldFor g rules) {r : Rule}
    {selected : SymbolSet} (hselected : ∀ t, t ∈ selected ↔ g.Selects r t) :
    (claims.add r selected).HeldFor g (rules ++ [r]) := by
  intro s q
  rw [getElem?_add, Grammar.firstSelected_append_singleton_iff, ← h s q]
  cases hclaim : claims[s]? with
  | none =>
    have hfree := h.eq_none_iff.1 hclaim
    rw [Option.none_or]
    by_cases hs : s ∈ selected
    · rw [if_pos hs]
      constructor
      · intro hr
        obtain rfl := Option.some.inj hr
        exact .inr ⟨rfl, (hselected s).1 hs, hfree⟩
      · rintro (hq | ⟨rfl, -⟩)
        · cases hq
        · rfl
    · rw [if_neg hs]
      refine iff_of_false nofun ?_
      rintro (hq | ⟨-, hselects, -⟩)
      · cases hq
      · exact hs ((hselected s).2 hselects)
  | some p =>
    have hp := (h s p).1 hclaim
    have hheld : ¬∀ p ∈ rules, ¬g.Selects p s := fun hfree => hfree p hp.mem hp.selects
    simp [hheld]

/-- A collision that is found among rules is one of them with the rule that holds the symbol. -/
theorem HeldFor.among {rules rest : List Rule} {claims : Claims} (h : claims.HeldFor g rules)
    {r : Rule} {selected : SymbolSet} (hselected : ∀ t, t ∈ selected ↔ g.Selects r t)
    {owner : Symbol} {c : Collision} (hc : c ∈ claims.collisions owner r selected) :
    c.owner = owner ∧ c.second = r ∧ c.Among g (rules ++ r :: rest) := by
  obtain ⟨howner, rfl, hsymbol, hfirst⟩ := mem_collisions_iff.1 hc
  have hheld := (h _ _).1 hfirst
  refine ⟨howner, rfl, ?_, hheld.append _, (hselected _).1 hsymbol⟩
  have hfront : [c.first].Sublist rules := List.singleton_sublist.2 hheld.mem
  have hback : [c.second].Sublist (c.second :: rest) := List.singleton_sublist.2 List.mem_cons_self
  exact hfront.append hback

/-- All collisions of the rule with those before it are found. -/
theorem HeldFor.mem_collisions {rules rest : List Rule} {claims : Claims}
    (h : claims.HeldFor g rules) {selected : SymbolSet} {c : Collision}
    (hselected : ∀ t, t ∈ selected ↔ g.Selects c.second t)
    (hnodup : (rules ++ c.second :: rest).Nodup) (hc : c.Among g (rules ++ c.second :: rest)) :
    c ∈ claims.collisions c.owner c.second selected := by
  have hheld := hc.first.of_append (hc.first_mem hnodup)
  exact mem_collisions_iff.2 ⟨rfl, rfl, (hselected _).2 hc.second, (h _ _).2 hheld⟩

/-- Where no collision is found, one more rule is apart from all rules before it. -/
theorem HeldFor.pairwise_apart {rules : List Rule} {claims : Claims} (h : claims.HeldFor g rules)
    (hrules : rules.Pairwise g.Apart) {r : Rule} {selected : SymbolSet}
    (hselected : ∀ t, t ∈ selected ↔ g.Selects r t) {owner : Symbol}
    (hnone : claims.collisions owner r selected = []) : (rules ++ [r]).Pairwise g.Apart := by
  rw [List.pairwise_append]
  refine ⟨hrules, List.pairwise_singleton _ _, fun q hq p hp t hqt hpt => ?_⟩
  obtain rfl := List.mem_singleton.1 hp
  obtain ⟨first, hfirst⟩ := Grammar.exists_firstSelected ⟨q, hq, hqt⟩
  have hmem : (⟨owner, t, first, p⟩ : Collision) ∈ claims.collisions owner p selected :=
    mem_collisions_iff.2 ⟨rfl, rfl, (hselected t).2 hpt, (h t first).2 hfirst⟩
  rw [hnone] at hmem
  cases hmem

end Claims

namespace Grammar

variable {g : Grammar}

/-- The check of alternatives passes when they are apart, given that those before them are, and
stops at a collision otherwise. -/
theorem WellFormed.checkAmong_ensures (wf : g.WellFormed) (owner : Symbol) {rest : List Rule}
    (hrest : ∀ r ∈ rest, r ∈ g.rules) {done : List Rule} {claims : Claims}
    (hclaims : claims.HeldFor g done) (hdone : done.Pairwise g.Apart) :
    Ensures (Memo.Exact g) (g.checkAmong owner rest claims)
      (fun _ => (∀ r ∈ rest, g.GroundedForm r.body) ∧ (done ++ rest).Pairwise g.Apart)
      (fun e => g.IsLeftRecursion e ∨
        ∃ c, e = .collision c ∧ c.owner = owner ∧ c.Among g (done ++ rest)) := by
  induction rest generalizing done claims with
  | nil =>
    unfold checkAmong
    exact .pure ⟨by simp, by simpa using hdone⟩
  | cons r rest ih =>
    unfold checkAmong
    have hlookahead := wf.lookahead_ensures (hrest r List.mem_cons_self)
    refine (hlookahead.mono_error fun _ he => .inl he).bind fun selected hselected => ?_
    cases hcollisions : claims.collisions owner r selected with
    | cons c later =>
      obtain ⟨howner, -, hamong⟩ :=
        hclaims.among hselected.2 (hcollisions ▸ List.mem_cons_self)
      exact .throw (.inr ⟨c, rfl, howner, hamong⟩)
    | nil =>
      have hnext := ih (fun q hq => hrest q (List.mem_cons_of_mem _ hq))
        (hclaims.add hselected.2) (hclaims.pairwise_apart hdone hselected.2 hcollisions)
      simp only [List.append_assoc, List.singleton_append] at hnext
      refine hnext.mono_value fun _ h => ⟨?_, h.2⟩
      exact List.forall_mem_cons.2 ⟨hselected.1, h.1⟩

variable (g) in
/-- The alternatives of the variable are apart, and their bodies grounded. -/
def ApartAt (v : Symbol) : Prop :=
  (∀ r ∈ g.alternatives v, g.GroundedForm r.body) ∧ (g.alternatives v).Pairwise g.Apart

variable (g) in
/-- The error names a left-recursive variable or a collision of one of the given variables. -/
def Refutes (vs : List Symbol) (e : GrammarError) : Prop :=
  g.IsLeftRecursion e ∨
    ∃ c, e = .collision c ∧ c.owner ∈ vs ∧ c.Among g (g.alternatives c.owner)

/-- The check of variables passes when the alternatives of each are apart, and stops at a collision
of one of them otherwise. -/
theorem WellFormed.checkVariables_ensures (wf : g.WellFormed) (vs : List Symbol) :
    Ensures (Memo.Exact g) (g.checkVariables vs) (fun _ => ∀ v ∈ vs, g.ApartAt v)
      (g.Refutes vs) := by
  induction vs with
  | nil =>
    unfold checkVariables
    exact .pure (by simp)
  | cons v rest ih =>
    unfold checkVariables
    have hv := wf.checkAmong_ensures v (rules_of_alternatives v) Claims.heldFor_nil .nil
    rw [List.nil_append] at hv
    refine (hv.mono_error ?_).bind fun _ hapart => ?_
    · rintro e (he | ⟨c, rfl, rfl, hc⟩)
      · exact .inl he
      · exact .inr ⟨c, rfl, List.mem_cons_self, hc⟩
    · refine ih.mono (fun _ hothers => List.forall_mem_cons.2 ⟨hapart, hothers⟩) ?_
      rintro e (he | ⟨c, rfl, howner, hc⟩)
      · exact .inl he
      · exact .inr ⟨c, rfl, List.mem_cons_of_mem _ howner, hc⟩

/-- A grammar is deterministic when it is so variable by variable. -/
theorem WellFormed.deterministic_of_alternatives (wf : g.WellFormed)
    (h : ∀ v ∈ g.nonterminals, g.ApartAt v) : g.Deterministic where
  grounded r hr := (h r.head (wf.head_mem hr)).1 r (wf.mem_alternatives_iff.2 ⟨hr, rfl⟩)
  apart r hr q hq hhead t hrt hqt := by
    by_contra hne
    have hr' := wf.mem_alternatives_iff.2 ⟨hr, rfl⟩
    have hq' := wf.mem_alternatives_iff.2 ⟨hq, hhead.symm⟩
    have happart := (h r.head (wf.head_mem hr)).2.forall hr' hq' hne
    exact happart t hrt hqt

/-- The check of determinism: it passes deterministic grammars only, and stops at a left-recursive
variable or at a collision otherwise. -/
theorem WellFormed.requireDeterministic_ensures (wf : g.WellFormed) :
    Ensures (Memo.Exact g) g.requireDeterministic (fun _ => g.Deterministic)
      (g.Refutes g.nonterminals) :=
  (wf.checkVariables_ensures g.nonterminals).mono_value
    fun _ h => wf.deterministic_of_alternatives h

/-- In a deterministic grammar no variable is left recursive. -/
theorem Deterministic.not_leftRecursive (hdet : g.Deterministic) (v : Symbol) :
    ¬g.LeftRecursive v :=
  not_leftRecursive_of_bodies hdet.grounded v

theorem Deterministic.not_isLeftRecursion (hdet : g.Deterministic) (e : GrammarError) :
    ¬g.IsLeftRecursion e :=
  not_isLeftRecursion_of_bodies hdet.grounded e

/-- In a deterministic grammar no two alternatives collide. -/
theorem Deterministic.not_among (wf : g.WellFormed) (hdet : g.Deterministic) {v : Symbol}
    {c : Collision} : ¬c.Among g (g.alternatives v) := by
  intro hc
  have heq := hdet.eq_of_selects wf hc.first.mem hc.second_mem hc.first.selects hc.second
  exact hc.first_ne_second (nodup_alternatives v) heq

/-- A grammar without left recursion is deterministic where no two alternatives collide. -/
theorem WellFormed.deterministic_of_not_among (wf : g.WellFormed)
    (hgrounded : ∀ r ∈ g.rules, g.GroundedForm r.body)
    (hnone : ∀ c : Collision, ¬c.Among g (g.alternatives c.owner)) : g.Deterministic where
  grounded := hgrounded
  apart r hr q hq hhead t hrt hqt := by
    by_contra hne
    have hr' := wf.mem_alternatives_iff.2 ⟨hr, rfl⟩
    have hq' := wf.mem_alternatives_iff.2 ⟨hq, hhead.symm⟩
    obtain ⟨c, howner, -, hc⟩ := Collision.exists_among hr' hq' hne hrt hqt r.head
    exact hnone c (howner ▸ hc)

/-- In a deterministic grammar the check finds nothing to stop at. -/
theorem Deterministic.not_refutes (wf : g.WellFormed) (hdet : g.Deterministic)
    {vs : List Symbol} (e : GrammarError) : ¬g.Refutes vs e := by
  rintro (⟨v, -, hv⟩ | ⟨c, -, -, hc⟩)
  · exact hdet.not_leftRecursive v hv
  · exact hdet.not_among wf hc

/-- The check passes exactly the deterministic grammars. -/
theorem WellFormed.requireDeterministic_ok_iff (wf : g.WellFormed) {memo : Memo}
    (hmemo : memo.Exact g) :
    (g.requireDeterministic.runFrom memo).1 = .ok () ↔ g.Deterministic := by
  have hcheck := wf.requireDeterministic_ensures
  refine ⟨fun hrun => hcheck.value_of_run hmemo hrun, fun hdet => ?_⟩
  obtain ⟨_, hrun, -⟩ := hcheck.exists_value hmemo (hdet.not_refutes wf)
  exact hrun

/-- The check says whether the grammar is deterministic, unless a variable is left recursive. -/
theorem WellFormed.isDeterministic_ensures (wf : g.WellFormed) :
    Ensures (Memo.Exact g) g.isDeterministic (fun b => b = true ↔ g.Deterministic)
      g.IsLeftRecursion := by
  unfold isDeterministic
  have hyes : Ensures (Memo.Exact g) (do g.requireDeterministic; return true)
      (fun b => b = true ↔ g.Deterministic) (g.Refutes g.nonterminals) :=
    wf.requireDeterministic_ensures.bind fun _ hdet => .pure (iff_of_true rfl hdet)
  refine hyes.tryCatch ?_
  rintro e (⟨v, rfl, hv⟩ | ⟨c, rfl, -, hc⟩)
  · exact .throw ⟨v, rfl, hv⟩
  · exact .pure (iff_of_false nofun fun hdet => hdet.not_among wf hc)

/-- The listing of collisions among alternatives holds all that have their second rule among
them. -/
theorem WellFormed.collisionsAmong_ensures (wf : g.WellFormed) (owner : Symbol) {rest : List Rule}
    (hrest : ∀ r ∈ rest, r ∈ g.rules) {done : List Rule} {claims : Claims}
    (hclaims : claims.HeldFor g done) (hnodup : (done ++ rest).Nodup) :
    Ensures (Memo.Exact g) (g.collisionsAmong owner rest claims)
      (fun found => (∀ r ∈ rest, g.GroundedForm r.body) ∧
        ∀ c, c ∈ found ↔ c.owner = owner ∧ c.second ∈ rest ∧ c.Among g (done ++ rest))
      g.IsLeftRecursion := by
  induction rest generalizing done claims with
  | nil =>
    unfold collisionsAmong
    exact .pure ⟨by simp, by simp⟩
  | cons r rest ih =>
    unfold collisionsAmong
    refine (wf.lookahead_ensures (hrest r List.mem_cons_self)).bind fun selected hselected => ?_
    have hnext := ih (fun q hq => hrest q (List.mem_cons_of_mem _ hq)) (hclaims.add hselected.2)
      (by simpa using hnodup)
    simp only [List.append_assoc, List.singleton_append] at hnext
    refine hnext.bind fun later hlater => .pure ⟨?_, fun c => ?_⟩
    · exact List.forall_mem_cons.2 ⟨hselected.1, hlater.1⟩
    rw [List.mem_append, hlater.2 c]
    constructor
    · rintro (hc | ⟨howner, hsecond, hc⟩)
      · obtain ⟨howner, rfl, hc⟩ := hclaims.among hselected.2 hc
        exact ⟨howner, List.mem_cons_self, hc⟩
      · exact ⟨howner, List.mem_cons_of_mem _ hsecond, hc⟩
    · rintro ⟨rfl, hsecond, hc⟩
      rcases List.mem_cons.1 hsecond with rfl | hsecond
      · exact .inl (hclaims.mem_collisions hselected.2 hnodup hc)
      · exact .inr ⟨rfl, hsecond, hc⟩

/-- The listing holds exactly the collisions of the grammar. -/
theorem WellFormed.collisions_ensures (wf : g.WellFormed) :
    Ensures (Memo.Exact g) g.collisions
      (fun found => (∀ r ∈ g.rules, g.GroundedForm r.body) ∧
        ∀ c, c ∈ found ↔ c.Among g (g.alternatives c.owner))
      g.IsLeftRecursion := by
  unfold collisions
  have hall := Ensures.forEach fun v (_ : v ∈ g.nonterminals) =>
    wf.collisionsAmong_ensures v (rules_of_alternatives v) Claims.heldFor_nil (nodup_alternatives v)
  simp only [List.nil_append] at hall
  refine hall.bind fun found hfound => .pure ⟨fun r hr => ?_, fun c => ?_⟩
  · obtain ⟨_, -, hgrounded, -⟩ := Analysis.exists_right_of_forall₂ hfound (wf.head_mem hr)
    exact hgrounded r (wf.mem_alternatives_iff.2 ⟨hr, rfl⟩)
  rw [List.mem_flatten]
  constructor
  · rintro ⟨cs, hcs, hc⟩
    obtain ⟨v, -, -, hlisted⟩ := Analysis.exists_left_of_forall₂ hfound hcs
    obtain ⟨rfl, -, hc⟩ := (hlisted c).1 hc
    exact hc
  · intro hc
    have howner : c.owner ∈ g.nonterminals :=
      mem_nonterminals.2 ⟨c.second, mem_alternatives.1 hc.second_mem⟩
    obtain ⟨cs, hcs, -, hlisted⟩ := Analysis.exists_right_of_forall₂ hfound howner
    exact ⟨cs, hcs, (hlisted c).2 ⟨rfl, hc.second_mem, hc⟩⟩

/-- A list that holds exactly the collisions is empty just where the grammar is deterministic,
unless a variable is left recursive. -/
theorem WellFormed.collisions_eq_nil_iff (wf : g.WellFormed) {found : List Collision}
    (h : (∀ r ∈ g.rules, g.GroundedForm r.body) ∧
      ∀ c, c ∈ found ↔ c.Among g (g.alternatives c.owner)) :
    found = [] ↔ g.Deterministic := by
  rw [List.eq_nil_iff_forall_not_mem]
  constructor
  · exact fun hnone => wf.deterministic_of_not_among h.1 fun c hc => hnone c ((h.2 c).2 hc)
  · exact fun hdet c hc => hdet.not_among wf ((h.2 c).1 hc)

end Grammar

end Predictive
