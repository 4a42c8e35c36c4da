import Predictive.Proofs.Collisions
import Predictive.Proofs.Grammar.Declarations

/-!
# How often a collision is listed

The listing keeps the first alternative of a variable that a symbol selects, and has one collision
for each later one. So a symbol that selects `n` alternatives of a variable is listed `n - 1` times
for it (`WellFormed.collisions_ensures_count`): once where it selects two, and several times where
it selects more (`collisions_listed_once_iff`).
-/

namespace Predictive

open Analysis (Ensures)

/-- The variable and the symbol of a collision. -/
def Collision.place (c : Collision) : Symbol × Symbol :=
  (c.owner, c.symbol)

/-- The number of rules that the terminal selects. -/
def Claimed.claimants (c : Claimed) (rules : List Rule) (t : Symbol) : Nat :=
  rules.countP fun r => t ∈ c.selected r

theorem Claimed.claimants_nil (c : Claimed) (t : Symbol) : c.claimants [] t = 0 :=
  rfl

theorem Claimed.claimants_append (c : Claimed) (rules later : List Rule) (t : Symbol) :
    c.claimants (rules ++ later) t = c.claimants rules t + c.claimants later t :=
  List.countP_append

theorem Claimed.claimants_cons (c : Claimed) (r : Rule) (rules : List Rule) (t : Symbol) :
    c.claimants (r :: rules) t = c.claimants rules t + if t ∈ c.selected r then 1 else 0 := by
  simp [claimants, List.countP_cons]

namespace Claims

variable {claims : Claims} {owner : Symbol} {r : Rule} {selected : SymbolSet}

/-- Among the collisions of one rule a symbol is listed once at most. -/
theorem nodup_place_collisions :
    ((claims.collisions owner r selected).map Collision.place).Nodup := by
  rw [collisions, List.map_filterMap]
  refine List.Nodup.filterMap ?_ (SymbolSet.nodup_toList selected)
  intro s s' place hs hs'
  simp only [Option.map_map, Option.mem_def, Option.map_eq_some_iff, Function.comp_apply,
    Collision.place] at hs hs'
  obtain ⟨-, -, rfl⟩ := hs
  obtain ⟨-, -, heq⟩ := hs'
  exact (Prod.mk.inj heq).2.symm

/-- A symbol is listed for a rule that it selects if it is held by an earlier one. -/
theorem count_place_collisions (t : Symbol) :
    ((claims.collisions owner r selected).map Collision.place).count (owner, t) =
      if t ∈ selected ∧ t ∈ claims then 1 else 0 := by
  rw [nodup_place_collisions.count]
  refine if_congr ?_ rfl rfl
  rw [List.mem_map, Std.ExtTreeMap.mem_iff_isSome_getElem?, Option.isSome_iff_exists]
  constructor
  · rintro ⟨c, hc, hplace⟩
    obtain ⟨-, -, hsymbol, hfirst⟩ := mem_collisions_iff.1 hc
    obtain ⟨-, rfl⟩ := Prod.mk.inj hplace
    exact ⟨hsymbol, c.first, hfirst⟩
  · rintro ⟨hsymbol, first, hfirst⟩
    exact ⟨⟨owner, t, first, r⟩, mem_collisions_iff.2 ⟨rfl, rfl, hsymbol, hfirst⟩, rfl⟩

end Claims

namespace Collision

/-- A collision of a variable is not listed for another one. -/
theorem count_place_eq_zero {cs : List Collision} {v w t : Symbol} (hcs : ∀ c ∈ cs, c.owner = v)
    (hne : w ≠ v) : (cs.map place).count (w, t) = 0 := by
  refine List.count_eq_zero.2 fun hmem => ?_
  obtain ⟨c, hc, hplace⟩ := List.mem_map.1 hmem
  exact hne ((Prod.mk.inj hplace).1.symm.trans (hcs c hc))

/-- Variable by variable, each collision is counted where its variable is. -/
theorem count_place_flatten (times : Symbol → Symbol → Nat) {vs : List Symbol}
    {found : List (List Collision)}
    (h : List.Forall₂ (fun v cs => (∀ c ∈ cs, c.owner = v) ∧
      ∀ t, (cs.map place).count (v, t) = times v t) vs found)
    (hnodup : vs.Nodup) (v t : Symbol) :
    (found.flatten.map place).count (v, t) = if v ∈ vs then times v t else 0 := by
  induction h with
  | nil => rfl
  | @cons w cs vs found hhead _ ih =>
    obtain ⟨hfresh, hnodup⟩ := List.nodup_cons.1 hnodup
    rw [List.flatten_cons, List.map_append, List.count_append, ih hnodup]
    by_cases hvw : v = w
    · subst hvw
      rw [hhead.2, if_neg hfresh, if_pos List.mem_cons_self, Nat.add_zero]
    · rw [count_place_eq_zero hhead.1 hvw, Nat.zero_add]
      exact if_congr (by simp [hvw]) rfl rfl

end Collision

namespace Grammar

variable {g : Grammar} {claimed : Claimed}

/-- The terminals that are held are those that select some rule before. -/
theorem mem_claims_iff {done : List Rule} {claims : Claims} (hclaims : claims.HeldFor g done)
    (hclaimed : ∀ r ∈ done, ∀ t, t ∈ claimed.selected r ↔ g.Selects r t) (t : Symbol) :
    t ∈ claims ↔ 0 < claimed.claimants done t := by
  have hfree : claims[t]? = none ↔ claimed.claimants done t = 0 := by
    rw [hclaims.eq_none_iff, Claimed.claimants, List.countP_eq_zero]
    refine forall₂_congr fun r hr => not_congr ?_
    rw [decide_eq_true_iff, hclaimed r hr]
  rw [Std.ExtTreeMap.mem_iff_isSome_getElem?, Option.isSome_iff_ne_none, Nat.pos_iff_ne_zero]
  exact not_congr hfree

/-- The listing of alternatives has each symbol once for every one of them that the symbol selects,
but for the first of all. -/
theorem WellFormed.collisionsAmong_ensures_count (wf : g.WellFormed)
    (hclaimed : ∀ r ∈ g.rules, ∀ t, t ∈ claimed.selected r ↔ g.Selects r t) (owner : Symbol)
    {rest : List Rule} (hrest : ∀ r ∈ rest, r ∈ g.rules) {done : List Rule}
    (hdone : ∀ r ∈ done, r ∈ g.rules) {claims : Claims} (hclaims : claims.HeldFor g done) :
    Ensures (Memo.Exact g) (g.collisionsAmong owner rest claims)
      (fun found => (∀ c ∈ found, c.owner = owner) ∧ ∀ t,
        (found.map Collision.place).count (owner, t) =
          claimed.claimants (done ++ rest) t - max 1 (claimed.claimants done t))
      g.IsLeftRecursion := by
  induction rest generalizing done claims with
  | nil =>
    unfold collisionsAmong
    exact .pure ⟨by simp, by simp⟩
  | cons r rest ih =>
    unfold collisionsAmong
    have hr := hrest r List.mem_cons_self
    refine (wf.lookahead_ensures hr).bind fun selected hselected => ?_
    have hnext := ih (fun q hq => hrest q (List.mem_cons_of_mem _ hq))
      (List.forall_mem_append.2 ⟨hdone, by simpa using hr⟩) (hclaims.add hselected.2)
    refine hnext.bind fun later hlater => .pure ⟨?_, fun t => ?_⟩
    · refine List.forall_mem_append.2 ⟨fun c hc => ?_, hlater.1⟩
      exact (Claims.mem_collisions_iff.1 hc).1
    · have hheld := mem_claims_iff hclaims (fun q hq => hclaimed q (hdone q hq)) t
      have hmem : t ∈ claimed.selected r ↔ t ∈ selected :=
        (hclaimed r hr t).trans (hselected.2 t).symm
      rw [List.map_append, List.count_append, Claims.count_place_collisions, hlater.2 t]
      simp only [Claimed.claimants_append, Claimed.claimants_cons, Claimed.claimants_nil, hmem,
        hheld]
      -- The rule is listed just where an earlier one has the symbol too.
      by_cases hs : t ∈ selected
      · simp only [hs, true_and, if_true]
        split_ifs <;> omega
      · simp only [hs, false_and, if_false]
        omega

/-- A symbol is listed for a variable once less often than it selects alternatives of it. -/
theorem WellFormed.collisions_ensures_count (wf : g.WellFormed)
    (hclaimed : ∀ r ∈ g.rules, ∀ t, t ∈ claimed.selected r ↔ g.Selects r t) :
    Ensures (Memo.Exact g) g.collisions
      (fun found => ∀ v t, (found.map Collision.place).count (v, t) =
        claimed.claimants (g.alternatives v) t - 1)
      g.IsLeftRecursion := by
  unfold collisions
  have hall := Ensures.forEach fun v (_ : v ∈ g.nonterminals) =>
    wf.collisionsAmong_ensures_count hclaimed v (rules_of_alternatives v) (List.forall_mem_nil _)
      Claims.heldFor_nil
  simp only [List.nil_append, Claimed.claimants_nil, Nat.max_zero] at hall
  refine hall.bind fun found hfound => .pure fun v t => ?_
  rw [Collision.count_place_flatten (fun v t => claimed.claimants (g.alternatives v) t - 1) hfound
    nodup_nonterminals]
  by_cases hv : v ∈ g.nonterminals
  · rw [if_pos hv]
  · rw [if_neg hv, wf.alternatives_eq_nil_iff.2 hv]
    rfl

variable (g) in
/-- The list has one collision for each variable and each symbol that selects two or more of its
alternatives, and no other collision. -/
structure ListedOnce (claimed : Claimed) (found : List Collision) : Prop where
  /-- No two collisions have the same variable and the same symbol. -/
  apart : (found.map Collision.place).Nodup
  once : ∀ v t, 2 ≤ claimed.claimants (g.alternatives v) t →
    (found.map Collision.place).count (v, t) = 1
  shared : ∀ c ∈ found, 2 ≤ claimed.claimants (g.alternatives c.owner) c.symbol

/-- Each place is listed once just where no symbol selects three alternatives. -/
theorem listedOnce_iff {found : List Collision}
    (hcount : ∀ v t, (found.map Collision.place).count (v, t) =
      claimed.claimants (g.alternatives v) t - 1) :
    g.ListedOnce claimed found ↔ ∀ v t, claimed.claimants (g.alternatives v) t ≤ 2 := by
  constructor
  · intro h v t
    by_contra hmany
    have honce := h.once v t (by omega)
    rw [hcount] at honce
    omega
  · intro hfew
    refine ⟨List.nodup_iff_count_le_one.2 fun (v, t) => ?_, fun v t htwo => ?_, fun c hc => ?_⟩
    · have hbound := hfew v t
      rw [hcount]
      omega
    · have hbound := hfew v t
      rw [hcount]
      omega
    · have hlisted : 0 < (found.map Collision.place).count (c.owner, c.symbol) :=
        List.count_pos_iff.2 (List.mem_map_of_mem hc)
      rw [hcount] at hlisted
      omega

/-- If there is a list of collisions, whatever was asked before, a symbol stands in it once less
often than it is in the lookahead sets of the alternatives of the variable. So it stands there once
for each variable just where it is never in more than two of them. -/
theorem collisions_listed_once_iff {text : String} (hread : ofText text = .ok g)
    {listed memo : Memo} (hlisted : g.Reachable listed) (hmemo : g.Reachable memo)
    {found : List Collision} (hrun : (g.collisions.runFrom listed).1 = .ok found) :
    ∃ claimed, Claimed.Answered g memo claimed ∧
      (∀ v t, (found.map Collision.place).count (v, t) =
        claimed.claimants (g.alternatives v) t - 1) ∧
      (g.ListedOnce claimed found ↔ ∀ v t, claimed.claimants (g.alternatives v) t ≤ 2) := by
  have wf := wellFormed_ofText hread
  have hexact := hmemo.exact wf
  have hbodies := (wf.collisions_ensures.value_of_run (hlisted.exact wf) hrun).1
  have hclaimed := Claimed.answered_of_not_isLeftRecursion wf
    (not_isLeftRecursion_of_bodies hbodies) hexact
  have hselected : ∀ r ∈ g.rules, ∀ t, t ∈ _ ↔ g.Selects r t :=
    fun r hr t => hclaimed.mem_selected_iff wf hexact hr
  have hcount := (wf.collisions_ensures_count hselected).value_of_run (hlisted.exact wf) hrun
  exact ⟨_, hclaimed, hcount, listedOnce_iff hcount⟩

/-- Three alternatives that begin with the same terminal. -/
def sharedThrice : Grammar :=
  .ofProductions ⟨"S", ["a"]⟩ [⟨"S", ["a", "b"]⟩, ⟨"S", ["a", "c"]⟩]

theorem ofText_sharedThrice : ofText "S = a\nS = a b\nS = a c" = .ok sharedThrice :=
  rfl

/-- The second and the third alternative are each listed with the first. -/
theorem collisions_sharedThrice : (sharedThrice.collisions.runFrom {}).1 =
    .ok [⟨"S", "a", ⟨⟨"S", ["a"]⟩, "S", 0⟩, ⟨⟨"S", ["a", "b"]⟩, "S", 1⟩⟩,
      ⟨"S", "a", ⟨⟨"S", ["a"]⟩, "S", 0⟩, ⟨⟨"S", ["a", "c"]⟩, "S", 2⟩⟩] := by
  cbv

theorem collisions_listed_once_iff_of_sharedThrice :
    ofText "S = a\nS = a b\nS = a c" = .ok sharedThrice ∧
      ∃ found claimed, (sharedThrice.collisions.runFrom {}).1 = .ok found ∧
        Claimed.Answered sharedThrice (sharedThrice.isDeterministic.runFrom {}).2 claimed ∧
        (found.map Collision.place).count ("S", "a") = 2 ∧
        claimed.claimants (sharedThrice.alternatives "S") "a" = 3 ∧
        ¬sharedThrice.ListedOnce claimed found := by
  obtain ⟨claimed, hclaimed, hcount, honce⟩ := collisions_listed_once_iff ofText_sharedThrice .new
    (.ask .new .isDeterministic) collisions_sharedThrice
  refine ⟨ofText_sharedThrice, _, claimed, collisions_sharedThrice, hclaimed, by decide, ?_⟩
  have htwice : 2 = claimed.claimants (sharedThrice.alternatives "S") "a" - 1 := hcount "S" "a"
  refine ⟨by omega, fun h => ?_⟩
  have hfew := honce.1 h "S" "a"
  omega

/-- The symbol is listed twice for the same variable. -/
theorem not_listedOnce_sharedThrice :
    ofText "S = a\nS = a b\nS = a c" = .ok sharedThrice ∧
      ∃ c d, (sharedThrice.collisions.runFrom {}).1 = .ok [c, d] ∧ c.place = d.place ∧
        ∀ claimed, ¬sharedThrice.ListedOnce claimed [c, d] := by
  refine ⟨ofText_sharedThrice, _, _, collisions_sharedThrice, rfl, fun claimed h => ?_⟩
  exact absurd h.apart (by decide)

end Grammar

end Predictive
