import Predictive.Proofs.Analysis.Follow
import Predictive.Proofs.Analysis.Growth

/-!
# What the search for following terminals remembers

The search goes from a symbol along propagation steps. Whatever it passes is remembered, unless it
leads on to a guarded variable that the answer is cut at (`Gathers`). A symbol that is left out
because it leads to the variable in whose expansion it was met lies on a cycle with that variable.
So all memories are closed under propagation up to cycles of several symbols
(`Memo.FollowClosed`): when what follows a symbol is remembered, so is what follows every symbol
ahead of it that is on no such cycle.
-/

namespace Predictive

open Analysis (Ensures Keeps Leaves Outcome)
open Relation (TransGen ReflTransGen)

namespace Grammar

variable (g : Grammar)

/-- The symbol lies on a cycle of propagation steps through a different one. -/
def OnOtherCycle (v : Symbol) : Prop :=
  ∃ w, w ≠ v ∧ TransGen g.Propagates v w ∧ TransGen g.Propagates w v

variable {g} {avoid : SymbolSet} {s v : Symbol}

theorem Carries.reaches (h : g.Carries avoid s v) : ReflTransGen g.Propagates s v := by
  induction h with
  | here => exact .refl
  | step _ propagates _ ih => exact .head propagates ih

/-- Where nothing is to be avoided, every way will do. -/
theorem carries_empty_of_reaches (h : ReflTransGen g.Propagates s v) : g.Carries ∅ s v := by
  induction h using ReflTransGen.head_induction_on with
  | refl => exact .here Std.ExtTreeSet.not_mem_empty
  | head propagates _ ih => exact .step Std.ExtTreeSet.not_mem_empty propagates ih

/-- What leads back to a different symbol lies on a cycle with it. -/
theorem onOtherCycle_of_reaches (hne : v ≠ s) (hsv : TransGen g.Propagates s v)
    (hvs : ReflTransGen g.Propagates v s) : g.OnOtherCycle v :=
  ⟨s, hne.symm, (Relation.reflTransGen_iff_eq_or_transGen.1 hvs).resolve_left hne.symm, hsv⟩

end Grammar

namespace Memo

/-- With what follows a symbol, what follows the symbols ahead of it is remembered, those on cycles
with others aside. -/
def FollowClosed (g : Grammar) (memo : Memo) : Prop :=
  ∀ s ∈ memo.follow, ∀ v, ReflTransGen g.Propagates s v → v ∈ memo.follow ∨ g.OnOtherCycle v

/-- All that is remembered is true, and nothing is missing ahead of it. -/
structure Thorough (g : Grammar) (memo : Memo) : Prop where
  exact : memo.Exact g
  closed : memo.FollowClosed g

variable {g : Grammar} {memo : Memo}

theorem thorough_empty : Thorough g {} where
  exact := exact_empty
  closed _ hs := absurd hs Std.ExtTreeMap.not_mem_empty

theorem robust_followClosed (g : Grammar) : Robust (FollowClosed g) :=
  robust_follow fun entries =>
    ∀ s ∈ entries, ∀ v, ReflTransGen g.Propagates s v → v ∈ entries ∨ g.OnOtherCycle v

/-- What follows a symbol may be remembered when nothing ahead of it is missing. -/
theorem FollowClosed.insert (h : memo.FollowClosed g) {s : Symbol} (known : SymbolSet)
    (hs : ∀ v, ReflTransGen g.Propagates s v → v = s ∨ v ∈ memo.follow ∨ g.OnOtherCycle v) :
    FollowClosed g { memo with follow := memo.follow.insert s known } := by
  intro t ht v hv
  have hadd : v ∈ memo.follow ∨ g.OnOtherCycle v →
      v ∈ memo.follow.insert s known ∨ g.OnOtherCycle v :=
    Or.imp_left fun hv => mem_insert_of_mem hv s known
  rcases Std.ExtTreeMap.mem_insert.1 ht with hst | ht
  · obtain rfl := Std.LawfulEqCmp.compare_eq_iff_eq.1 hst
    rcases hs v hv with rfl | hv
    · exact .inl Std.ExtTreeMap.mem_insert_self
    · exact hadd hv
  · exact hadd (h t ht v hv)

end Memo

namespace Analysis

variable {α : Type} {g : Grammar}

/-- The memory is thorough again, and a value satisfies the statement. -/
def Thoroughly (g : Grammar) (value : α → Memo → Prop) (outcome : Except GrammarError α)
    (memo : Memo) : Prop :=
  memo.Thorough g ∧ OfValue value outcome memo

/-- A search that does not touch what follows leaves nothing missing. -/
theorem Leaves.of_robust {x : Analysis α} {value : α → Prop} {error : GrammarError → Prop}
    (hexact : Ensures (Memo.Exact g) x value error)
    (hkeeps : ∀ inv, Memo.Robust inv → Keeps inv x) :
    Leaves (Memo.Thorough g) x (Thoroughly g fun a _ => value a) := by
  intro memo hmemo
  have hclosed := (hkeeps _ (Memo.robust_followClosed g) memo hmemo.closed).1
  have hwithin := (hkeeps _ (Memo.robust_within memo) memo (.refl memo)).1
  obtain ⟨hexact, houtcome⟩ := hexact memo hmemo.exact
  refine ⟨hwithin, ⟨hexact, hclosed⟩, ?_⟩
  generalize (x.runFrom memo).1 = outcome at houtcome
  cases outcome with
  | ok a => exact houtcome
  | error e => trivial

end Analysis

namespace Grammar

open Analysis (Thoroughly)

variable (g : Grammar)

/-- What follows the symbol is remembered, unless it lies on a cycle with others or leads on to one
of the cuts. -/
def Accounted (cuts : SymbolSet) (memo : Memo) (v : Symbol) : Prop :=
  v ∈ memo.follow ∨ g.OnOtherCycle v ∨ ∃ c ∈ cuts, ReflTransGen g.Propagates v c

/-- The search from a symbol led to all the cuts, and outside them it has passed all that the
symbol leads to. Without cuts the symbol is remembered itself. -/
structure Gathers (s : Symbol) (cuts : SymbolSet) (memo : Memo) : Prop where
  known : cuts = ∅ → s ∈ memo.follow
  leads : ∀ c ∈ cuts, ReflTransGen g.Propagates s c
  kept : ∀ v, g.Carries cuts s v → g.Accounted cuts memo v

/-- The same of a search at some occurrences. -/
structure GathersAt (os : List (Occurrence g)) (cuts : SymbolSet) (memo : Memo) : Prop where
  leads : ∀ c ∈ cuts, ∃ o ∈ os, g.Derives o.rest [] ∧ ReflTransGen g.Propagates o.rule.head c
  kept : ∀ o ∈ os, g.Derives o.rest [] → ∀ v, g.Carries cuts o.rule.head v →
    g.Accounted cuts memo v

variable {g} {memo later : Memo} {cuts cuts' : SymbolSet} {s v : Symbol}

theorem Accounted.mono (h : g.Accounted cuts memo v) (hsub : ∀ c ∈ cuts, c ∈ cuts')
    (hwithin : memo.Within later) : g.Accounted cuts' later v := by
  rcases h with hv | hv | ⟨c, hc, hvc⟩
  · exact .inl (hwithin.follow v hv)
  · exact .inr (.inl hv)
  · exact .inr (.inr ⟨c, hsub c hc, hvc⟩)

theorem Gathers.mono (h : g.Gathers s cuts memo) (hwithin : memo.Within later) :
    g.Gathers s cuts later where
  known hcuts := hwithin.follow s (h.known hcuts)
  leads := h.leads
  kept v hv := (h.kept v hv).mono (fun _ hc => hc) hwithin

theorem GathersAt.mono {os : List (Occurrence g)} (h : g.GathersAt os cuts memo)
    (hwithin : memo.Within later) : g.GathersAt os cuts later where
  leads := h.leads
  kept o ho herased v hv := (h.kept o ho herased v hv).mono (fun _ hc => hc) hwithin

/-- A guarded symbol is what the search from it is cut at. -/
theorem gathers_guarded (s : Symbol) (memo : Memo) : g.Gathers s {s} memo where
  known hcuts := absurd hcuts (Std.ExtTreeSet.ne_empty_of_mem (mem_singleton_guard.2 rfl))
  leads c hc := mem_singleton_guard.1 hc ▸ .refl
  kept v hv := by
    cases hv with
    | here allowed => exact absurd (mem_singleton_guard.2 rfl) allowed
    | step allowed _ _ => exact absurd (mem_singleton_guard.2 rfl) allowed

theorem gathers_known (hclosed : memo.FollowClosed g) (hs : s ∈ memo.follow) :
    g.Gathers s ∅ memo where
  known _ := hs
  leads _ hc := absurd hc Std.ExtTreeSet.not_mem_empty
  kept v hv := (hclosed s hs v hv.reaches).imp_right .inl

theorem gathersAt_nil (memo : Memo) : g.GathersAt [] ∅ memo where
  leads _ hc := absurd hc Std.ExtTreeSet.not_mem_empty
  kept _ ho := absurd ho List.not_mem_nil

theorem GathersAt.cons {o : Occurrence g} {os : List (Occurrence g)} {further : SymbolSet}
    (hfurther : g.Derives o.rest [] → g.Gathers o.rule.head further memo)
    (hnone : ¬g.Derives o.rest [] → further = ∅) (h : g.GathersAt os cuts memo) :
    g.GathersAt (o :: os) (further ∪ cuts) memo where
  leads c hc := by
    rcases Std.ExtTreeSet.mem_union_iff.1 hc with hc | hc
    · by_cases herased : g.Derives o.rest []
      · exact ⟨o, List.mem_cons_self, herased, (hfurther herased).leads c hc⟩
      · rw [hnone herased] at hc
        exact absurd hc Std.ExtTreeSet.not_mem_empty
    · obtain ⟨q, hq, herased, hway⟩ := h.leads c hc
      exact ⟨q, List.mem_cons_of_mem _ hq, herased, hway⟩
  kept q hq herased v hv := by
    rcases List.mem_cons.1 hq with rfl | hq
    · have hway := hv.mono fun c hc => Std.ExtTreeSet.mem_union_of_left hc
      exact ((hfurther herased).kept v hway).mono
        (fun c hc => Std.ExtTreeSet.mem_union_of_left hc) (.refl memo)
    · have hway := hv.mono fun c hc => Std.ExtTreeSet.mem_union_of_right hc
      exact (h.kept q hq herased v hway).mono
        (fun c hc => Std.ExtTreeSet.mem_union_of_right hc) (.refl memo)

theorem propagates_of_mem_occurrencesIn {count : Nat} {o : Occurrence g}
    (ho : o ∈ g.occurrencesIn count s) (herased : g.Derives o.rest []) :
    g.Propagates s o.rule.head := by
  obtain ⟨before, hbody⟩ := body_of_mem_occurrencesIn ho
  exact ⟨o.rule, o.declared, rfl, before, o.rest, hbody, herased⟩

/-- A different symbol that the search passes outside the cuts leads to the symbol only if it lies
on a cycle with it. -/
theorem GathersAt.accounted_ahead (h : g.GathersAt (g.occurrencesIn g.rules.length s) cuts memo)
    (hne : v ≠ s) (hv : g.Carries (cuts.erase s) s v) : g.Accounted (cuts.erase s) memo v := by
  obtain rfl | ⟨head, hpropagates, hway⟩ := hv.cases_insert
  · exact absurd rfl hne
  have hsv : TransGen g.Propagates s v := .head' hpropagates hway.reaches
  obtain ⟨r, hr, rfl, before, rest, hbody, herased⟩ := hpropagates
  obtain ⟨o, ho, rfl, rfl⟩ := exists_mem_occurrencesIn hr hbody
  rcases h.kept o ho herased v hway.of_erase_insert with hv | hv | ⟨c, hc, hvc⟩
  · exact .inl hv
  · exact .inr (.inl hv)
  · by_cases hsc : s = c
    · subst hsc
      exact .inr (.inl (onOtherCycle_of_reaches hne hsv hvc))
    · exact .inr (.inr ⟨c, mem_erase_guard.2 ⟨hsc, hc⟩, hvc⟩)

/-- All cuts at the occurrences of a symbol lie ahead of it. -/
theorem GathersAt.leads_ahead {count : Nat} (h : g.GathersAt (g.occurrencesIn count s) cuts memo)
    {c : Symbol} (hc : c ∈ cuts) : ReflTransGen g.Propagates s c := by
  obtain ⟨o, ho, herased, hway⟩ := h.leads c hc
  exact .head (propagates_of_mem_occurrencesIn ho herased) hway

/-- If the symbol itself is the only cut, nothing ahead of it is missing. -/
theorem GathersAt.closed_ahead (h : g.GathersAt (g.occurrencesIn g.rules.length s) cuts memo)
    (hcuts : cuts.erase s = ∅) (hv : ReflTransGen g.Propagates s v) :
    v = s ∨ v ∈ memo.follow ∨ g.OnOtherCycle v := by
  by_cases hne : v = s
  · exact .inl hne
  rcases h.accounted_ahead hne (hcuts ▸ carries_empty_of_reaches hv) with hv | hv | ⟨c, hc, -⟩
  · exact .inr (.inl hv)
  · exact .inr (.inr hv)
  · rw [hcuts] at hc
    exact absurd hc Std.ExtTreeSet.not_mem_empty

/-- The search from a symbol, from the search at its occurrences: it is remembered if there are no
cuts but at the symbol itself, and leads to them otherwise. -/
theorem GathersAt.gathers (h : g.GathersAt (g.occurrencesIn g.rules.length s) cuts memo)
    (hwithin : memo.Within later) (hs : cuts.erase s = ∅ → s ∈ later.follow) :
    g.Gathers s (cuts.erase s) later where
  known := hs
  leads c hc := h.leads_ahead (mem_erase_guard.1 hc).2
  kept v hv := by
    by_cases hvs : v = s
    · subst hvs
      by_cases hcuts : cuts.erase v = ∅
      · exact .inl (hs hcuts)
      obtain ⟨c, hc⟩ := not_forall_not.1 fun hnone =>
        hcuts (Std.ExtTreeSet.eq_empty_iff_forall_not_mem.2 hnone)
      exact .inr (.inr ⟨c, hc, h.leads_ahead (mem_erase_guard.1 hc).2⟩)
    · exact (h.accounted_ahead hvs hv).mono (fun _ hc => hc) hwithin

theorem WellFormed.followVia_leaves (wf : g.WellFormed)
    {head : Occurrence g → Analysis (Cut SymbolSet)} (os : List (Occurrence g))
    (h : ∀ o ∈ os, Leaves (Memo.Thorough g) (head o)
      (Thoroughly g fun answer => g.Gathers o.rule.head answer.cuts)) :
    Leaves (Memo.Thorough g) (g.followVia head os)
      (Thoroughly g fun answer => g.GathersAt os answer.cuts) := by
  induction os with
  | nil => exact .pure fun memo hmemo => ⟨hmemo, gathersAt_nil memo⟩
  | cons o os ih =>
    have hothers := ih fun q hq => h q (List.mem_cons_of_mem _ hq)
    unfold followVia
    refine (Leaves.of_robust (wf.guardedFirst_ensures ∅ o.rest)
      fun _ hinv => guardedFirst_keeps hinv ∅ o.rest).bind (fun _ _ h => h) fun found =>
        .of_imp fun _ => ?_
    refine (Leaves.of_robust (wf.sequenceCanBeEmpty_ensures o.rest)
      fun _ hinv => sequenceCanBeEmpty_keeps hinv o.rest).bind (fun _ _ h => h) fun canBeEmpty =>
        .of_imp fun hiff => ?_
    split
    · next hcan =>
      refine (h o List.mem_cons_self).bind (fun _ _ h => h) fun further => ?_
      refine (hothers.frame fun _ _ hwithin (h : g.Gathers _ further.cuts _) => h.mono hwithin).bind
        (fun _ _ h => h.1) fun answer => .pure fun memo h => ⟨h.1.1, h.1.2.cons (fun _ => h.2) ?_⟩
      exact fun hnone => absurd (hiff.1 hcan) hnone
    · next hcan =>
      refine hothers.bind (fun _ _ h => h) fun answer => .pure fun memo h => ⟨h.1, h.2.cons ?_ ?_⟩
      · exact fun herased => absurd (hiff.2 herased) hcan
      · exact fun _ => rfl

/-- The search from a symbol under a guard leaves nothing missing ahead of what is remembered. -/
theorem WellFormed.guardedFollow_leaves (wf : g.WellFormed) (guard : SymbolSet) (s : Symbol) :
    Leaves (Memo.Thorough g) (g.guardedFollow guard s)
      (Thoroughly g fun answer => g.Gathers s answer.cuts) := by
  induction guard, s using follow_induction (g := g) with
  | step guard s ih =>
    rw [guardedFollow]
    split
    · exact .pure fun memo hmemo => ⟨hmemo, gathers_guarded s memo⟩
    next hguard =>
    refine .lookUp_bind fun found => ?_
    cases found with
    | some known =>
      refine .pure fun memo hmemo => ⟨hmemo.1, gathers_known hmemo.1.closed ?_⟩
      exact (Std.ExtTreeMap.getElem?_eq_some_iff.1 hmemo.2).fst
    | none =>
      refine ((Leaves.of_robust (@occurrences_ensures g (fun _ => False) s)
        fun _ hinv => occurrences_keeps hinv s).imp_pre fun _ hmemo => hmemo.1).bind
        (fun _ _ h => h) fun os => .of_imp fun hos => ?_
      subst hos
      have hvia := wf.followVia_leaves (g.occurrencesIn g.rules.length s) fun o _ =>
        ih hguard o.rule.head (mem_heads o.declared)
      have hsymbols : ∀ o ∈ g.occurrencesIn g.rules.length s, ∀ t ∈ o.rest, g.IsSymbol t :=
        fun _ ho _ ht => wf.isSymbol_of_mem_rest ho ht
      have hexact := wf.followVia_ensures _ hsymbols fun o _ =>
        wf.guardedFollow_ensures_grounded (guard.insert s) o.rule.head
      refine (hvia.and_ensures (fun _ hmemo => hmemo.exact) hexact).bind (fun _ _ h => h.1)
        fun answer => .of_imp fun hfollowAt => ?_
      have hfollow := wf.followOf_of_occurrences hfollowAt
      refine Leaves.rememberIf_bind
        (fun memo => memo.Thorough g ∧ g.Gathers s (answer.cuts.erase s) memo) ?_ ?_
        (.pure fun _ h => h)
      · rintro hfinal memo ⟨hmemo, hgathers⟩
        have hcuts : answer.cuts.erase s = ∅ := Std.ExtTreeSet.isEmpty_iff.1 hfinal
        have hwithin := (Memo.Within.refl memo).insert_follow s answer.value
        refine ⟨⟨⟨?_, ?_⟩, hgathers.gathers hwithin fun _ => ?_⟩, hwithin⟩
        · exact hmemo.exact.insert_follow (hfollow.groundedFollow hcuts)
            (wf.iff_of_followOf hfollow hcuts)
        · exact hmemo.closed.insert _ fun v hv => hgathers.closed_ahead hcuts hv
        · exact Std.ExtTreeMap.mem_insert_self
      · rintro hcut memo ⟨hmemo, hgathers⟩
        refine ⟨hmemo, hgathers.gathers (.refl memo) fun hcuts => ?_⟩
        have hfinal := Std.ExtTreeSet.isEmpty_iff.2 hcuts
        exact absurd (hcut.symm.trans hfinal) Bool.false_ne_true

end Grammar

end Predictive
