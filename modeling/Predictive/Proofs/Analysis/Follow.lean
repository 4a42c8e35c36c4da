import Predictive.Analysis.Follow
import Predictive.Proofs.Analysis.First
import Predictive.Proofs.Grammar.Following

/-!
# The search for following terminals is exact

An answer holds terminals that follow the symbol only, and all that is carried to it without
passing one of the variables that the answer was cut at (`FollowOf`). A symbol may drop itself from
the cuts of its answer because a way that comes back to it can be shortened
(`Grammar.Carries.cases_insert`). An answer without cuts is therefore complete, and it is the only
kind that is remembered. All that an answer was found in is grounded, and a search ends in an error
only where something that is carried to the symbol does not stand in grounded rests.
-/

namespace Predictive

open Analysis (Ensures)

theorem mem_restsBehind {s : Symbol} {body rest : List Symbol} :
    rest ∈ restsBehind s body ↔ ∃ before, body = before ++ s :: rest := by
  induction body with
  | nil => simp [restsBehind]
  | cons t body ih =>
    constructor
    · intro h
      unfold restsBehind at h
      split at h
      · next hts =>
        rcases List.mem_cons.1 h with rfl | h
        · exact ⟨[], by rw [hts, List.nil_append]⟩
        · obtain ⟨before, rfl⟩ := ih.1 h
          exact ⟨t :: before, rfl⟩
      · obtain ⟨before, rfl⟩ := ih.1 h
        exact ⟨t :: before, rfl⟩
    · rintro ⟨before, h⟩
      unfold restsBehind
      cases before with
      | nil =>
        obtain ⟨rfl, rfl⟩ := List.cons_eq_cons.1 h
        simp
      | cons a before =>
        obtain ⟨rfl, hbody⟩ := List.cons_eq_cons.1 h
        have hrest := ih.2 ⟨before, hbody⟩
        split
        · exact List.mem_cons_of_mem _ hrest
        · exact hrest

namespace Grammar

variable {g : Grammar}

/-- What stands behind a listed occurrence is the rest of a body. -/
theorem body_of_mem_occurrencesIn {count : Nat} {s : Symbol} {o : Occurrence g}
    (h : o ∈ g.occurrencesIn count s) : ∃ before, o.rule.body = before ++ s :: o.rest := by
  obtain ⟨r, -, ho⟩ := List.mem_flatMap.1 h
  obtain ⟨rest, hrest, rfl⟩ := List.mem_map.1 ho
  exact mem_restsBehind.1 hrest

/-- All occurrences are listed. -/
theorem exists_mem_occurrencesIn {r : Rule} (hr : r ∈ g.rules) {s : Symbol}
    {before rest : List Symbol} (hbody : r.body = before ++ s :: rest) :
    ∃ o ∈ g.occurrencesIn g.rules.length s, o.rule = r ∧ o.rest = rest := by
  refine ⟨⟨r, hr, rest⟩, List.mem_flatMap.2 ⟨⟨r, hr⟩, ?_, ?_⟩, rfl, rfl⟩
  · rw [List.take_of_length_le (by simp)]
    exact List.mem_attach _ _
  · exact List.mem_map.2 ⟨rest, mem_restsBehind.2 ⟨before, hbody⟩, rfl⟩

/-- What stands behind a listed occurrence are symbols of the grammar. -/
theorem WellFormed.isSymbol_of_mem_rest (wf : g.WellFormed) {count : Nat} {s t : Symbol}
    {o : Occurrence g} (ho : o ∈ g.occurrencesIn count s) (ht : t ∈ o.rest) : g.IsSymbol t := by
  obtain ⟨before, hbody⟩ := body_of_mem_occurrencesIn ho
  exact wf.isSymbol_of_mem_body o.declared (by simp [hbody, ht])

/-- The occurrences are those in all rules. -/
theorem occurrences_ensures {error : GrammarError → Prop} (s : Symbol) :
    Ensures (Memo.Exact g) (g.occurrences s) (fun os => os = g.occurrencesIn g.rules.length s)
      error := by
  unfold occurrences
  refine (Ensures.lookUp_entry s fun memo hmemo => hmemo.scanned).bind fun found hfound => ?_
  cases found with
  | some count =>
    rw [hfound count rfl]
    exact .pure rfl
  | none => exact Ensures.remember_bind (fun memo hmemo => hmemo.insert_scanned s) (.pure rfl)

variable (g) in
/-- The answer is cut at guarded variables only; it holds terminals that follow the symbol, and all
of them that are carried to it outside the cuts, from grounded rests. -/
structure FollowOf (guard : SymbolSet) (s : Symbol) (answer : Cut SymbolSet) : Prop where
  guarded : ∀ v ∈ answer.cuts, v ∈ guard
  sound : ∀ t ∈ answer.value, g.Follows s t
  complete : ∀ v t, g.Carries answer.cuts s v → g.Behind v t → t ∈ answer.value
  grounded : ∀ v, g.Carries answer.cuts s v → g.GroundedBehind v

/-- An answer without cuts holds just the terminals that follow. -/
theorem WellFormed.iff_of_followOf (wf : g.WellFormed) {guard : SymbolSet} {s : Symbol}
    {answer : Cut SymbolSet} (h : g.FollowOf guard s answer) (hcuts : answer.cuts = ∅)
    (t : Symbol) : t ∈ answer.value ↔ g.Follows s t := by
  refine ⟨h.sound t, fun hfollows => ?_⟩
  obtain ⟨v, hcarries, hbehind⟩ := wf.follows_iff.1 hfollows
  exact h.complete v t (hcuts ▸ hcarries) hbehind

theorem FollowOf.groundedFollow {guard : SymbolSet} {s : Symbol} {answer : Cut SymbolSet}
    (h : g.FollowOf guard s answer) (hcuts : answer.cuts = ∅) : g.GroundedFollow s :=
  fun v hv => h.grounded v (hcuts ▸ hv)

theorem WellFormed.followOf_of_iff (wf : g.WellFormed) {guard : SymbolSet} {s : Symbol}
    {known : SymbolSet} (hgrounded : g.GroundedFollow s) (h : ∀ t, t ∈ known ↔ g.Follows s t) :
    g.FollowOf guard s { value := known } where
  guarded _ hv := absurd hv Std.ExtTreeSet.not_mem_empty
  sound t ht := (h t).1 ht
  complete v t hcarries hbehind := (h t).2 (wf.follows_iff.2 ⟨v, hcarries, hbehind⟩)
  grounded := hgrounded

variable (g) in
/-- The same of an answer from some occurrences: each gives what the rest begins with and, where
the rest can be erased, what is carried to the head. -/
structure FollowAt (guard : SymbolSet) (os : List (Occurrence g)) (answer : Cut SymbolSet) :
    Prop where
  guarded : ∀ v ∈ answer.cuts, v ∈ guard
  sound : ∀ t ∈ answer.value, ∃ o ∈ os,
    g.Begins o.rest t ∨ (g.Derives o.rest [] ∧ g.Follows o.rule.head t)
  begins : ∀ o ∈ os, ∀ t, g.Begins o.rest t → t ∈ answer.value
  carries : ∀ o ∈ os, g.Derives o.rest [] → ∀ v t, g.Carries answer.cuts o.rule.head v →
    g.Behind v t → t ∈ answer.value
  rests : ∀ o ∈ os, g.GroundedForm o.rest
  grounded : ∀ o ∈ os, g.Derives o.rest [] → ∀ v, g.Carries answer.cuts o.rule.head v →
    g.GroundedBehind v

theorem followAt_nil (guard : SymbolSet) : g.FollowAt guard [] { value := ∅ } where
  guarded _ hv := absurd hv Std.ExtTreeSet.not_mem_empty
  sound _ ht := absurd ht Std.ExtTreeSet.not_mem_empty
  begins _ ho := absurd ho List.not_mem_nil
  carries _ ho := absurd ho List.not_mem_nil
  rests _ ho := absurd ho List.not_mem_nil
  grounded _ ho := absurd ho List.not_mem_nil

/-- The answer at one occurrence and the answers at the others make up the answer at all. -/
theorem FollowAt.cons {guard : SymbolSet} {o : Occurrence g} {os : List (Occurrence g)}
    {found : SymbolSet} {further answer : Cut SymbolSet} (hfound : g.FirstOf o.rest found)
    (hfurther : g.Derives o.rest [] → g.FollowOf guard o.rule.head further)
    (hnone : ¬g.Derives o.rest [] → further = { value := ∅ }) (h : g.FollowAt guard os answer) :
    g.FollowAt guard (o :: os)
      { value := found ∪ further.value ∪ answer.value, cuts := further.cuts ∪ answer.cuts } := by
  constructor
  · intro v hv
    rcases Std.ExtTreeSet.mem_union_iff.1 hv with hv | hv
    · by_cases herased : g.Derives o.rest []
      · exact (hfurther herased).guarded v hv
      · rw [hnone herased] at hv
        exact absurd hv Std.ExtTreeSet.not_mem_empty
    · exact h.guarded v hv
  · intro t ht
    simp only [Std.ExtTreeSet.mem_union_iff] at ht
    rcases ht with (ht | ht) | ht
    · exact ⟨o, List.mem_cons_self, .inl ((hfound.2 t).1 ht)⟩
    · by_cases herased : g.Derives o.rest []
      · exact ⟨o, List.mem_cons_self, .inr ⟨herased, (hfurther herased).sound t ht⟩⟩
      · rw [hnone herased] at ht
        exact absurd ht Std.ExtTreeSet.not_mem_empty
    · obtain ⟨q, hq, hreason⟩ := h.sound t ht
      exact ⟨q, List.mem_cons_of_mem _ hq, hreason⟩
  · intro q hq t ht
    simp only [Std.ExtTreeSet.mem_union_iff]
    rcases List.mem_cons.1 hq with rfl | hq
    · exact .inl (.inl ((hfound.2 t).2 ht))
    · exact .inr (h.begins q hq t ht)
  · intro q hq herased v t hcarries hbehind
    simp only [Std.ExtTreeSet.mem_union_iff]
    rcases List.mem_cons.1 hq with rfl | hq
    · have hway := hcarries.mono fun s hs => Std.ExtTreeSet.mem_union_of_left hs
      exact .inl (.inr ((hfurther herased).complete v t hway hbehind))
    · have hway := hcarries.mono fun s hs => Std.ExtTreeSet.mem_union_of_right hs
      exact .inr (h.carries q hq herased v t hway hbehind)
  · exact List.forall_mem_cons.2 ⟨hfound.1, h.rests⟩
  · intro q hq herased v hcarries
    rcases List.mem_cons.1 hq with rfl | hq
    · have hway := hcarries.mono fun s hs => Std.ExtTreeSet.mem_union_of_left hs
      exact (hfurther herased).grounded v hway
    · have hway := hcarries.mono fun s hs => Std.ExtTreeSet.mem_union_of_right hs
      exact h.grounded q hq herased v hway

/-- A way to a symbol outside the cuts without itself avoids the cuts once the symbol is left. -/
theorem Carries.of_erase_insert {cuts : SymbolSet} {s head v : Symbol}
    (h : g.Carries ((cuts.erase s).insert s) head v) : g.Carries cuts head v := by
  refine h.mono fun c hc => ?_
  by_cases hsc : s = c
  · exact mem_insert_guard.2 (.inl hsc)
  · exact mem_insert_guard.2 (.inr (mem_erase_guard.2 ⟨hsc, hc⟩))

/-- The answer at all occurrences of a symbol, without the cuts at the symbol itself, is an answer
about the symbol. -/
theorem WellFormed.followOf_of_occurrences (wf : g.WellFormed) {guard : SymbolSet} {s : Symbol}
    {answer : Cut SymbolSet}
    (h : g.FollowAt (guard.insert s) (g.occurrencesIn g.rules.length s) answer) :
    g.FollowOf guard s { value := answer.value, cuts := answer.cuts.erase s } where
  guarded v hv := by
    obtain ⟨hne, hcut⟩ := mem_erase_guard.1 hv
    exact (mem_insert_guard.1 (h.guarded v hcut)).resolve_left hne
  sound t ht := by
    obtain ⟨o, ho, hreason⟩ := h.sound t ht
    obtain ⟨before, hbody⟩ := body_of_mem_occurrencesIn ho
    rcases hreason with hbegins | ⟨herased, hfollows⟩
    · exact wf.follows_of_behind ⟨o.rule, o.declared, before, o.rest, hbody, hbegins⟩
    · exact hfollows.of_propagates ⟨o.rule, o.declared, rfl, before, o.rest, hbody, herased⟩
  complete v t hcarries hbehind := by
    rcases hcarries.cases_insert with rfl | ⟨head, hpropagates, hway⟩
    · obtain ⟨r, hr, before, rest, hbody, hbegins⟩ := hbehind
      obtain ⟨o, ho, -, rfl⟩ := exists_mem_occurrencesIn hr hbody
      exact h.begins o ho t hbegins
    · obtain ⟨r, hr, rfl, before, rest, hbody, herased⟩ := hpropagates
      obtain ⟨o, ho, rfl, rfl⟩ := exists_mem_occurrencesIn hr hbody
      exact h.carries o ho herased v t hway.of_erase_insert hbehind
  grounded v hcarries := by
    rcases hcarries.cases_insert with rfl | ⟨head, hpropagates, hway⟩
    · intro r hr before rest hbody
      obtain ⟨o, ho, -, rfl⟩ := exists_mem_occurrencesIn hr hbody
      exact h.rests o ho
    · obtain ⟨r, hr, rfl, before, rest, hbody, herased⟩ := hpropagates
      obtain ⟨o, ho, rfl, rfl⟩ := exists_mem_occurrencesIn hr hbody
      exact h.grounded o ho herased v hway.of_erase_insert

variable (g) in
/-- All that the search goes through from the occurrence is grounded: the rest behind it and, where
that can be erased, all that is carried to the head. -/
def GroundedAt (o : Occurrence g) : Prop :=
  g.GroundedForm o.rest ∧ (g.Derives o.rest [] → g.GroundedFollow o.rule.head)

/-- From the occurrences of a symbol the search goes on to what is carried to the symbol. -/
theorem GroundedFollow.at {s : Symbol} (h : g.GroundedFollow s) {count : Nat} {o : Occurrence g}
    (ho : o ∈ g.occurrencesIn count s) : g.GroundedAt o := by
  obtain ⟨before, hbody⟩ := body_of_mem_occurrencesIn ho
  refine ⟨h.behind o.rule o.declared before o.rest hbody, fun herased => ?_⟩
  exact h.of_propagates ⟨o.rule, o.declared, rfl, before, o.rest, hbody, herased⟩

theorem WellFormed.followVia_ensures (wf : g.WellFormed) {guard : SymbolSet}
    {head : Occurrence g → Analysis (Cut SymbolSet)} (os : List (Occurrence g))
    (hos : ∀ o ∈ os, ∀ t ∈ o.rest, g.IsSymbol t)
    (h : ∀ o ∈ os, Ensures (Memo.Exact g) (head o) (g.FollowOf guard o.rule.head)
      (g.UngroundedError (g.GroundedFollow o.rule.head))) :
    Ensures (Memo.Exact g) (g.followVia head os) (g.FollowAt guard os)
      (g.UngroundedError (∀ o ∈ os, g.GroundedAt o)) := by
  induction os with
  | nil => exact .pure (followAt_nil guard)
  | cons o os ih =>
    have hsymbols := hos o List.mem_cons_self
    have hemptiness : Ensures (Memo.Exact g) (g.sequenceCanBeEmpty o.rest)
        (fun b => b = true ↔ g.Derives o.rest [])
        (g.UngroundedError (∀ q ∈ o :: os, g.GroundedAt q)) :=
      (wf.sequenceCanBeEmpty_ensures o.rest).mono_error fun e ⟨t, ht, he⟩ =>
        absurd (hsymbols t ht) he.2
    have hothers := (ih (fun q hq => hos q (List.mem_cons_of_mem _ hq))
      fun q hq => h q (List.mem_cons_of_mem _ hq)).mono_error fun e he =>
        (⟨he.1, fun hall => he.2 (List.forall_mem_cons.1 hall).2⟩ :
          g.UngroundedError (∀ q ∈ o :: os, g.GroundedAt q) e)
    unfold followVia
    refine ((wf.first_of_symbols_ensures hsymbols).mono_error fun e he => ?_).bind
      fun found hfound => ?_
    · exact ⟨he.1, fun hall => he.2 (hall o List.mem_cons_self).1⟩
    refine hemptiness.bind fun canBeEmpty hiff => ?_
    split
    · next hcan =>
      have herased := hiff.1 hcan
      refine ((h o List.mem_cons_self).mono_error fun e he => ?_).bind fun further hfurther => ?_
      · exact ⟨he.1, fun hall => he.2 ((hall o List.mem_cons_self).2 herased)⟩
      refine hothers.bind fun answer hanswer => .pure (hanswer.cons hfound (fun _ => hfurther) ?_)
      exact fun hnone => absurd herased hnone
    · next hcan =>
      refine hothers.bind fun answer hanswer => .pure (hanswer.cons hfound ?_ fun _ => rfl)
      exact fun herased => absurd (hiff.2 herased) hcan

/-- Induction along the search: a symbol leads to heads under the guard with itself. -/
theorem follow_induction {motive : SymbolSet → Symbol → Prop}
    (step : ∀ guard s, (s ∉ guard → ∀ head ∈ g.heads, motive (guard.insert s) head) →
      motive guard s) (guard : SymbolSet) (s : Symbol) : motive guard s := by
  generalize hdepth : g.followDepth guard s = depth
  induction depth using Nat.strongRecOn generalizing guard s with
  | ind depth ih =>
    refine step guard s fun hguard head hhead => ?_
    exact ih _ (hdepth ▸ followDepth_lt hguard hhead) (guard.insert s) head rfl

/-- The search from a symbol under a guard, with what it needs to be grounded. -/
theorem WellFormed.guardedFollow_ensures_grounded (wf : g.WellFormed) (guard : SymbolSet)
    (s : Symbol) :
    Ensures (Memo.Exact g) (g.guardedFollow guard s) (g.FollowOf guard s)
      (g.UngroundedError (g.GroundedFollow s)) := by
  induction guard, s using follow_induction (g := g) with
  | step guard s ih =>
    rw [guardedFollow]
    split
    · next hguard =>
      have hnone : ∀ v, ¬g.Carries {s} s v := by
        intro v hcarries
        cases hcarries with
        | here allowed => exact allowed (mem_singleton_guard.2 rfl)
        | step allowed _ _ => exact allowed (mem_singleton_guard.2 rfl)
      refine .pure ⟨fun v hv => mem_singleton_guard.1 hv ▸ hguard, fun t ht => ?_, ?_, ?_⟩
      · exact absurd ht Std.ExtTreeSet.not_mem_empty
      · exact fun v t hcarries => absurd hcarries (hnone v)
      · exact fun v hcarries => absurd hcarries (hnone v)
    next hguard =>
    refine (Ensures.lookUp_entry s fun memo hmemo => hmemo.groundedFollow).bind
      fun found hfound => ?_
    cases found with
    | some known =>
      obtain ⟨hgrounded, hiff⟩ := hfound known rfl
      exact .pure (wf.followOf_of_iff hgrounded hiff)
    | none =>
      refine (occurrences_ensures s).bind fun os hos => ?_
      subst hos
      have hsymbols : ∀ o ∈ g.occurrencesIn g.rules.length s, ∀ t ∈ o.rest, g.IsSymbol t :=
        fun _ ho _ ht => wf.isSymbol_of_mem_rest ho ht
      have hvia := wf.followVia_ensures _ hsymbols fun o _ =>
        ih hguard o.rule.head (mem_heads o.declared)
      refine (hvia.mono_error fun e he => ?_).bind fun answer hanswer => ?_
      · exact ⟨he.1, fun hgrounded => he.2 fun o ho => hgrounded.at ho⟩
      have hfollow := wf.followOf_of_occurrences hanswer
      refine Ensures.rememberIf_bind ?_ (.pure hfollow)
      intro hfinal memo hmemo
      have hcuts := Std.ExtTreeSet.isEmpty_iff.1 hfinal
      exact hmemo.insert_follow (hfollow.groundedFollow hcuts) (wf.iff_of_followOf hfollow hcuts)

theorem WellFormed.guardedFollow_ensures (wf : g.WellFormed) (guard : SymbolSet) (s : Symbol) :
    Ensures (Memo.Exact g) (g.guardedFollow guard s) (g.FollowOf guard s) g.IsLeftRecursion :=
  (wf.guardedFollow_ensures_grounded guard s).mono_error fun _ he => he.1

/-- Without guard an answer has no cuts. -/
theorem FollowOf.cuts_eq_empty {s : Symbol} {answer : Cut SymbolSet} (h : g.FollowOf ∅ s answer) :
    answer.cuts = ∅ :=
  eq_empty_of_unguarded h.guarded

/-- Without guard the search finds all that follows, if all that it goes through is grounded. -/
theorem WellFormed.follow_ensures_grounded (wf : g.WellFormed) (s : Symbol) :
    Ensures (Memo.Exact g) (g.follow s)
      (fun found => g.GroundedFollow s ∧ ∀ t, t ∈ found ↔ g.Follows s t)
      (g.UngroundedError (g.GroundedFollow s)) := by
  refine (wf.guardedFollow_ensures_grounded ∅ s).bind fun answer hanswer => .pure ?_
  have hcuts := hanswer.cuts_eq_empty
  exact ⟨hanswer.groundedFollow hcuts, wf.iff_of_followOf hanswer hcuts⟩

theorem WellFormed.follow_ensures (wf : g.WellFormed) (s : Symbol) :
    Ensures (Memo.Exact g) (g.follow s) (fun found => ∀ t, t ∈ found ↔ g.Follows s t)
      g.IsLeftRecursion :=
  (wf.follow_ensures_grounded s).mono (fun _ h => h.2) fun _ he => he.1

end Grammar

end Predictive
