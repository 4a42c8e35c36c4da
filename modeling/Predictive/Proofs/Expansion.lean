import Predictive.Proofs.Repetition

/-!
# Expansions of the search for following terminals

To search for what follows a symbol is to expand it: to go through its occurrences and on to the
heads of their rules. What has been found is remembered for the symbol and for all that it leads to
along propagation steps, except for symbols on a cycle with others. In a grammar without such
cycles a search expands each symbol once, and those just that it adds to what is remembered
(`ExpandsOnce`); none of them is ever expanded again (`Grammar.follow_remembers_ahead`).
-/

namespace Predictive

open Analysis (Ensures Keeps Leaves Thoroughly)
open Relation (TransGen ReflTransGen)

/-- Where a sequence ends in a value, both its parts do. -/
theorem Analysis.exists_of_runFrom_bind {α β : Type} {x : Analysis α} {f : α → Analysis β}
    {memo after : Memo} {b : β} (h : (x >>= f).runFrom memo = (.ok b, after)) :
    ∃ a between, x.runFrom memo = (.ok a, between) ∧ (f a).runFrom between = (.ok b, after) := by
  rw [runFrom_bind] at h
  rcases hrun : x.runFrom memo with ⟨e | a, between⟩
  · rw [hrun] at h
    cases congrArg Prod.fst h
  · rw [hrun] at h
    exact ⟨a, between, rfl, h⟩

namespace Grammar

variable (g : Grammar)

/-- What the search asks of the rest behind an occurrence: what it begins with, and whether it can
be erased, so that the search goes on to the head. -/
def goesOn (o : Occurrence g) : Analysis Bool := do
  let _ ← g.first o.rest
  g.sequenceCanBeEmpty o.rest

/-- The symbols that the search expands from the given occurrences, by way of those that it expands
from the heads of their rules. -/
def expansionsVia (head : Occurrence g → Analysis (Cut SymbolSet))
    (below : Occurrence g → Memo → List Symbol) : List (Occurrence g) → Memo → List Symbol
  | [], _ => []
  | o :: others, memo =>
    match (g.goesOn o).runFrom memo with
    | (.ok true, entered) =>
      below o entered ++
        match (head o).runFrom entered with
        | (.ok _, left) => expansionsVia head below others left
        | (.error _, _) => []
    | (.ok false, passed) => expansionsVia head below others passed
    | (.error _, _) => []

/-- The symbols that the search from a symbol expands, in order. One that is guarded or remembered
is not expanded. -/
def expansions (guard : SymbolSet) (s : Symbol) (memo : Memo) : List Symbol :=
  if _hguard : s ∈ guard then
    []
  else if s ∈ memo.follow then
    []
  else
    match (g.occurrences s).runFrom memo with
    | (.ok os, listed) =>
      s :: g.expansionsVia (fun o => g.guardedFollow (guard.insert s) o.rule.head)
        (fun o => expansions (guard.insert s) o.rule.head) os listed
    | (.error _, _) => [s]
termination_by g.followDepth guard s
decreasing_by exact followDepth_lt _hguard (mem_heads o.declared)

variable {g}

theorem WellFormed.goesOn_leaves (wf : g.WellFormed) (o : Occurrence g) :
    Leaves (Memo.Thorough g) (g.goesOn o)
      (Thoroughly g fun b _ => b = true ↔ g.Derives o.rest []) :=
  .of_robust ((wf.first_keeps o.rest).bind fun _ _ =>
      (wf.sequenceCanBeEmpty_ensures o.rest).mono_error fun _ _ => trivial)
    fun _ hinv => (guardedFirst_keeps hinv ∅ o.rest).bind fun _ _ =>
      sequenceCanBeEmpty_keeps hinv o.rest

/-- What is remembered about following terminals is not touched by it. -/
theorem follow_goesOn {o : Occurrence g} {memo after : Memo} {outcome : Except GrammarError Bool}
    (h : (g.goesOn o).runFrom memo = (outcome, after)) : after.follow = memo.follow := by
  have hinv := Memo.robust_follow (· = memo.follow)
  have hkeeps : Keeps (fun later => later.follow = memo.follow) (g.goesOn o) :=
    (guardedFirst_keeps hinv ∅ o.rest).bind fun _ _ => sequenceCanBeEmpty_keeps hinv o.rest
  have hafter := (hkeeps memo rfl).1
  rwa [h] at hafter

theorem follow_occurrences {s : Symbol} {memo after : Memo}
    {outcome : Except GrammarError (List (Occurrence g))}
    (h : (g.occurrences s).runFrom memo = (outcome, after)) : after.follow = memo.follow := by
  have hkeeps := @occurrences_keeps g _ (Memo.robust_follow (· = memo.follow)) s
  have hafter := (hkeeps memo rfl).1
  rwa [h] at hafter

/-- What a search from some occurrences that comes to an end has done at the first. -/
theorem followVia_cons_ok {head : Occurrence g → Analysis (Cut SymbolSet)} {o : Occurrence g}
    {os : List (Occurrence g)} {memo after : Memo} {answer : Cut SymbolSet}
    (h : (g.followVia head (o :: os)).runFrom memo = (.ok answer, after)) :
    ∃ b entered others, (g.goesOn o).runFrom memo = (.ok b, entered) ∧
      if b then ∃ further left, (head o).runFrom entered = (.ok further, left) ∧
        (g.followVia head os).runFrom left = (.ok others, after)
      else (g.followVia head os).runFrom entered = (.ok others, after) := by
  unfold followVia at h
  obtain ⟨found, between, hfirst, h⟩ := Analysis.exists_of_runFrom_bind h
  obtain ⟨b, entered, hempty, h⟩ := Analysis.exists_of_runFrom_bind h
  have hgoesOn : (g.goesOn o).runFrom memo = (.ok b, entered) := by
    rw [goesOn, Analysis.runFrom_bind_of_ok hfirst]
    exact hempty
  cases b with
  | true =>
    obtain ⟨further, left, hhead, h⟩ := Analysis.exists_of_runFrom_bind h
    obtain ⟨others, last, hothers, h⟩ := Analysis.exists_of_runFrom_bind h
    obtain rfl : last = after := congrArg Prod.snd h
    exact ⟨true, entered, others, hgoesOn, further, left, hhead, hothers⟩
  | false =>
    obtain ⟨further, passed, hpure, h⟩ := Analysis.exists_of_runFrom_bind h
    obtain rfl : entered = passed := congrArg Prod.snd hpure
    obtain ⟨others, last, hothers, h⟩ := Analysis.exists_of_runFrom_bind h
    obtain rfl : last = after := congrArg Prod.snd h
    exact ⟨false, entered, others, hgoesOn, hothers⟩

/-- What a search from a symbol that is neither guarded nor remembered has done, if it comes to an
end: it adds nothing but the symbol to what was found from the occurrences. -/
theorem guardedFollow_ok {guard : SymbolSet} {s : Symbol} {memo after : Memo}
    {answer : Cut SymbolSet} (hguard : s ∉ guard) (hnew : s ∉ memo.follow)
    (h : (g.guardedFollow guard s).runFrom memo = (.ok answer, after)) :
    ∃ os listed via between, (g.occurrences s).runFrom memo = (.ok os, listed) ∧
      (g.followVia (fun o => g.guardedFollow (guard.insert s) o.rule.head) os).runFrom listed =
        (.ok via, between) ∧
      between.Within after ∧ ∀ v ∈ after.follow, v = s ∨ v ∈ between.follow := by
  rw [guardedFollow, dif_neg hguard,
    Analysis.runFrom_bind_of_ok (Analysis.runFrom_lookUp _ memo)] at h
  rw [Std.ExtTreeMap.getElem?_eq_none hnew] at h
  obtain ⟨os, listed, hlisted, h⟩ := Analysis.exists_of_runFrom_bind h
  obtain ⟨via, between, hvia, h⟩ := Analysis.exists_of_runFrom_bind h
  refine ⟨os, listed, via, between, hlisted, hvia, ?_⟩
  rw [Analysis.runFrom_bind_of_ok (Analysis.runFrom_rememberIf _ _ between)] at h
  obtain rfl := congrArg Prod.snd h
  split
  · refine ⟨(Memo.Within.refl between).insert_follow s _, fun v hv => ?_⟩
    refine (Std.ExtTreeMap.mem_insert.1 hv).imp_left fun hsv => ?_
    exact (Std.LawfulEqCmp.compare_eq_iff_eq.1 hsv).symm
  · exact ⟨.refl between, fun v hv => .inr hv⟩

/-! What is remembered is not expanded. -/

theorem WellFormed.not_mem_follow_of_mem_expansionsVia (wf : g.WellFormed)
    {head : Occurrence g → Analysis (Cut SymbolSet)} {below : Occurrence g → Memo → List Symbol}
    (hhead : ∀ o, Leaves (Memo.Thorough g) (head o) fun _ memo => memo.Thorough g)
    (hbelow : ∀ o memo, memo.Thorough g → ∀ v ∈ below o memo, v ∉ memo.follow)
    (os : List (Occurrence g)) {memo : Memo} (hmemo : memo.Thorough g) {v : Symbol}
    (hv : v ∈ g.expansionsVia head below os memo) : v ∉ memo.follow := by
  induction os generalizing memo with
  | nil => cases hv
  | cons o os ih =>
    unfold expansionsVia at hv
    split at hv
    · next entered hrun =>
      obtain ⟨-, hentered, -⟩ := (wf.goesOn_leaves o).of_run hmemo hrun
      rw [← follow_goesOn hrun]
      rcases List.mem_append.1 hv with hv | hv
      · exact hbelow o entered hentered v hv
      split at hv
      · next left hleft =>
        obtain ⟨hwithin, hthorough⟩ := (hhead o).of_run hentered hleft
        exact fun hknown => ih hthorough hv (hwithin.follow v hknown)
      · cases hv
    · next passed hrun =>
      obtain ⟨-, hpassed, -⟩ := (wf.goesOn_leaves o).of_run hmemo hrun
      rw [← follow_goesOn hrun]
      exact ih hpassed hv
    · cases hv

/-- Whatever the guard and however the search ends, it expands nothing that is remembered. -/
theorem WellFormed.not_mem_follow_of_mem_expansions (wf : g.WellFormed) (guard : SymbolSet)
    (s : Symbol) : ∀ memo, memo.Thorough g → ∀ v ∈ g.expansions guard s memo, v ∉ memo.follow := by
  induction guard, s using follow_induction (g := g) with
  | step guard s ih =>
    intro memo hmemo v hv
    rw [expansions] at hv
    split at hv
    · cases hv
    next hguard =>
    split at hv
    · cases hv
    next hnew =>
    split at hv
    · next os listed hrun =>
      rcases List.mem_cons.1 hv with rfl | hv
      · exact hnew
      have hlisted := ((occurrences_lasting s).leaves.of_run hmemo hrun).2
      rw [← follow_occurrences hrun]
      refine wf.not_mem_follow_of_mem_expansionsVia (fun o => ?_) (fun o => ?_) os hlisted hv
      · exact (wf.guardedFollow_leaves (guard.insert s) o.rule.head).mono fun _ _ h => h.1
      · exact ih hguard o.rule.head (mem_heads o.declared)
    · exact List.mem_singleton.1 hv ▸ hnew

/-! Without cycles of several symbols, what is expanded is remembered. -/

/-- The symbols are all different and not guarded. Every entry is kept, and they are just the
symbols that there is an entry for afterwards and was none before. -/
structure ExpandsOnce (guard : SymbolSet) (before after : Std.ExtTreeMap Symbol SymbolSet)
    (expanded : List Symbol) : Prop where
  nodup : expanded.Nodup
  unguarded : ∀ v ∈ expanded, v ∉ guard
  kept : ∀ v ∈ before, v ∈ after
  mem_iff : ∀ v, v ∈ expanded ↔ v ∈ after ∧ v ∉ before

namespace ExpandsOnce

variable {guard : SymbolSet} {before between after : Std.ExtTreeMap Symbol SymbolSet}
  {expanded others : List Symbol}

theorem nil (guard : SymbolSet) (before : Std.ExtTreeMap Symbol SymbolSet) :
    ExpandsOnce guard before before [] where
  nodup := .nil
  unguarded _ hv := absurd hv List.not_mem_nil
  kept _ hv := hv
  mem_iff _ := iff_of_false List.not_mem_nil fun h => h.2 h.1

theorem append (h : ExpandsOnce guard before between expanded)
    (h' : ExpandsOnce guard between after others) :
    ExpandsOnce guard before after (expanded ++ others) where
  nodup := by
    refine h.nodup.append h'.nodup fun v hv hv' => ?_
    exact ((h'.mem_iff v).1 hv').2 ((h.mem_iff v).1 hv).1
  unguarded v hv := (List.mem_append.1 hv).elim (h.unguarded v) (h'.unguarded v)
  kept v hv := h'.kept v (h.kept v hv)
  mem_iff v := by
    rw [List.mem_append, h.mem_iff, h'.mem_iff]
    constructor
    · rintro (⟨hbetween, hnew⟩ | ⟨hlast, hnew⟩)
      · exact ⟨h'.kept v hbetween, hnew⟩
      · exact ⟨hlast, fun hold => hnew (h.kept v hold)⟩
    · rintro ⟨hlast, hnew⟩
      by_cases hbetween : v ∈ between
      · exact .inl ⟨hbetween, hnew⟩
      · exact .inr ⟨hlast, hbetween⟩

/-- A symbol that is expanded under a guard with itself, and added at the end. -/
theorem cons {s : Symbol} (h : ExpandsOnce (guard.insert s) before between expanded)
    (hguard : s ∉ guard) (hnew : s ∉ before) (hs : s ∈ after) (hwithin : ∀ v ∈ between, v ∈ after)
    (hadded : ∀ v ∈ after, v = s ∨ v ∈ between) :
    ExpandsOnce guard before after (s :: expanded) where
  nodup := by
    refine List.nodup_cons.2 ⟨fun hmem => ?_, h.nodup⟩
    exact h.unguarded s hmem (mem_insert_guard.2 (.inl rfl))
  unguarded v hv := by
    rcases List.mem_cons.1 hv with rfl | hv
    · exact hguard
    · exact fun hmem => h.unguarded v hv (mem_insert_guard.2 (.inr hmem))
  kept v hv := hwithin v (h.kept v hv)
  mem_iff v := by
    rw [List.mem_cons, h.mem_iff]
    constructor
    · rintro (rfl | ⟨hbetween, hold⟩)
      · exact ⟨hs, hnew⟩
      · exact ⟨hwithin v hbetween, hold⟩
    · rintro ⟨hlast, hold⟩
      exact (hadded v hlast).imp_right fun hbetween => ⟨hbetween, hold⟩

end ExpandsOnce

/-- A symbol on no cycle with others is remembered after its expansion: whatever its answer were cut
at would lead back to it. -/
theorem WellFormed.mem_follow_of_run (wf : g.WellFormed) {guard : SymbolSet} {s : Symbol}
    {memo after : Memo} {answer : Cut SymbolSet} (hs : ¬g.OnOtherCycle s) (hguard : s ∉ guard)
    (hleads : ∀ c ∈ guard, TransGen g.Propagates c s) (hmemo : memo.Thorough g)
    (hrun : (g.guardedFollow guard s).runFrom memo = (.ok answer, after)) : s ∈ after.follow := by
  obtain ⟨-, -, hgathers⟩ := (wf.guardedFollow_leaves guard s).of_run hmemo hrun
  have hfollow := (wf.guardedFollow_ensures guard s).value_of_run hmemo.exact
    (congrArg Prod.fst hrun)
  refine hgathers.known (Std.ExtTreeSet.eq_empty_iff_forall_not_mem.2 fun c hc => hs ?_)
  have hcs := hfollow.guarded c hc
  have hne : c ≠ s := fun heq => hguard (heq ▸ hcs)
  have hsc := (Relation.reflTransGen_iff_eq_or_transGen.1 (hgathers.leads c hc)).resolve_left hne
  exact ⟨c, hne, hsc, hleads c hcs⟩

theorem WellFormed.expansionsVia_once (wf : g.WellFormed) {guard : SymbolSet}
    {head : Occurrence g → Analysis (Cut SymbolSet)} {below : Occurrence g → Memo → List Symbol}
    (hhead : ∀ o, Leaves (Memo.Thorough g) (head o) fun _ memo => memo.Thorough g)
    (os : List (Occurrence g))
    (hbelow : ∀ o ∈ os, g.Derives o.rest [] → ∀ memo further left, memo.Thorough g →
      (head o).runFrom memo = (.ok further, left) →
      ExpandsOnce guard memo.follow left.follow (below o memo))
    {memo after : Memo} {answer : Cut SymbolSet} (hmemo : memo.Thorough g)
    (hrun : (g.followVia head os).runFrom memo = (.ok answer, after)) :
    ExpandsOnce guard memo.follow after.follow (g.expansionsVia head below os memo) := by
  induction os generalizing memo answer with
  | nil =>
    obtain rfl : memo = after := congrArg Prod.snd hrun
    exact .nil guard memo.follow
  | cons o os ih =>
    have hothers := @ih fun q hq => hbelow q (List.mem_cons_of_mem _ hq)
    obtain ⟨b, entered, others, hgoesOn, hrest⟩ := followVia_cons_ok hrun
    obtain ⟨-, hentered, hiff⟩ := (wf.goesOn_leaves o).of_run hmemo hgoesOn
    rw [← follow_goesOn hgoesOn, expansionsVia, hgoesOn]
    cases b with
    | false => exact hothers hentered hrest
    | true =>
      obtain ⟨further, left, hfurther, hlast⟩ := hrest
      obtain ⟨-, hleft⟩ := (hhead o).of_run hentered hfurther
      dsimp only
      rw [hfurther]
      have hfirst := hbelow o List.mem_cons_self (hiff.1 rfl) entered further left hentered hfurther
      exact hfirst.append (hothers hleft hlast)

/-- In a grammar without cycles of several symbols, a search under a guard that leads to the symbol
expands each symbol once, and remembers it. -/
theorem WellFormed.expansions_once (wf : g.WellFormed) (hacyclic : ∀ v, ¬g.OnOtherCycle v)
    (guard : SymbolSet) (s : Symbol) : (∀ c ∈ guard, TransGen g.Propagates c s) →
      ∀ memo answer after, memo.Thorough g →
        (g.guardedFollow guard s).runFrom memo = (.ok answer, after) →
        ExpandsOnce guard memo.follow after.follow (g.expansions guard s memo) := by
  induction guard, s using follow_induction (g := g) with
  | step guard s ih =>
    intro hleads memo answer after hmemo hrun
    by_cases hguard : s ∈ guard
    · rw [guardedFollow, dif_pos hguard] at hrun
      obtain rfl : memo = after := congrArg Prod.snd hrun
      rw [expansions, dif_pos hguard]
      exact .nil guard memo.follow
    by_cases hknown : s ∈ memo.follow
    · rw [guardedFollow, dif_neg hguard] at hrun
      obtain ⟨known, hhit⟩ := Analysis.runFrom_lookUp_bind_of_mem hknown _
      obtain rfl : memo = after := congrArg Prod.snd (hhit.symm.trans hrun)
      rw [expansions, dif_neg hguard, if_pos hknown]
      exact .nil guard memo.follow
    have hs := wf.mem_follow_of_run (hacyclic s) hguard hleads hmemo hrun
    obtain ⟨os, listed, via, between, hlisted, hvia, hwithin, hadded⟩ :=
      guardedFollow_ok hguard hknown hrun
    rw [expansions, dif_neg hguard, if_neg hknown, hlisted]
    have hthorough := ((occurrences_lasting s).leaves.of_run hmemo hlisted).2
    have hos := (@occurrences_ensures g (fun _ => False) s).value_of_run hmemo.exact
      (congrArg Prod.fst hlisted)
    subst hos
    have honce := wf.expansionsVia_once
      (fun o => (wf.guardedFollow_leaves (guard.insert s) o.rule.head).mono fun _ _ h => h.1) _
      (fun o ho herased => ih hguard o.rule.head (mem_heads o.declared) fun c hc => ?_)
      hthorough hvia
    · rw [follow_occurrences hlisted] at honce
      exact honce.cons hguard hknown hs hwithin.follow hadded
    · have hstep := propagates_of_mem_occurrencesIn ho herased
      rcases mem_insert_guard.1 hc with rfl | hc
      · exact .single hstep
      · exact (hleads c hc).tail hstep

/-! After any queries. -/

variable (g) in
/-- What is remembered after further queries. -/
inductive Onward (memo : Memo) : Memo → Prop where
  | here : Onward memo memo
  | ask {later : Memo} (onward : Onward memo later) (q : Query g) :
      Onward memo (q.ask.runFrom later).2

theorem Onward.within (wf : g.WellFormed) {memo later : Memo} (hmemo : memo.Thorough g)
    (h : g.Onward memo later) : memo.Within later ∧ later.Thorough g := by
  induction h with
  | here => exact ⟨.refl memo, hmemo⟩
  | ask _ q ih =>
    obtain ⟨hwithin, hthorough⟩ := q.leaves wf _ ih.2
    exact ⟨ih.1.trans hwithin, hthorough⟩

variable (g) in
/-- A search for what follows a symbol has led from one memory to another. The symbol is remembered
then, and so is all that it leads to, cycles of several symbols aside; where there are none of them,
each symbol is expanded once. What is remembered will never be expanded, whatever is asked later. -/
structure RemembersAhead (s : Symbol) (memo after : Memo) : Prop where
  self : s ∈ after.follow
  ahead : ∀ v, ReflTransGen g.Propagates s v → ¬g.OnOtherCycle v → v ∈ after.follow
  once : (∀ v, ¬g.OnOtherCycle v) →
    ExpandsOnce ∅ memo.follow after.follow (g.expansions ∅ s memo)
  never_again : ∀ v ∈ after.follow, ∀ later, g.Onward after later →
    ∀ guard t, v ∉ g.expansions guard t later

/-- Whatever was asked of a grammar before, a search without a guard for what follows a symbol
leaves nothing ahead of it to be searched for again, but on cycles of several symbols. -/
theorem follow_remembers_ahead {text : String} (hread : ofText text = .ok g) {memo : Memo}
    (hmemo : g.Reachable memo) {s : Symbol} {found : SymbolSet} {after : Memo}
    (hrun : (g.follow s).runFrom memo = (.ok found, after)) : g.RemembersAhead s memo after := by
  have wf := wellFormed_ofText hread
  have hthorough := hmemo.thorough wf
  obtain ⟨answer, between, hsearch, hpure⟩ := Analysis.exists_of_runFrom_bind hrun
  obtain rfl : between = after := congrArg Prod.snd hpure
  obtain ⟨-, hafter, hself⟩ := (wf.guardedFollow_entry s).of_run hthorough hsearch
  constructor
  · exact hself
  · exact fun v hv hcycle => (hafter.closed s hself v hv).resolve_right hcycle
  · intro hacyclic
    have hnone : ∀ c ∈ (∅ : SymbolSet), TransGen g.Propagates c s :=
      fun c hc => absurd hc Std.ExtTreeSet.not_mem_empty
    exact wf.expansions_once hacyclic ∅ s hnone memo answer between hthorough hsearch
  · intro v hv later hlater guard t hexpanded
    obtain ⟨hwithin, hthorough⟩ := hlater.within wf hafter
    exact wf.not_mem_follow_of_mem_expansions guard t later hthorough v hexpanded
      (hwithin.follow v hv)

/-- Each variable stands last in a body of the one before. -/
def chain : Grammar :=
  .ofProductions ⟨"S", ["a", "A"]⟩ [⟨"A", ["b", "B"]⟩, ⟨"B", ["c"]⟩]

theorem ofText_chain : ofText "S = a A\nA = b B\nB = c" = .ok chain := rfl

/-- A search that was cut at the top of the chain has remembered nothing; the next one remembers all
of the chain. -/
theorem follow_remembers_ahead_of_chain :
    ofText "S = a A\nA = b B\nB = c" = .ok chain ∧
      ∃ memo found after, memo = ((chain.guardedFollow {"S"} "B").runFrom {}).2 ∧
        (chain.follow "B").runFrom memo = (.ok found, after) ∧
        chain.RemembersAhead "B" memo after := by
  have hmemo : chain.Reachable ((chain.guardedFollow {"S"} "B").runFrom {}).2 :=
    .ask .new (.follow {"S"} "B")
  have wf := wellFormed_ofText ofText_chain
  have hcheck : (chain.requireDeterministic.runFrom {}).1 = .ok () := by cbv
  have hdet := wf.requireDeterministic_ensures.value_of_run Memo.exact_empty hcheck
  obtain ⟨found, hfound, -⟩ :=
    (wf.follow_ensures "B").exists_value (hmemo.exact wf) hdet.not_isLeftRecursion
  refine ⟨ofText_chain, _, found, _, rfl, Prod.ext hfound rfl, ?_⟩
  exact follow_remembers_ahead ofText_chain hmemo (Prod.ext hfound rfl)

example : chain.expansions ∅ "B" {} = ["B", "A", "S"] := by cbv

end Grammar

end Predictive
