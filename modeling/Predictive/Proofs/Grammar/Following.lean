import Predictive.Proofs.Grammar.Beginning
import Predictive.Analysis.Memo

/-!
# What follows a symbol

A terminal stands directly behind a symbol when the rest of a body behind an occurrence begins with
it (`Behind`). Where such a rest can be erased, all that follows the head of the rule follows the
symbol too (`Propagates`). `Carries` says that what stands behind one symbol is carried to another
along steps that stay outside a set. The main statement is `follows_iff`: a symbol is followed by
just what is carried to it. `GroundedFollow` says of all that is carried to a symbol that it stands
in grounded rests.
-/

namespace Predictive.Grammar

variable (g : Grammar)

/-- In a body, the rest behind an occurrence of the symbol begins with the terminal. -/
def Behind (s t : Symbol) : Prop :=
  ∃ r ∈ g.rules, ∃ before after, r.body = before ++ s :: after ∧ g.Begins after t

/-- What stands behind `v` also follows `s`, by way of heads outside a set. -/
inductive Carries (avoid : SymbolSet) : Symbol → Symbol → Prop where
  | here {s : Symbol} (allowed : s ∉ avoid) : Carries avoid s s
  | step {s head v : Symbol} (allowed : s ∉ avoid) (propagates : g.Propagates s head)
      (carries : Carries avoid head v) : Carries avoid s v

/-- In every body, the rest behind an occurrence of the symbol is grounded. -/
def GroundedBehind (s : Symbol) : Prop :=
  ∀ r ∈ g.rules, ∀ before after, r.body = before ++ s :: after → g.GroundedForm after

/-- Whatever is carried to the symbol stands in grounded rests. -/
def GroundedFollow (s : Symbol) : Prop :=
  ∀ v, g.Carries ∅ s v → g.GroundedBehind v

variable {g} {avoid : SymbolSet}

theorem Carries.mono {avoid' : SymbolSet} {s v : Symbol} (h : g.Carries avoid s v)
    (hsub : ∀ t ∈ avoid', t ∈ avoid) : g.Carries avoid' s v := by
  induction h with
  | here allowed => exact .here fun hmem => allowed (hsub _ hmem)
  | step allowed propagates _ ih => exact .step (fun hmem => allowed (hsub _ hmem)) propagates ih

/-- Either a symbol is not met at all on the way, or the way goes on from where it is met last. -/
theorem Carries.last_visit {s v : Symbol} (h : g.Carries avoid s v) (x : Symbol) :
    g.Carries (avoid.insert x) s v ∨ x = v ∨
      ∃ head, g.Propagates x head ∧ g.Carries (avoid.insert x) head v := by
  induction h with
  | @here s allowed =>
    by_cases hx : x = s
    · exact .inr (.inl hx)
    · exact .inl (.here (by simpa [mem_insert_guard, hx] using allowed))
  | @step s head v allowed propagates _ ih =>
    rcases ih with hrest | found
    · by_cases hx : x = s
      · exact .inr (.inr ⟨head, hx ▸ propagates, hrest⟩)
      · exact .inl (.step (by simpa [mem_insert_guard, hx] using allowed) propagates hrest)
    · exact .inr found

/-- From a symbol, a way need not come back to it. -/
theorem Carries.cases_insert {s v : Symbol} (h : g.Carries avoid s v) :
    s = v ∨ ∃ head, g.Propagates s head ∧ g.Carries (avoid.insert s) head v := by
  rcases h.last_visit s with hinside | found
  · cases hinside with
    | here allowed => exact absurd (mem_insert_guard.2 (.inl rfl)) allowed
    | step allowed _ _ => exact absurd (mem_insert_guard.2 (.inl rfl)) allowed
  · exact found

/-- What is carried to a head is carried to a symbol that can come to stand last in its body. -/
theorem GroundedFollow.of_propagates {s head : Symbol} (h : g.GroundedFollow s)
    (hp : g.Propagates s head) : g.GroundedFollow head :=
  fun v hv => h v (.step Std.ExtTreeSet.not_mem_empty hp hv)

theorem GroundedFollow.behind {s : Symbol} (h : g.GroundedFollow s) : g.GroundedBehind s :=
  h s (.here Std.ExtTreeSet.not_mem_empty)

/-- What stands behind a symbol follows it. -/
theorem WellFormed.follows_of_behind (wf : g.WellFormed) {s t : Symbol} (h : g.Behind s t) :
    g.Follows s t := by
  obtain ⟨r, hr, before, after, hbody, ht, rest, hrest⟩ := h
  refine ⟨ht, r.head, wf.head_mem hr, before, rest, ?_⟩
  have hexpand : g.Derives [r.head] (before ++ s :: after) := hbody ▸ .ofRule hr
  exact hexpand.trans (by simpa using hrest.within (before ++ [s]) [])

/-- What follows the head of a rule follows a symbol that can come to stand last in its body. -/
theorem Follows.of_propagates {s head t : Symbol} (h : g.Follows head t)
    (hp : g.Propagates s head) : g.Follows s t := by
  obtain ⟨ht, v, hv, before, after, hform⟩ := h
  obtain ⟨r, hr, rfl, front, back, hbody, hback⟩ := hp
  refine ⟨ht, v, hv, before ++ front, after, ?_⟩
  have hexpand : g.Derives [r.head] (front ++ [s]) := by
    have hlast : g.Derives r.body (front ++ [s]) := by
      rw [hbody]
      simpa using hback.within (front ++ [s]) []
    exact (Derives.ofRule hr).trans hlast
  have hinside := hexpand.within before (t :: after)
  exact hform.trans (by simpa using hinside)

/-- Whatever a derived form has behind a symbol is carried to it. -/
theorem exists_carries_of_derives {v : Symbol} {form : List Symbol} (h : g.Derives [v] form) :
    ∀ {before s after t}, form = before ++ s :: after → g.Begins after t →
      ∃ w, g.Carries ∅ s w ∧ g.Behind w t := by
  induction h using Derives.induction_last with
  | refl =>
    intro before s after t hform hafter
    cases before with
    | nil =>
      obtain ⟨-, rfl⟩ := List.cons_eq_cons.1 hform
      exact absurd hafter (not_begins_nil t)
    | cons a before => simp at hform
  | tail _ _ _ rewrites ih =>
    obtain @⟨r, declared, left, right⟩ := rewrites
    intro before s after t hform hafter
    rw [List.append_assoc] at hform
    rcases append_eq_append_cons_iff.1 hform with ⟨gap, rfl, rfl⟩ | ⟨gap, rfl, hinside⟩
    · -- The symbol stands in front of the body, which its head derives.
      have hright : g.Derives (gap ++ r.head :: right) (gap ++ (r.body ++ right)) := by
        simpa using (Derives.ofRule declared).within gap right
      exact ih (List.append_assoc before _ _) (hafter.of_derives hright)
    rcases append_eq_append_cons_iff.1 hinside with ⟨rest, hbody, rfl⟩ | ⟨rest, rfl, rfl⟩
    · -- The symbol stands in the body.
      rcases begins_append_iff.1 hafter with hrest | ⟨herased, hright⟩
      · exact ⟨s, .here Std.ExtTreeSet.not_mem_empty, r, declared, gap, rest, hbody, hrest⟩
      · obtain ⟨w, hcarries, hbehind⟩ := ih rfl hright
        refine ⟨w, .step Std.ExtTreeSet.not_mem_empty ?_ hcarries, hbehind⟩
        exact ⟨r, declared, rfl, gap, rest, hbody, herased⟩
    · -- The symbol stands behind the body and was there before.
      have hform : left ++ r.head :: (rest ++ s :: after) =
          (left ++ r.head :: rest) ++ s :: after := by
        simp
      exact ih hform hafter

/-- A symbol is followed by what is carried to it. -/
theorem WellFormed.follows_iff (wf : g.WellFormed) {s t : Symbol} :
    g.Follows s t ↔ ∃ v, g.Carries ∅ s v ∧ g.Behind v t := by
  constructor
  · rintro ⟨ht, v, -, before, after, hform⟩
    have hafter : g.Begins (t :: after) t := ⟨ht, after, .refl _⟩
    exact exists_carries_of_derives hform rfl hafter
  · rintro ⟨v, hcarries, hbehind⟩
    induction hcarries with
    | here => exact wf.follows_of_behind hbehind
    | step _ propagates _ ih => exact (ih hbehind).of_propagates propagates

end Predictive.Grammar
