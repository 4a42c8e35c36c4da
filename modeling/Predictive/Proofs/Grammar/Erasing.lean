import Predictive.Analysis.Memo
import Predictive.Proofs.Grammar.Forms

/-!
# Erasing a form

A form is erased by expanding all of it until nothing is left. `Erases` restricts the expansions to
variables outside a set, as a guarded search does. The main statement is `erases_singleton_iff`: a
variable that can be erased can be erased without expanding it a second time, because the innermost
expansion of the variable would do in place of the outermost. This is what lets a search forget
the cuts at its own variable.
-/

namespace Predictive.Grammar

variable {g : Grammar} {avoid : SymbolSet}

variable (g avoid) in
/-- The form derives the empty string by expansions outside a set. -/
inductive Erases : List Symbol → Prop where
  | nil : Erases []
  | rule {r : Rule} {rest : List Symbol} (declared : r ∈ g.rules) (allowed : r.head ∉ avoid)
      (body : Erases r.body) (others : Erases rest) : Erases (r.head :: rest)

theorem Erases.append {first second : List Symbol} (h : g.Erases avoid first)
    (h' : g.Erases avoid second) : g.Erases avoid (first ++ second) := by
  induction h with
  | nil => exact h'
  | rule declared allowed body _ _ ih => exact .rule declared allowed body ih

theorem erases_append_iff {first second : List Symbol} :
    g.Erases avoid (first ++ second) ↔ g.Erases avoid first ∧ g.Erases avoid second := by
  refine ⟨fun h => ?_, fun ⟨h, h'⟩ => h.append h'⟩
  induction first with
  | nil => exact ⟨.nil, h⟩
  | cons s first ih =>
    rw [List.cons_append] at h
    cases h with
    | rule declared allowed body others =>
      obtain ⟨hfirst, hsecond⟩ := ih others
      exact ⟨.rule declared allowed body hfirst, hsecond⟩

theorem erases_cons_iff {s : Symbol} {rest : List Symbol} :
    g.Erases avoid (s :: rest) ↔ g.Erases avoid [s] ∧ g.Erases avoid rest :=
  @erases_append_iff g avoid [s] rest

/-- What can be erased outside a set can be erased outside any smaller one. -/
theorem Erases.mono {avoid' : SymbolSet} {form : List Symbol} (h : g.Erases avoid form)
    (hsub : ∀ s ∈ avoid', s ∈ avoid) : g.Erases avoid' form := by
  induction h with
  | nil => exact .nil
  | rule declared allowed _ _ ihbody ihothers =>
    exact .rule declared (fun hmem => allowed (hsub _ hmem)) ihbody ihothers

/-- Either a variable is not expanded at all, or its innermost expansion shows how to erase it
without a second one. -/
theorem Erases.innermost {form : List Symbol} (h : g.Erases avoid form) (v : Symbol) :
    g.Erases (avoid.insert v) form ∨
      ∃ r ∈ g.rules, r.head = v ∧ v ∉ avoid ∧ g.Erases (avoid.insert v) r.body := by
  induction h with
  | nil => exact .inl .nil
  | @rule r rest declared allowed _ _ ihbody ihothers =>
    rcases ihbody with hbody | found
    · rcases ihothers with hothers | found
      · by_cases hv : r.head = v
        · exact .inr ⟨r, declared, hv, hv ▸ allowed, hbody⟩
        · refine .inl (.rule declared ?_ hbody hothers)
          rw [mem_insert_guard, not_or]
          exact ⟨Ne.symm hv, allowed⟩
      · exact .inr found
    · exact .inr found

/-- A variable is erased by a rule whose body is erased without the variable. -/
theorem erases_singleton_iff {v : Symbol} :
    g.Erases avoid [v] ↔
      v ∉ avoid ∧ ∃ r ∈ g.rules, r.head = v ∧ g.Erases (avoid.insert v) r.body := by
  constructor
  · intro h
    rcases h.innermost v with hinside | ⟨r, declared, hv, hallowed, hbody⟩
    · cases hinside with
      | rule _ allowed _ _ => exact absurd (mem_insert_guard.2 (.inl rfl)) allowed
    · exact ⟨hallowed, r, declared, hv, hbody⟩
  · rintro ⟨hallowed, r, declared, rfl, hbody⟩
    exact .rule declared hallowed (hbody.mono fun s hs => mem_insert_guard.2 (.inr hs)) .nil

/-- A form is erased outside a set exactly when a derivation of the empty string expands by rules
of variables outside the set alone. -/
theorem erases_iff_exists_derivesBy {form : List Symbol} :
    g.Erases avoid form ↔ ∃ rules, g.DerivesBy rules form [] ∧ ∀ r ∈ rules, r.head ∉ avoid := by
  constructor
  · intro h
    induction h with
    | nil => exact ⟨[], .refl [], by simp⟩
    | @rule r rest declared allowed _ _ ihbody ihothers =>
      obtain ⟨rules, hbody, hrules⟩ := ihbody
      obtain ⟨rules', hothers, hrules'⟩ := ihothers
      have hderives : g.DerivesBy (rules ++ rules') (r.body ++ rest) [] :=
        (hbody.append_right rest).trans hothers
      refine ⟨r :: (rules ++ rules'), .step declared [] rest hderives, ?_⟩
      intro q hq
      simp only [List.mem_cons, List.mem_append] at hq
      rcases hq with rfl | hq | hq
      · exact allowed
      · exact hrules q hq
      · exact hrules' q hq
  · rintro ⟨rules, h, hrules⟩
    generalize hnil : ([] : List Symbol) = last at h
    induction h with
    | refl => exact hnil ▸ .nil
    | @step r rules last declared before after _ ih =>
      have hrest := ih (fun q hq => hrules q (List.mem_cons_of_mem _ hq)) hnil
      simp only [erases_append_iff] at hrest
      obtain ⟨⟨hbefore, hbody⟩, hafter⟩ := hrest
      exact hbefore.append (.rule declared (hrules r List.mem_cons_self) hbody hafter)

/-- Without anything to avoid, what is erased is what derives the empty string. -/
theorem erases_empty_iff {form : List Symbol} : g.Erases ∅ form ↔ g.Derives form [] := by
  rw [erases_iff_exists_derivesBy, derives_iff_exists_derivesBy]
  simp

end Predictive.Grammar
