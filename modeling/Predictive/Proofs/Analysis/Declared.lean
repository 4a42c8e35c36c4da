import Predictive.Parsing.Run
import Predictive.Proofs.Analysis.Follow

/-!
# Searches that come upon declared variables only

The searches look up the alternatives of every symbol that is no terminal, and stop at one without
alternatives. They come to other symbols by the bodies of rules. If the bodies hold symbols of the
grammar only (`Grammar.Closed`), a search that begins with such symbols never stops there, whatever
its guard and whatever is remembered.
-/

namespace Predictive

open Analysis (Ensures)

namespace Analysis

variable {α β : Type}

/-- The analysis comes upon no undeclared variable, whatever is remembered. -/
def Declared (x : Analysis α) : Prop :=
  Ensures (fun _ => True) x (fun _ => True) fun e => ∀ v, e ≠ .undeclaredVariable v

namespace Declared

/-! One rule for each building block of analyses. -/

theorem pure (a : α) : (pure a : Analysis α).Declared :=
  Ensures.pure trivial

theorem throw {e : GrammarError} (h : ∀ v, e ≠ .undeclaredVariable v) :
    (throw e : Analysis α).Declared :=
  Ensures.throw h

theorem bind {x : Analysis α} {f : α → Analysis β} (hx : x.Declared)
    (hf : ∀ a, (f a).Declared) : (x >>= f).Declared :=
  Ensures.bind hx fun a _ => hf a

theorem lookUp (look : Memo → α) : (lookUp look).Declared :=
  Ensures.lookUp fun _ _ => trivial

theorem remember_pure (add : Memo → Memo) (a : α) :
    (do remember add; Pure.pure a : Analysis α).Declared :=
  Ensures.remember_bind (fun _ _ => trivial) (.pure trivial)

theorem rememberIf_pure (worth : Bool) (add : Memo → Memo) (a : α) :
    (do rememberIf worth add; Pure.pure a : Analysis α).Declared :=
  Ensures.rememberIf_bind (fun _ _ _ => trivial) (.pure trivial)

theorem forEach {f : α → Analysis β} {xs : List α} (h : ∀ x ∈ xs, (f x).Declared) :
    (forEach f xs).Declared :=
  (Ensures.forEach h).mono_value fun _ _ => trivial

theorem unionOver {f : α → Analysis SymbolSet} {xs : List α} (h : ∀ x ∈ xs, (f x).Declared) :
    (unionOver f xs).Declared := by
  induction xs with
  | nil => exact pure ∅
  | cons x xs ih =>
    refine (h x List.mem_cons_self).bind fun found => ?_
    exact (ih fun z hz => h z (List.mem_cons_of_mem _ hz)).bind fun others => .pure _

/-- Such an analysis never ends with an undeclared variable. -/
theorem run_ne {x : Analysis α} (h : x.Declared) (memo : Memo) (v : Symbol) :
    (x.runFrom memo).1 ≠ .error (.undeclaredVariable v) :=
  fun hrun => h.error_of_run trivial hrun v rfl

end Declared

end Analysis

namespace Emptiness

variable {symbol : Symbol → Analysis (Cut Bool)}

theorem ofSequence_declared {symbols : List Symbol} (h : ∀ s ∈ symbols, (symbol s).Declared) :
    (ofSequence symbol symbols).Declared := by
  induction symbols with
  | nil => exact .pure _
  | cons s rest ih =>
    unfold ofSequence
    refine (h s List.mem_cons_self).bind fun answer => ?_
    split
    · exact ih fun t ht => h t (List.mem_cons_of_mem _ ht)
    · exact .pure _

theorem ofRule_declared {r : Rule} (h : ∀ s ∈ r.body, (symbol s).Declared) :
    (ofRule symbol r).Declared := by
  unfold ofRule
  refine (Analysis.Declared.lookUp _).bind fun known => ?_
  split
  · exact .pure _
  · exact (ofSequence_declared h).bind fun _ => .rememberIf_pure _ _ _

theorem ofRules_declared {rules : List Rule} (h : ∀ r ∈ rules, ∀ s ∈ r.body, (symbol s).Declared) :
    (ofRules symbol rules).Declared := by
  induction rules with
  | nil => exact .pure _
  | cons r rest ih =>
    unfold ofRules
    refine (ofRule_declared (h r List.mem_cons_self)).bind fun answer => ?_
    split
    · exact .pure _
    refine (ih fun q hq => h q (List.mem_cons_of_mem _ hq)).bind fun others => ?_
    split
    · exact .pure _
    · exact .pure _

end Emptiness

namespace Grammar

variable {g : Grammar}

variable (g) in
/-- The bodies of the rules are made of symbols of the grammar. -/
def Closed : Prop :=
  ∀ r ∈ g.rules, ∀ s ∈ r.body, g.IsSymbol s

theorem WellFormed.closed (wf : g.WellFormed) : g.Closed :=
  fun _ hr _ hs => wf.isSymbol_of_mem_body hr hs

/-- A further rule takes away no symbol. -/
theorem IsSymbol.addRule {s : Symbol} (hs : g.IsSymbol s) (owner : Symbol) (p : Production) :
    (g.addRule owner p).IsSymbol s := by
  refine hs.imp_right fun hv => ?_
  obtain ⟨r, hr, hrs⟩ := mem_nonterminals.1 hv
  exact mem_nonterminals.2 ⟨r, List.mem_append_left _ hr, hrs⟩

/-- A further rule whose body is made of symbols of the grammar leaves it closed. -/
theorem Closed.addRule (hclosed : g.Closed) (owner : Symbol) {p : Production}
    (hbody : ∀ s ∈ p.body, g.IsSymbol s) : (g.addRule owner p).Closed := by
  refine List.forall_mem_append.2 ⟨fun r hr s hs => ?_, fun r hr s hs => ?_⟩
  · exact (hclosed r hr s hs).addRule owner p
  · obtain rfl := List.mem_singleton.1 hr
    exact (hbody s hs).addRule owner p

/-- A declared variable has alternatives. -/
theorem alternatives_ne_nil_of_mem {v : Symbol} (hv : v ∈ g.nonterminals) :
    g.alternatives v ≠ [] := by
  obtain ⟨r, hr, howner⟩ := mem_nonterminals.1 hv
  exact List.ne_nil_of_mem (mem_alternatives.2 ⟨hr, howner⟩)

/-- A symbol that is no terminal has alternatives. -/
theorem IsSymbol.alternatives_ne_nil {s : Symbol} (hs : g.IsSymbol s)
    (hterminal : ¬g.isTerminal s) : g.alternatives s ≠ [] :=
  alternatives_ne_nil_of_mem (hs.resolve_left hterminal)

namespace Closed

/-! The empty string. -/

theorem symbolEmptiness (hclosed : g.Closed) (guard : SymbolSet) (s : Symbol) :
    g.IsSymbol s → (g.symbolEmptiness guard s).Declared := by
  induction guard, s using guard_induction (g := g) with
  | step guard s ih =>
    intro hs
    rw [Grammar.symbolEmptiness]
    split
    · exact .pure _
    next hterminal =>
    split
    · exact .pure _
    next hguard =>
    refine (Analysis.Declared.lookUp _).bind fun known => ?_
    split
    · exact .pure _
    -- What is left is a declared variable, and its bodies are searched under a larger guard.
    have hrules := hs.alternatives_ne_nil hterminal
    rw [dif_neg hrules]
    have hbodies := Emptiness.ofRules_declared fun r hr t ht =>
      ih hguard hrules t (hclosed r (rules_of_alternatives s r hr) t ht)
    exact hbodies.bind fun _ => .rememberIf_pure _ _ _

theorem sequenceEmptiness (hclosed : g.Closed) (guard : SymbolSet) {symbols : List Symbol}
    (hsymbols : ∀ s ∈ symbols, g.IsSymbol s) : (g.sequenceEmptiness guard symbols).Declared :=
  Emptiness.ofSequence_declared fun s hs => hclosed.symbolEmptiness guard s (hsymbols s hs)

theorem bodyEmptiness (hclosed : g.Closed) (guard : SymbolSet) {r : Rule} (hr : r ∈ g.rules) :
    (g.bodyEmptiness guard r).Declared :=
  Emptiness.ofRule_declared fun s hs => hclosed.symbolEmptiness guard s (hclosed r hr s hs)

theorem symbolCanBeEmpty (hclosed : g.Closed) {s : Symbol} (hs : g.IsSymbol s) :
    (g.symbolCanBeEmpty s).Declared :=
  (hclosed.symbolEmptiness ∅ s hs).bind fun _ => .pure _

theorem sequenceCanBeEmpty (hclosed : g.Closed) {symbols : List Symbol}
    (hsymbols : ∀ s ∈ symbols, g.IsSymbol s) : (g.sequenceCanBeEmpty symbols).Declared :=
  (hclosed.sequenceEmptiness ∅ hsymbols).bind fun _ => .pure _

theorem ruleCanBeEmpty (hclosed : g.Closed) {r : Rule} (hr : r ∈ g.rules) :
    (g.ruleCanBeEmpty r).Declared :=
  (hclosed.bodyEmptiness ∅ hr).bind fun _ => .pure _

/-! The terminals that a sequence begins with. -/

theorem firstVia (hclosed : g.Closed) {start : Symbol → Analysis SymbolSet}
    {symbols : List Symbol} (hsymbols : ∀ s ∈ symbols, g.IsSymbol s)
    (hstart : ∀ s ∈ symbols, ¬g.isTerminal s → (start s).Declared) :
    (g.firstVia start symbols).Declared := by
  induction symbols with
  | nil => exact .pure _
  | cons s rest ih =>
    unfold Grammar.firstVia
    split
    · exact .pure _
    next hterminal =>
    refine (hstart s List.mem_cons_self hterminal).bind fun found => ?_
    split
    · exact .pure _
    refine (hclosed.symbolCanBeEmpty (hsymbols s List.mem_cons_self)).bind fun canBeEmpty => ?_
    split
    · have hrest := ih (fun t ht => hsymbols t (List.mem_cons_of_mem _ ht))
        fun t ht => hstart t (List.mem_cons_of_mem _ ht)
      exact hrest.bind fun _ => .pure _
    · exact .pure _

theorem variableFirst (hclosed : g.Closed) (guard : SymbolSet) (s : Symbol) :
    g.IsSymbol s → ¬g.isTerminal s → (g.variableFirst guard s).Declared := by
  induction guard, s using guard_induction (g := g) with
  | step guard s ih =>
    intro hs hterminal
    rw [Grammar.variableFirst]
    split
    · exact .throw (by simp)
    next hguard =>
    have hrules := hs.alternatives_ne_nil hterminal
    have hbodies : ∀ r ∈ g.alternatives s,
        (g.firstVia (fun t => g.variableFirst (guard.insert s) t) r.body).Declared := by
      intro r hr
      have hbody := hclosed r (rules_of_alternatives s r hr)
      exact hclosed.firstVia hbody fun t ht => ih hguard hrules t (hbody t ht)
    rw [dif_neg hrules]
    refine (Analysis.Declared.lookUp _).bind fun known => ?_
    cases known with
    | some found => exact .pure _
    | none =>
      exact (Analysis.Declared.unionOver hbodies).bind fun _ => .remember_pure _ _

theorem guardedFirst (hclosed : g.Closed) (guard : SymbolSet) {symbols : List Symbol}
    (hsymbols : ∀ s ∈ symbols, g.IsSymbol s) : (g.guardedFirst guard symbols).Declared :=
  hclosed.firstVia hsymbols fun s hs => hclosed.variableFirst guard s (hsymbols s hs)

/-! The terminals that follow a symbol. -/

/-- What stands behind an occurrence is made of symbols of the grammar. -/
theorem isSymbol_of_mem_occurrencesIn (hclosed : g.Closed) {count : Nat} {s : Symbol}
    {o : Occurrence g} (ho : o ∈ g.occurrencesIn count s) : ∀ t ∈ o.rest, g.IsSymbol t := by
  intro t ht
  obtain ⟨before, hbody⟩ := body_of_mem_occurrencesIn ho
  exact hclosed o.rule o.declared t (by simp [hbody, ht])

theorem occurrences_ensures (hclosed : g.Closed) (s : Symbol) {error : GrammarError → Prop} :
    Ensures (fun _ => True) (g.occurrences s)
      (fun os => ∀ o ∈ os, ∀ t ∈ o.rest, g.IsSymbol t) error := by
  unfold Grammar.occurrences
  intro memo _
  rw [Analysis.runFrom_bind_of_ok (Analysis.runFrom_lookUp _ memo)]
  cases memo.scanned[s]? with
  | some count => exact ⟨trivial, fun o ho => hclosed.isSymbol_of_mem_occurrencesIn ho⟩
  | none => exact ⟨trivial, fun o ho => hclosed.isSymbol_of_mem_occurrencesIn ho⟩

theorem followVia (hclosed : g.Closed) {head : Occurrence g → Analysis (Cut SymbolSet)}
    {os : List (Occurrence g)} (hrests : ∀ o ∈ os, ∀ t ∈ o.rest, g.IsSymbol t)
    (hhead : ∀ o, (head o).Declared) : (g.followVia head os).Declared := by
  induction os with
  | nil => exact .pure _
  | cons o os ih =>
    unfold Grammar.followVia
    have hrest := hrests o List.mem_cons_self
    have hothers := ih fun q hq => hrests q (List.mem_cons_of_mem _ hq)
    refine (hclosed.guardedFirst ∅ hrest).bind fun found => ?_
    refine (hclosed.sequenceCanBeEmpty hrest).bind fun canBeEmpty => ?_
    split
    · exact (hhead o).bind fun _ => hothers.bind fun _ => .pure _
    · exact hothers.bind fun _ => .pure _

theorem guardedFollow (hclosed : g.Closed) (guard : SymbolSet) (s : Symbol) :
    (g.guardedFollow guard s).Declared := by
  induction guard, s using follow_induction (g := g) with
  | step guard s ih =>
    rw [Grammar.guardedFollow]
    split
    · exact .pure _
    next hguard =>
    refine (Analysis.Declared.lookUp _).bind fun known => ?_
    split
    · exact .pure _
    refine Ensures.bind (hclosed.occurrences_ensures s) fun os hos => ?_
    have hvia := hclosed.followVia hos fun o => ih hguard o.rule.head (mem_heads o.declared)
    exact hvia.bind fun _ => .rememberIf_pure _ _ _

theorem follow (hclosed : g.Closed) (s : Symbol) : (g.follow s).Declared :=
  (hclosed.guardedFollow ∅ s).bind fun _ => .pure _

/-! What selects rules, and what is built from it. -/

theorem lookahead (hclosed : g.Closed) {r : Rule} (hr : r ∈ g.rules) :
    (g.lookahead r).Declared := by
  unfold Grammar.lookahead
  refine (Analysis.Declared.lookUp _).bind fun known => ?_
  split
  · exact .pure _
  refine (hclosed.guardedFirst ∅ (hclosed r hr)).bind fun found => ?_
  refine (hclosed.ruleCanBeEmpty hr).bind fun canBeEmpty => ?_
  split
  · exact (hclosed.follow r.head).bind fun _ => .remember_pure _ _
  · exact Analysis.Declared.remember_pure _ _

theorem collisionsAmong (hclosed : g.Closed) (owner : Symbol) {rules : List Rule}
    (hrules : ∀ r ∈ rules, r ∈ g.rules) (claims : Claims) :
    (g.collisionsAmong owner rules claims).Declared := by
  induction rules generalizing claims with
  | nil => exact .pure _
  | cons r rest ih =>
    unfold Grammar.collisionsAmong
    refine (hclosed.lookahead (hrules r List.mem_cons_self)).bind fun selected => ?_
    have hlater := ih (fun q hq => hrules q (List.mem_cons_of_mem _ hq)) (claims.add r selected)
    exact hlater.bind fun _ => .pure _

theorem collisions (hclosed : g.Closed) : g.collisions.Declared :=
  (Analysis.Declared.forEach fun v _ =>
    hclosed.collisionsAmong v (rules_of_alternatives v) ∅).bind fun _ => .pure _

theorem checkAmong (hclosed : g.Closed) (owner : Symbol) {rules : List Rule}
    (hrules : ∀ r ∈ rules, r ∈ g.rules) (claims : Claims) :
    (g.checkAmong owner rules claims).Declared := by
  induction rules generalizing claims with
  | nil => exact .pure _
  | cons r rest ih =>
    unfold Grammar.checkAmong
    refine (hclosed.lookahead (hrules r List.mem_cons_self)).bind fun selected => ?_
    split
    · exact .throw (by simp)
    · exact ih (fun q hq => hrules q (List.mem_cons_of_mem _ hq)) (claims.add r selected)

theorem checkVariables (hclosed : g.Closed) (vs : List Symbol) :
    (g.checkVariables vs).Declared := by
  induction vs with
  | nil => exact .pure _
  | cons v rest ih =>
    unfold Grammar.checkVariables
    exact (hclosed.checkAmong v (rules_of_alternatives v) ∅).bind fun _ => ih

theorem isDeterministic (hclosed : g.Closed) : g.isDeterministic.Declared := by
  unfold Grammar.isDeterministic
  have hcheck : Analysis.Declared (do g.requireDeterministic; return true) :=
    (hclosed.checkVariables g.nonterminals).bind fun _ => .pure _
  refine Ensures.tryCatch hcheck fun e he => ?_
  split
  · exact Ensures.pure trivial
  · exact Ensures.throw he

theorem rowOf (hclosed : g.Closed) {rules : List Rule} (hrules : ∀ r ∈ rules, r ∈ g.rules)
    (row : Row) : (g.rowOf rules row).Declared := by
  induction rules generalizing row with
  | nil => exact .pure _
  | cons r rest ih =>
    unfold Grammar.rowOf
    have hr := hrules r List.mem_cons_self
    refine (hclosed.lookahead hr).bind fun selected => ?_
    refine (hclosed.ruleCanBeEmpty hr).bind fun canBeEmpty => ?_
    exact ih (fun q hq => hrules q (List.mem_cons_of_mem _ hq)) _

theorem buildTable (hclosed : g.Closed) : g.buildTable.Declared := by
  unfold Grammar.buildTable
  refine (Analysis.Declared.forEach fun v _ => ?_).bind fun _ => .pure _
  exact (hclosed.rowOf (rules_of_alternatives v) ∅).bind fun _ => .pure _

theorem table (hclosed : g.Closed) : g.table.Declared := by
  unfold Grammar.table
  refine (Analysis.Declared.lookUp _).bind fun known => ?_
  split
  · exact .pure _
  · exact hclosed.buildTable.bind fun _ => Analysis.Declared.remember_pure _ _

theorem runTokens (hclosed : g.Closed) (tokens : List Symbol) :
    (g.runTokens tokens).Declared := by
  unfold Grammar.runTokens
  refine hclosed.table.bind fun table => ?_
  dsimp only
  split
  · exact .pure _
  · exact .throw (by simp)

theorem parseText (hclosed : g.Closed) (text : String) : (g.parseText text).Declared :=
  (hclosed.checkVariables g.nonterminals).bind fun _ => hclosed.runTokens (Text.words text)

end Closed

end Grammar

end Predictive
