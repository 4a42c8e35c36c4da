import Predictive.Proofs.Independence
import Predictive.Proofs.Language
import Predictive.Proofs.Parsing.Position

/-!
# How a parse ends

With a table of its grammar, collisions or not, the parser always comes to an end
(`Grammar.loop_ends`). The parser of a deterministic grammar refuses an input at the earliest
possible token, provided that every variable derives some terminals: what it has read begins a word
of the language, and together with the next token it begins none (`Grammar.refused_at_earliest`).
-/

namespace Predictive

/-- A parser is determined by the grammar that it is exact for. -/
theorem Parser.Exact.unique {g : Grammar} {p q : Parser} (h : p.Exact g) (h' : q.Exact g) :
    p = q := by
  obtain ⟨terminals, table⟩ := p
  obtain ⟨terminals', table'⟩ := q
  obtain rfl : terminals = terminals' := h.terminals.trans h'.terminals.symm
  obtain rfl : table = table' := h.table.unique h'.table
  rfl

namespace Grammar

variable (g : Grammar)

/-! The parser comes to an end. -/

/-- The parser for a table of the grammar. -/
def parserWith (table : Table) : Parser where
  terminals := g.terminals
  table := table

variable {g}

/-- If the table of a grammar can be built, there is no configuration from which its parser goes on
for ever, and for any tokens it ends in the result that the grammar gives, whatever was asked
before. -/
theorem loop_ends {text : String} (hread : ofText text = .ok g) {built : Memo}
    (hbuilt : g.Reachable built) {table : Table}
    (htable : (g.buildTable.runFrom built).1 = .ok table) :
    (WellFounded fun d c => (g.parserWith table).Next c d) ∧
      ∀ tokens, ∃ result, (g.parserWith table).Finishes 1 (.initial g.start tokens) result ∧
        ∀ memo, g.Reachable memo → ((g.runTokens tokens).runFrom memo).1 = .ok result := by
  have wf := wellFormed_ofText hread
  obtain ⟨hgrounded, hexact⟩ := wf.buildTable_ensures.value_of_run (hbuilt.exact wf) htable
  have hparser : (g.parserWith table).Exact g := ⟨rfl, hexact⟩
  refine ⟨hparser.wellFounded_next wf hgrounded, fun tokens => ?_⟩
  obtain ⟨result, hrun, p, hp, hends⟩ :=
    (wf.runTokens_ensures_finishes tokens).exists_value Memo.exact_empty
      fun _ ⟨v, _, hv⟩ => not_leftRecursive_of_bodies hgrounded v hv
  obtain rfl : p = g.parserWith table := hp.unique hparser
  refine ⟨result, hends, fun memo hmemo => ?_⟩
  rw [← hrun]
  exact (wf.runTokens_steady tokens).outcome_eq (hmemo.exact wf) Memo.exact_empty

/-- Two alternatives that begin alike, with variables in front that can be erased. -/
def sharedFront : Grammar :=
  .ofProductions ⟨"S", ["A", "A", "x"]⟩ [⟨"S", ["A", "A", "y"]⟩, ⟨"A", ["a"]⟩, ⟨"A", []⟩]

theorem ofText_sharedFront :
    ofText "S = A A x\nS = A A y\nA = a\nA = EMPTY" = .ok sharedFront := rfl

theorem exists_buildTable_sharedFront :
    ∃ table, (sharedFront.buildTable.runFrom {}).1 = .ok table := by
  have hbuilt : (sharedFront.buildTable.runFrom {}).1.map (fun _ => ()) = .ok () := by cbv
  obtain ⟨table, htable, -⟩ := Analysis.exists_of_map_eq_ok hbuilt
  exact ⟨table, htable⟩

/-- Two alternatives that begin alike, the second with variables at its end that can be erased. -/
def erasedAtEnd : Grammar :=
  .ofProductions ⟨"S", ["a"]⟩ [⟨"S", ["a", "A", "A"]⟩, ⟨"A", []⟩]

theorem ofText_erasedAtEnd : ofText "S = a\nS = a A A\nA = EMPTY" = .ok erasedAtEnd := rfl

theorem exists_buildTable_erasedAtEnd :
    ∃ table, (erasedAtEnd.buildTable.runFrom {}).1 = .ok table := by
  have hbuilt : (erasedAtEnd.buildTable.runFrom {}).1.map (fun _ => ()) = .ok () := by cbv
  obtain ⟨table, htable, -⟩ := Analysis.exists_of_map_eq_ok hbuilt
  exact ⟨table, htable⟩

/-- The second alternative has replaced the first, and both variables behind its terminal are
expanded at the end of the input, which is accepted then. -/
theorem loop_ends_of_erasedAtEnd :
    ofText "S = a\nS = a A A\nA = EMPTY" = .ok erasedAtEnd ∧
      ∃ table, (erasedAtEnd.buildTable.runFrom {}).1 = .ok table ∧
        (WellFounded fun d c => (erasedAtEnd.parserWith table).Next c d) ∧
        ∃ result, (erasedAtEnd.parserWith table).Finishes 1 (.initial "S" ["a"]) result ∧
          ((erasedAtEnd.runTokens ["a"]).runFrom (erasedAtEnd.collisions.runFrom {}).2).1 =
            .ok result ∧
          result.trace.map (fun step => (step.action, step.input)) =
            [(.expanded, ["a"]), (.matched, ["a"]), (.expanded, []), (.expanded, []),
              (.accepted, [])] := by
  obtain ⟨table, htable⟩ := exists_buildTable_erasedAtEnd
  obtain ⟨hloop, hends⟩ := loop_ends ofText_erasedAtEnd .new htable
  obtain ⟨result, hends, hrun⟩ := hends ["a"]
  have hsteps : ((erasedAtEnd.runTokens ["a"]).runFrom {}).1.map
      (fun result => result.trace.map fun step => (step.action, step.input)) =
        .ok [(.expanded, ["a"]), (.matched, ["a"]), (.expanded, []), (.expanded, []),
          (.accepted, [])] := by
    cbv
  rw [hrun _ .new] at hsteps
  exact ⟨ofText_erasedAtEnd, table, htable, hloop, result, hends,
    hrun _ (.ask .new .collisions), Except.ok.inj hsteps⟩

/-! The parser refuses an input at the earliest possible token. -/

variable (g)

/-- Every variable derives some terminals, or the empty string. -/
def Productive : Prop :=
  ∀ v ∈ g.nonterminals, ∃ word, g.Derives [v] word ∧ ∀ t ∈ word, g.isTerminal t

/-- The tokens are first wrong at the position: those before it begin a word of the language, and
with the token there they begin none. All of them may be right, but more would have to come. -/
structure FirstWrongAt (tokens : List Symbol) (position : Nat) : Prop where
  within : position ≤ tokens.length
  right_before : ∃ rest, g.Language (tokens.take position ++ rest)
  wrong : position < tokens.length → ∀ rest, ¬g.Language (tokens.take (position + 1) ++ rest)
  incomplete : position = tokens.length → ¬g.Language tokens

variable {g}

/-- If every variable derives some terminals, every form does. -/
theorem Productive.exists_word (h : g.Productive) {form : List Symbol}
    (hform : ∀ s ∈ form, g.IsSymbol s) :
    ∃ word, g.Derives form word ∧ ∀ t ∈ word, g.isTerminal t := by
  induction form with
  | nil => exact ⟨[], .refl [], by simp⟩
  | cons s form ih =>
    obtain ⟨rest, hrest, hterminals⟩ := ih fun t ht => hform t (List.mem_cons_of_mem _ ht)
    obtain ⟨front, hfront, hfrontTerminals⟩ :
        ∃ word, g.Derives [s] word ∧ ∀ t ∈ word, g.isTerminal t := by
      rcases hform s List.mem_cons_self with hs | hs
      · exact ⟨[s], .refl [s], by simpa using hs⟩
      · exact h s hs
    refine ⟨front ++ rest, hfront.append hrest, fun t ht => ?_⟩
    exact (List.mem_append.1 ht).elim (hfrontTerminals t) (hterminals t)

/-- What begins a form of the start symbol begins a word of the language, if it holds no variable
itself. -/
theorem Productive.exists_language (h : g.Productive) (wf : g.WellFormed)
    {tokens stack : List Symbol} (htokens : ∀ t ∈ tokens, t ∉ g.nonterminals)
    (hform : g.Derives [g.start] (tokens ++ stack)) : ∃ rest, g.Language (tokens ++ rest) := by
  have hsymbols := wf.isSymbol_of_derives_start hform
  obtain ⟨rest, hrest, hterminals⟩ :=
    h.exists_word fun s hs => hsymbols s (List.mem_append_right _ hs)
  refine ⟨rest, hform.trans ((Derives.refl tokens).append hrest), fun t ht => ?_⟩
  rcases List.mem_append.1 ht with ht | ht
  · exact (hsymbols t (List.mem_append_left _ ht)).resolve_right (htokens t ht)
  · exact hterminals t ht

/-- Tokens are first wrong behind those that begin a word, if no word goes on with the next token
or, where there is none, ends there. -/
theorem firstWrongAt_append {read rest : List Symbol} (hright : ∃ more, g.Language (read ++ more))
    (hwrong : ∀ other, other.head? = rest.head? → ¬g.Language (read ++ other)) :
    g.FirstWrongAt (read ++ rest) read.length where
  within := by
    rw [List.length_append]
    omega
  right_before := by
    rw [List.take_left]
    exact hright
  wrong := by
    intro hmore other
    cases rest with
    | nil => simp at hmore
    | cons t rest =>
      have htake : (read ++ t :: rest).take (read.length + 1) = read ++ [t] := by
        simp [List.take_append]
      rw [htake, List.append_assoc]
      exact hwrong (t :: other) rfl
  incomplete := fun _ => hwrong rest rfl

/-- Words of the language are read from the beginning. -/
theorem WellFormed.readable_of_language (wf : g.WellFormed) {tokens : List Symbol}
    (h : g.Language tokens) : (Config.initial g.start tokens).Readable g :=
  (wf.reads_start_iff fun t ht => wf.not_mem_nonterminals (h.2 t ht)).2 h.1

/-- Once a grammar in which every variable derives some terminals has passed the check of
determinism, tokens that are no variables are refused at the position where they are first wrong,
whatever was asked before. -/
theorem refused_at_earliest {text : String} (hread : ofText text = .ok g) {checked memo : Memo}
    (hchecked : g.Reachable checked) (hcheck : (g.requireDeterministic.runFrom checked).1 = .ok ())
    (hmemo : g.Reachable memo) (hproductive : g.Productive) {tokens : List Symbol}
    (htokens : ∀ t ∈ tokens, t ∉ g.nonterminals) :
    ∃ result, ((g.runTokens tokens).runFrom memo).1 = .ok result ∧ (result.success = false →
      ∃ position : Nat, result.errorPosition = position ∧ g.FirstWrongAt tokens position) := by
  have wf := wellFormed_ofText hread
  have hdet := hchecked.deterministic wf hcheck
  obtain ⟨result, hrun, p, hparser, hends⟩ :=
    (wf.runTokens_ensures_finishes tokens).exists_value (hmemo.exact wf)
      fun _ ⟨v, _, hv⟩ => hdet.not_leftRecursive v hv
  refine ⟨result, hrun, fun hrefused => ?_⟩
  obtain ⟨read, rest, hrest, hposition, ⟨stack, hform⟩, hwrong⟩ :=
    hparser.refused_at_first wf hdet hends viable_start hrefused
  obtain rfl : tokens = read ++ rest := hrest
  have hplain : ∀ t ∈ read, t ∉ g.nonterminals :=
    fun t ht => htokens t (List.mem_append_left rest ht)
  have hlanguage : ∀ other, other.head? = rest.head? → ¬g.Language (read ++ other) :=
    fun other hother hword => hwrong other hother (wf.readable_of_language hword)
  refine ⟨read.length, by simpa [Config.initial] using hposition, ?_⟩
  exact firstWrongAt_append (hproductive.exists_language wf hplain hform) hlanguage

theorem productive_listBeforeEnd : listBeforeEnd.Productive := by
  have hempty : listBeforeEnd.Derives ["A"] [] :=
    @Derives.ofRule listBeforeEnd ⟨⟨"A", []⟩, "A", 2⟩ (by decide)
  have hend : listBeforeEnd.Derives ["S"] ["A", "b"] :=
    @Derives.ofRule listBeforeEnd ⟨⟨"S", ["A", "b"]⟩, "S", 0⟩ (by decide)
  have hvariables : listBeforeEnd.nonterminals = ["S", "A"] := by decide
  intro v hv
  rw [hvariables] at hv
  rcases List.mem_pair.1 hv with rfl | rfl
  · exact ⟨["b"], hend.trans (hempty.append (.refl ["b"])), by decide⟩
  · exact ⟨[], hempty, by simp⟩

/-- A token that is no symbol of the grammar is refused where it stands or before. -/
theorem refused_at_earliest_of_listBeforeEnd :
    ofText "S = A b\nA = a A\nA = EMPTY" = .ok listBeforeEnd ∧
      (listBeforeEnd.requireDeterministic.runFrom {}).1 = .ok () ∧ listBeforeEnd.Productive ∧
      (∀ t ∈ ["a", "c"], t ∉ listBeforeEnd.nonterminals) ∧
      ∃ result, ((listBeforeEnd.runTokens ["a", "c"]).runFrom {}).1 = .ok result ∧
        ∃ position : Nat, result.errorPosition = position ∧
          listBeforeEnd.FirstWrongAt ["a", "c"] position := by
  have htokens : ∀ t ∈ ["a", "c"], t ∉ listBeforeEnd.nonterminals := by decide
  refine ⟨ofText_listBeforeEnd, requireDeterministic_listBeforeEnd, productive_listBeforeEnd,
    htokens, ?_⟩
  obtain ⟨result, hrun, hrefused⟩ := refused_at_earliest ofText_listBeforeEnd .new
    requireDeterministic_listBeforeEnd .new productive_listBeforeEnd htokens
  have wf := wellFormed_ofText ofText_listBeforeEnd
  have hdet := Reachable.new.deterministic wf requireDeterministic_listBeforeEnd
  have hnone : ¬listBeforeEnd.IsSymbol "c" := not_or_intro (by decide) (by decide)
  have hsuccess : result.success = false := by
    obtain ⟨_, hrun', hiff⟩ := wf.exists_result_runTokens hdet Memo.exact_empty ["a", "c"]
    obtain rfl := Except.ok.inj (hrun.symm.trans hrun')
    refine Bool.eq_false_iff.2 fun hsuccess => hnone ?_
    exact wf.isSymbol_of_derives_start (hiff.1 hsuccess).2.derives "c" (by simp)
  exact ⟨result, hrun, hrefused hsuccess⟩

end Grammar

end Predictive
