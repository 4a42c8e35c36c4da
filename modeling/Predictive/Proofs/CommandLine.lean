import Predictive.CommandLine
import Predictive.Proofs.Grammar.Rereading
import Predictive.Proofs.Language
import Predictive.Proofs.Independence
import Predictive.Proofs.Render.Listing

/-!
# The output of the program is never partial

An error after the check would escape when a part of the output is already printed. There is none: a
grammar that has passed the check has no left-recursive variable, so all its sets are found and
every input gets a verdict (`CommandLine.report_eq`). Every other grammar is refused with a message
of one line, because all that it names was read from lines (`CommandLine.Fails.exists_says`).

What is printed is stated line by line in the words that are printed, and not by the functions that
print it. The outcome for any two files that hold texts is whole in this sense
(`CommandLine.run_whole`).
-/

namespace Predictive

open Analysis (Ensures)

/-- The text has no line feed. -/
def OneLine (text : String) : Prop :=
  '\n' ∉ text.toList

instance (text : String) : Decidable (OneLine text) :=
  inferInstanceAs (Decidable ('\n' ∉ text.toList))

theorem oneLine_append_iff {front back : String} :
    OneLine (front ++ back) ↔ OneLine front ∧ OneLine back := by
  rw [OneLine, String.toList_append, List.mem_append, not_or]
  rfl

namespace Grammar

variable {g : Grammar}

/-- The rules of a grammar that was read from a text can be declared. -/
theorem declarable_of_mem_rules {text : String} (hread : ofText text = .ok g) {r : Rule}
    (hr : r ∈ g.rules) : r.toProduction.Declarable := by
  unfold ofText at hread
  split at hread
  · cases hread
  · next first others hproductions =>
    cases hread
    exact Production.declarable_of_readAll (hproductions ▸ (mem_rules_ofProductions hr).1)

/-- No symbol of such a grammar is spelled with a line feed. -/
theorem oneLine_symbol {text : String} (hread : ofText text = .ok g) {s : Symbol}
    (hs : g.IsSymbol s) : OneLine s := by
  have wf := wellFormed_ofText hread
  rcases hs with hs | hs
  · obtain ⟨⟨r, hr, hsr⟩, -⟩ := (wf.isTerminal_iff s).1 hs
    intro hnewline
    exact Bool.noConfusion (((declarable_of_mem_rules hread hr).isWord s hsr).2 _ hnewline)
  · obtain ⟨r, hr, rfl⟩ := wf.mem_nonterminals_iff.1 hs
    exact (declarable_of_mem_rules hread hr).newline_not_mem

/-- All that an error of the check names was read from lines of the text. -/
theorem Refutes.oneLine_message {text : String} {e : GrammarError}
    (h : g.Refutes g.nonterminals e) (hread : ofText text = .ok g) : OneLine e.message := by
  rcases h with ⟨v, rfl, hv⟩ | ⟨c, rfl, howner, hc⟩
  · have hvariable := oneLine_symbol hread (.inr (hv.mem_nonterminals (wellFormed_ofText hread)))
    simp +decide only [GrammarError.message, oneLine_append_iff, hvariable]
  · have hrule {r : Rule} (hr : r ∈ g.alternatives c.owner) : OneLine r.text :=
      (declarable_of_mem_rules hread (rules_of_alternatives c.owner r hr)).newline_not_mem_text
    have hvariable := oneLine_symbol hread (.inr howner)
    have hterminal := oneLine_symbol hread (.inl hc.second.isTerminal)
    have hfirst := hrule hc.first.mem
    have hsecond := hrule hc.second_mem
    change OneLine c.message
    unfold Collision.message
    simp +decide only [oneLine_append_iff, hvariable, hterminal, hfirst, hsecond]

end Grammar

namespace CommandLine

open Grammar (ofText)

variable {g : Grammar}

/-- What is printed for a grammar that has passed the check. -/
def reportLines (sets : List String) (accepted : Bool) : List String :=
  ["Grammar is deterministic"] ++ sets ++ [if accepted then "Success" else "Didn\x27t parse"]

theorem printed_reportLines (sets : List String) (accepted : Bool) :
    printed (reportLines sets accepted) = headline ++ printed sets ++ verdict accepted := by
  have hheadline : headline = printed ["Grammar is deterministic"] := by
    simp [headline, printed]
  have hverdict : verdict accepted =
      printed [if accepted then "Success" else "Didn\x27t parse"] := by
    cases accepted <;> simp [verdict, printed]
  rw [reportLines, printed_append, printed_append, hheadline, hverdict]

/-- A grammar that has passed the check is reported on in full. -/
theorem report_eq (wf : g.WellFormed) (hdet : g.Deterministic) {memo : Memo}
    (hmemo : memo.Exact g) (input : String) :
    ∃ sets accepted, ListsSets g sets ∧
      (∀ other, g.Reachable other → ((g.accepts input).runFrom other).1 = .ok accepted) ∧
      report g memo input =
        { status := 0, output := printed (reportLines sets accepted) } := by
  obtain ⟨_, hsets, sets, hlists, rfl⟩ :=
    (SetsPage.text_ensures wf).exists_value hmemo hdet.not_isLeftRecursion
  have hlisted := (SetsPage.text_ensures wf memo hmemo).1
  obtain ⟨accepted, haccepted, -⟩ := wf.exists_verdict_accepts hdet hlisted input
  refine ⟨sets, accepted, hlists, fun other hother => ?_, ?_⟩
  · have hsame := (wf.accepts_steady input).outcome_eq (hother.exact wf) hlisted
    exact hsame.trans haccepted
  · rcases hrun : (SetsPage.text g).runFrom memo with ⟨outcome, listed⟩
    rw [hrun] at hsets haccepted
    dsimp only at hsets haccepted
    subst hsets
    rcases hparse : (g.accepts input).runFrom listed with ⟨outcome, parsed⟩
    rw [hparse] at haccepted
    dsimp only at haccepted
    subst haccepted
    simp only [report, hrun, hparse, printed_reportLines]

/-- The text declares the grammar, which passes the check of determinism. -/
def Passes (grammarText : String) (g : Grammar) : Prop :=
  ofText grammarText = .ok g ∧ (g.requireDeterministic.runFrom {}).1 = .ok ()

/-- The text declares nothing, or the check of determinism stops at the error. -/
def Fails (grammarText : String) (e : GrammarError) : Prop :=
  ofText grammarText = .error e ∨
    ∃ g, ofText grammarText = .ok g ∧ (g.requireDeterministic.runFrom {}).1 = .error e

/-- A text that fails does not pass. -/
theorem Fails.not_passes {grammarText : String} {e : GrammarError} (h : Fails grammarText e)
    (g : Grammar) : ¬Passes grammarText g := by
  rintro ⟨hread, hcheck⟩
  rcases h with herror | ⟨g', hread', herror⟩
  · rw [hread] at herror
    cases herror
  · rw [hread] at hread'
    obtain rfl := Except.ok.inj hread'
    rw [hcheck] at herror
    cases herror

/-- The message of an error is written in one line. -/
theorem Fails.oneLine_message {grammarText : String} {e : GrammarError}
    (h : Fails grammarText e) : OneLine e.message := by
  rcases h with herror | ⟨g, hread, herror⟩
  · obtain ⟨rfl, -⟩ := Grammar.ofText_eq_error_iff.1 herror
    decide
  · have wf := Grammar.wellFormed_ofText hread
    have hrefutes := wf.requireDeterministic_ensures.error_of_run Memo.exact_empty herror
    exact hrefutes.oneLine_message hread

/-- What is said of an error of the check, by its cause. -/
inductive Says : GrammarError → String → Prop where
  | noRules : Says .noRules "Grammar error [no_rules]: No rules found in this grammar"
  | leftRecursion (v : Symbol) : Says (.leftRecursion v)
      ("Grammar error [left_recursion]: Variable " ++ v ++ " is left recursive")
  | collision (v t : Symbol) (first second : Rule) : Says (.collision ⟨v, t, first, second⟩)
      ("There is a collision on variable " ++ v ++ ": \x27" ++ t ++ "\x27 selects both [" ++
        first.inPrint ++ "] and [" ++ second.inPrint ++ "], so this grammar is not deterministic")

/-- What is printed about an error is what is said of it, in a single line. -/
theorem Fails.exists_says {grammarText : String} {e : GrammarError} (h : Fails grammarText e) :
    ∃ line, Says e line ∧ OneLine line ∧ complaint e = line ++ "\n" := by
  have hmessage := h.oneLine_message
  rcases h with herror | ⟨g, hread, herror⟩
  · obtain ⟨rfl, -⟩ := Grammar.ofText_eq_error_iff.1 herror
    exact ⟨_, .noRules, by decide, rfl⟩
  · have wf := Grammar.wellFormed_ofText hread
    rcases wf.requireDeterministic_ensures.error_of_run Memo.exact_empty herror with
      ⟨v, rfl, -⟩ | ⟨c, rfl, -, -⟩
    · have hopening : "Grammar error [left_recursion]: Variable " =
          "Grammar error [" ++ "left_recursion" ++ "]: " ++ "Variable " := rfl
      refine ⟨_, .leftRecursion v, ?_, ?_⟩
      · simpa +decide only [GrammarError.message, oneLine_append_iff] using hmessage
      · rw [hopening]
        simp only [complaint, GrammarError.code, GrammarError.message, String.append_assoc]
    · have hclosing : "], so this grammar is not deterministic" =
          "]" ++ ", so this grammar is not deterministic" := rfl
      have hline : "There is a collision on variable " ++ c.owner ++ ": \x27" ++ c.symbol ++
          "\x27 selects both [" ++ c.first.inPrint ++ "] and [" ++ c.second.inPrint ++
          "], so this grammar is not deterministic" = c.notDeterministic := by
        unfold Collision.notDeterministic Collision.message
        rw [hclosing, ← Rule.text_eq_inPrint, ← Rule.text_eq_inPrint, ← String.append_assoc]
      refine ⟨_, .collision c.owner c.symbol c.first c.second, ?_, ?_⟩
      · rw [hline]
        exact oneLine_append_iff.2 ⟨hmessage, by decide⟩
      · rw [hline]
        rfl

/-- A text passes with its grammar, and the memory after the check is exact for it, or it fails. -/
theorem checked_cases (grammarText : String) :
    (∃ g memo, checked grammarText = .ok (g, memo) ∧ Passes grammarText g ∧ memo.Exact g) ∨
      ∃ e, checked grammarText = .error e ∧ Fails grammarText e := by
  simp only [checked]
  cases hread : ofText grammarText with
  | error e => exact .inr ⟨e, rfl, .inl hread⟩
  | ok g =>
    have wf := Grammar.wellFormed_ofText hread
    have hmemo := (wf.requireDeterministic_ensures {} Memo.exact_empty).1
    rcases hrun : g.requireDeterministic.runFrom {} with ⟨outcome, memo⟩
    rw [hrun] at hmemo
    simp only [bind, Except.bind, hrun]
    cases outcome with
    | ok _ => exact .inl ⟨g, memo, rfl, ⟨hread, by rw [hrun]⟩, hmemo⟩
    | error e => exact .inr ⟨e, rfl, .inr ⟨g, hread, by rw [hrun]⟩⟩

/-- The outcome is whole: what is printed is the full report on a grammar that passes the check, or
nothing but one line about the error that it fails with. -/
structure Outcome.Whole (grammarText input : String) (outcome : Outcome) : Prop where
  not_escaped : outcome.escaped = none
  status_eq_zero_iff : outcome.status = 0 ↔ ∃ g, Passes grammarText g
  passed : ∀ g, Passes grammarText g → ∃ sets accepted, ListsSets g sets ∧
    (∀ memo, g.Reachable memo → ((g.accepts input).runFrom memo).1 = .ok accepted) ∧
    outcome = { status := 0, output := printed (reportLines sets accepted) }
  refused : (¬∃ g, Passes grammarText g) → ∃ e line, Fails grammarText e ∧ Says e line ∧
    OneLine line ∧ outcome = { status := 1, errors := line ++ "\n" }

/-- The outcome for two texts is whole. -/
theorem whole_check (grammarText input : String) :
    (check grammarText input).Whole grammarText input := by
  rcases checked_cases grammarText with
    ⟨g, memo, hchecked, hpasses, hmemo⟩ | ⟨e, hchecked, hfails⟩
  · have wf := Grammar.wellFormed_ofText hpasses.1
    have hdet := Grammar.Reachable.new.deterministic wf hpasses.2
    obtain ⟨sets, accepted, hsets, haccepted, hreport⟩ := report_eq wf hdet hmemo input
    simp only [check, hchecked, hreport]
    constructor
    case not_escaped => rfl
    case status_eq_zero_iff => exact iff_of_true rfl ⟨g, hpasses⟩
    case passed =>
      intro g' hpasses'
      obtain rfl := Except.ok.inj (hpasses.1.symm.trans hpasses'.1)
      exact ⟨sets, accepted, hsets, haccepted, rfl⟩
    case refused => exact fun hnone => absurd ⟨g, hpasses⟩ hnone
  · simp only [check, hchecked]
    constructor
    case not_escaped => rfl
    case status_eq_zero_iff =>
      exact iff_of_false nofun fun ⟨g, hpasses⟩ => hfails.not_passes g hpasses
    case passed => exact fun g hpasses => absurd hpasses (hfails.not_passes g)
    case refused =>
      intro
      obtain ⟨line, hsays, hline, hcomplaint⟩ := hfails.exists_says
      exact ⟨e, line, hfails, hsays, hline, by rw [hcomplaint]⟩

/-- The second text is the first with every line end made a line feed: a carriage return with a line
feed behind it, and a carriage return alone. -/
inductive UniformLines : List Char → List Char → Prop where
  | nil : UniformLines [] []
  | both {raw text : List Char} (rest : UniformLines raw text) :
      UniformLines ('\r' :: '\n' :: raw) ('\n' :: text)
  | alone {raw text : List Char} (next : raw.head? ≠ some '\n') (rest : UniformLines raw text) :
      UniformLines ('\r' :: raw) ('\n' :: text)
  | other {c : Char} {raw text : List Char} (ne : c ≠ '\r') (rest : UniformLines raw text) :
      UniformLines (c :: raw) (c :: text)

theorem uniformLines_iff {raw text : List Char} :
    UniformLines raw text ↔ uniformLines raw = text := by
  constructor
  · intro h
    induction h with
    | nil => rfl
    | both _ ih => rw [uniformLines, ih]
    | @alone raw text next _ ih =>
      rw [uniformLines, ih]
      rintro rest rfl
      exact next rfl
    | other ne _ ih =>
      rw [uniformLines, ih]
      · rintro rest rfl
        exact absurd rfl ne
      · exact ne
  · rintro rfl
    fun_induction uniformLines raw with
    | case1 rest ih => exact .both ih
    | case2 rest hrest ih =>
      refine .alone ?_ ih
      intro hnext
      cases rest with
      | nil => cases hnext
      | cons c rest => exact hrest rest (by rw [Option.some.inj hnext])
    | case3 c rest hc hc' ih => exact .other hc' ih
    | case4 => exact .nil

theorem UniformLines.eq_of_uniformLines {raw text wanted : String}
    (h : UniformLines raw.toList text.toList) (hwanted : uniformLines raw.toList = wanted.toList) :
    text = wanted := by
  rw [uniformLines_iff, hwanted, String.toList_inj] at h
  exact h.symm

/-- A file can be used if it is written in UTF-8; its line ends are made uniform. -/
theorem exists_readText {bytes : ByteArray} {raw : String}
    (h : String.fromUTF8? bytes = some raw) :
    ∃ text, readText (some bytes) = .ok text ∧ UniformLines raw.toList text.toList := by
  refine ⟨String.ofList (uniformLines raw.toList), by simp only [readText, h], ?_⟩
  rw [String.toList_ofList, uniformLines_iff]

/-- Two files that hold texts have an outcome, and it is whole for the texts with uniform lines. -/
theorem run_whole {grammarBytes inputBytes : ByteArray} {grammarRaw inputRaw : String}
    (hgrammar : String.fromUTF8? grammarBytes = some grammarRaw)
    (hinput : String.fromUTF8? inputBytes = some inputRaw) :
    ∃ grammarText input outcome, UniformLines grammarRaw.toList grammarText.toList ∧
      UniformLines inputRaw.toList input.toList ∧
      run [some grammarBytes, some inputBytes] = .ok outcome ∧
      outcome.Whole grammarText input := by
  obtain ⟨grammarText, hgrammarText, hlines⟩ := exists_readText hgrammar
  obtain ⟨input, hinputText, hinputLines⟩ := exists_readText hinput
  refine ⟨grammarText, input, _, hlines, hinputLines, ?_, whole_check grammarText input⟩
  simp only [run, hgrammarText, hinputText]
  rfl

set_option maxRecDepth 4000 in
/-- A grammar that passes the check is reported on in full, with an input of two lines. A grammar
that does not is refused in one line. The files have all three kinds of line ends. -/
theorem run_whole_of_lines :
    (∃ outcome,
      run [some "S = a S\r\nS = EMPTY\n".toUTF8, some "a\ra".toUTF8] = .ok outcome ∧
      outcome.Whole "S = a S\nS = EMPTY\n" "a\na" ∧
      outcome = {
        status := 0
        output :=
          "Grammar is deterministic\n" ++
          "FIRST sets\n" ++
          "  FIRST(S) = \x7b a \x7d\n" ++
          "\n" ++
          "FOLLOW sets\n" ++
          "  FOLLOW(S) = \x7b \x7d\n" ++
          "\n" ++
          "LOOKAHEAD sets\n" ++
          "  LOOKAHEAD(S = a S) = \x7b a \x7d\n" ++
          "  LOOKAHEAD(S = EMPTY) = \x7b \x7d\n" ++
          "Success\n" }) ∧
    ∃ outcome,
      run [some "S = S a".toUTF8, some "a".toUTF8] = .ok outcome ∧
      outcome.Whole "S = S a" "a" ∧
      outcome = {
        status := 1
        errors := "Grammar error [left_recursion]: Variable S is left recursive\n" } := by
  constructor
  · have hgrammar : String.fromUTF8? "S = a S\r\nS = EMPTY\n".toUTF8 =
        some "S = a S\r\nS = EMPTY\n" := by cbv
    have hinput : String.fromUTF8? "a\ra".toUTF8 = some "a\ra" := by cbv
    obtain ⟨grammarText, input, outcome, hlines, hinputLines, hrun, hwhole⟩ :=
      run_whole hgrammar hinput
    obtain rfl : grammarText = "S = a S\nS = EMPTY\n" := hlines.eq_of_uniformLines (by cbv)
    obtain rfl : input = "a\na" := hinputLines.eq_of_uniformLines (by cbv)
    refine ⟨outcome, hrun, hwhole, ?_⟩
    apply Except.ok.inj (hrun.symm.trans _)
    cbv
  · have hgrammar : String.fromUTF8? "S = S a".toUTF8 = some "S = S a" := by cbv
    have hinput : String.fromUTF8? "a".toUTF8 = some "a" := by cbv
    obtain ⟨grammarText, input, outcome, hlines, hinputLines, hrun, hwhole⟩ :=
      run_whole hgrammar hinput
    obtain rfl : grammarText = "S = S a" := hlines.eq_of_uniformLines (by cbv)
    obtain rfl : input = "a" := hinputLines.eq_of_uniformLines (by cbv)
    refine ⟨outcome, hrun, hwhole, ?_⟩
    apply Except.ok.inj (hrun.symm.trans _)
    cbv

end CommandLine

end Predictive
