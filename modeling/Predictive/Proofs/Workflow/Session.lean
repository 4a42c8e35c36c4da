import Predictive.Proofs.Independence
import Predictive.Workflow.Encoding

/-!
# What an analysis leaves to the parser

An analysis of a text fails where the text declares no rule or a variable is left recursive, and
nowhere else: once the sets have been found, the documents can be written as well
(`Workflow.analyzesTo_analyze`). The session that it leaves holds the grammar of the text, all that
is remembered of it is true and no variable is left recursive. So the grammar has an answer to every
input, a collision or a verdict (`Workflow.exists_answer`), and it does not depend on what was
parsed before.
-/

namespace Predictive

open Analysis (Ensures)

/-! The parts of an analysis. -/

namespace Grammar

variable {g : Grammar}

/-- The sets are found unless a variable is left recursive, and the collisions among them are none
just for deterministic grammars. -/
theorem WellFormed.sets_ensures (wf : g.WellFormed) :
    Ensures (Memo.Exact g) (GrammarSets.ofGrammar g)
      (fun sets => (∀ v, ¬g.LeftRecursive v) ∧ (sets.collisions = [] ↔ g.Deterministic))
      g.IsLeftRecursion := by
  unfold GrammarSets.ofGrammar
  refine wf.allFirst_ensures.bind fun first _ => ?_
  refine wf.allFollow_ensures.bind fun follow _ => ?_
  refine wf.allLookahead_ensures.bind fun lookahead _ => ?_
  refine wf.collisions_ensures.bind fun collisions hcollisions => .pure ⟨?_, ?_⟩
  · exact not_leftRecursive_of_bodies hcollisions.1
  · exact wf.collisions_eq_nil_iff hcollisions

theorem WellFormed.tablePage_ensures (wf : g.WellFormed) (config : RenderConfig) :
    Ensures (Memo.Exact g) (TablePage.html config g) (fun _ => True) g.IsLeftRecursion :=
  wf.table_ensures.bind fun _ _ => .pure trivial

theorem WellFormed.setsPage_ensures (wf : g.WellFormed) (config : RenderConfig) :
    Ensures (Memo.Exact g) (SetsPage.html config g) (fun _ => True) g.IsLeftRecursion := by
  have hempties : Ensures (Memo.Exact g) (Analysis.forEach g.symbolCanBeEmpty g.nonterminals)
      (List.Forall₂ (fun v b => b = true ↔ g.Derives [v] []) g.nonterminals) g.IsLeftRecursion := by
    refine Ensures.forEach fun v hv => (wf.symbolCanBeEmpty_ensures v).mono_error fun e he => ?_
    exact absurd (.inr hv) he.2
  have hentries : Ensures (Memo.Exact g) (SetsPage.entries g) (fun _ => True) g.IsLeftRecursion :=
    wf.allFirst_ensures.bind fun _ _ => wf.allFollow_ensures.bind fun _ _ =>
      hempties.bind fun _ _ => .pure trivial
  exact hentries.bind fun _ _ => wf.allLookahead_ensures.bind fun _ _ => .pure trivial

/-- The report is about the sets that were found. -/
theorem WellFormed.report_ensures (wf : g.WellFormed) (sets : GrammarSets) :
    Ensures (Memo.Exact g) (GrammarReport.ofSets g sets)
      (fun report => report.toGrammarSets = sets) g.IsLeftRecursion :=
  (wf.tablePage_ensures {}).bind fun _ _ => (wf.setsPage_ensures {}).bind fun _ _ => .pure rfl

end Grammar

/-! Sessions. -/

namespace Session

/-- A session ends an analysis with a value or an error, and all that it remembers stays true. -/
theorem run_cases {α : Type} (s : Session) (analysis : Grammar → Analysis α)
    {value : α → Prop} {error : GrammarError → Prop}
    (h : Ensures (Memo.Exact s.grammar) (analysis s.grammar) value error)
    (hs : s.memo.Exact s.grammar) :
    ∃ memo : Memo, memo.Exact s.grammar ∧
      ((∃ a, s.run analysis = (.ok a, { s with memo := memo }) ∧ value a) ∨
        ∃ e, s.run analysis = (.error e, { s with memo := memo }) ∧ error e) := by
  obtain ⟨hexact, houtcome⟩ := h s.memo hs
  rcases hrun : (analysis s.grammar).runFrom s.memo with ⟨outcome, memo⟩
  rw [hrun] at hexact houtcome
  refine ⟨memo, hexact, ?_⟩
  cases outcome with
  | ok a => exact .inl ⟨a, by rw [run, hrun], houtcome⟩
  | error e => exact .inr ⟨e, by rw [run, hrun], houtcome⟩

/-- The session is what an analysis of the text has left, with this report. -/
structure IsOf (s : Session) (text : String) (report : GrammarReport) : Prop where
  read : Grammar.ofText text = .ok s.grammar
  exact : s.memo.Exact s.grammar
  grounded : ∀ v, ¬s.grammar.LeftRecursive v
  deterministic_iff : report.deterministic = true ↔ s.grammar.Deterministic

/-- How parsing an input ends does not depend on what is remembered. -/
theorem IsOf.outcome_eq {s : Session} {text : String} {report : GrammarReport}
    (h : s.IsOf text report) (input : String) :
    ((s.grammar.parseText input).runFrom s.memo).1 =
      ((s.grammar.parseText input).runFrom {}).1 := by
  have wf := Grammar.wellFormed_ofText h.read
  exact (wf.parseText_steady input).outcome_eq h.exact Memo.exact_empty

end Session

namespace Workflow

/-- How an analysis can end: the text declares nothing, a variable is left recursive, or there is a
report. -/
inductive AnalyzesTo (w : Workflow) : Except GrammarError AnalysisAnswer × Workflow → Prop where
  | noRules (empty : Production.readAll w.text = []) :
      AnalyzesTo w (.ok (.failure .noRules), { w with session := none })
  | leftRecursion {g : Grammar} (read : Grammar.ofText w.text = .ok g) {v : Symbol}
      (recursive : g.LeftRecursive v) :
      AnalyzesTo w (.ok (.failure (.leftRecursion v)), { w with session := none })
  | report {s : Session} {report : GrammarReport} (of : s.IsOf w.text report) :
      AnalyzesTo w (.ok (.report report), { w with session := some s, stage := .analyzed })

theorem analyzesTo_analyze (w : Workflow) : w.AnalyzesTo w.analyze := by
  cases hread : Grammar.ofText w.text with
  | error e =>
    obtain ⟨rfl, hempty⟩ := Grammar.ofText_eq_error_iff.1 hread
    simp only [analyze, hread]
    exact .noRules hempty
  | ok g =>
    have wf := Grammar.wellFormed_ofText hread
    obtain ⟨found, hfound, ⟨sets, hrun, hgrounded, hcollisions⟩ | ⟨e, hrun, v, rfl, hv⟩⟩ :=
      Session.run_cases { grammar := g } GrammarSets.ofGrammar wf.sets_ensures Memo.exact_empty
    · obtain ⟨written, hwritten, ⟨report, hreport, hsame⟩ | ⟨e, -, v, -, hv⟩⟩ :=
        Session.run_cases { grammar := g, memo := found } (GrammarReport.ofSets · sets)
          (wf.report_ensures sets) hfound
      · simp only [analyze, hread, hrun, hreport]
        refine .report ⟨hread, hwritten, hgrounded, ?_⟩
        rw [GrammarReport.deterministic, hsame, List.isEmpty_iff, hcollisions]
      · -- A left recursion has already stopped the search for the sets.
        exact absurd hv (hgrounded v)
    · simp only [analyze, hread, hrun]
      exact .leftRecursion hread hv

end Workflow

/-! Inputs. -/

/-- The answer to an input, from how parsing it ended. -/
def InputAnswer.ofOutcome (input : String) :
    Except GrammarError ParseOutcome → Except GrammarError InputAnswer
  | .ok result => .ok (.parsed input result)
  | .error (.collision c) => .ok (.collision c)
  | .error e => .error e

namespace Grammar

variable {g : Grammar}

variable (g) in
/-- What a grammar may be said to answer to an input: a deterministic one its verdict, any other a
collision. -/
inductive Answers (input : String) : InputAnswer → Prop where
  | parsed {result : ParseOutcome} (deterministic : g.Deterministic)
      (accepts : ((g.accepts input).runFrom {}).1 = .ok result.success) :
      Answers input (.parsed input result)
  | collision {c : Collision} (colliding : ¬g.Deterministic) : Answers input (.collision c)

/-- A text is accepted if its result is a success. -/
theorem accepts_of_parseText {input : String} {memo : Memo} {result : ParseOutcome}
    (h : ((g.parseText input).runFrom memo).1 = .ok result) :
    ((g.accepts input).runFrom memo).1 = .ok result.success := by
  rcases hrun : (g.parseText input).runFrom memo with ⟨outcome, after⟩
  obtain rfl : outcome = .ok result := by rw [← h, hrun]
  rw [accepts, Analysis.runFrom_bind_of_ok hrun]
  rfl

/-- Where no variable is left recursive, there is an answer to every input. -/
theorem WellFormed.exists_answers (wf : g.WellFormed) (hgrounded : ∀ v, ¬g.LeftRecursive v)
    (input : String) :
    ∃ answer, InputAnswer.ofOutcome input ((g.parseText input).runFrom {}).1 = .ok answer ∧
      g.Answers input answer := by
  have houtcome := (wf.parseText_ensures input {} Memo.exact_empty).2
  cases hrun : ((g.parseText input).runFrom {}).1 with
  | ok result =>
    rw [hrun] at houtcome
    exact ⟨_, rfl, .parsed houtcome.1 (accepts_of_parseText hrun)⟩
  | error e =>
    rw [hrun] at houtcome
    obtain ⟨v, rfl, hv⟩ | ⟨c, rfl, -, hc⟩ := houtcome
    · exact absurd hv (hgrounded v)
    · exact ⟨_, rfl, .collision fun hdet => hdet.not_among wf hc⟩

end Grammar

namespace Workflow

variable {w : Workflow} {s : Session} {text : String} {report : GrammarReport}

/-- After an analysis, an input is given to its grammar. -/
theorem parse_eq (hstage : w.stage = .analyzed) (hsession : w.session = some s) (input : String) :
    w.parse input =
      (InputAnswer.ofOutcome input ((s.grammar.parseText input).runFrom s.memo).1,
        { w with session := some { s with
            memo := ((s.grammar.parseText input).runFrom s.memo).2 } }) := by
  simp only [parse, hstage, hsession, Session.run]
  rcases (s.grammar.parseText input).runFrom s.memo with ⟨outcome, memo⟩
  cases outcome with
  | ok result => rfl
  | error e => cases e <;> rfl

/-- Without a session no input is parsed. -/
theorem parse_of_session_eq_none (h : w.session = none) (input : String) :
    w.parse input = (.ok .notAnalyzed, w) := by
  unfold parse
  rw [h]
  cases w.stage <;> rfl

/-- Every input has its answer, and the session is still what the analysis of the text has left. -/
theorem exists_answer (w : Workflow) (hstage : w.stage = .analyzed)
    (hsession : w.session = some s) (hs : s.IsOf text report) (input : String) :
    ∃ answer t, w.parse input = (.ok answer, { w with session := some t }) ∧
      t.IsOf text report ∧ s.grammar.Answers input answer := by
  have wf := Grammar.wellFormed_ofText hs.read
  obtain ⟨answer, hnew, hanswers⟩ := wf.exists_answers hs.grounded input
  have hexact := (wf.parseText_ensures input s.memo hs.exact).1
  rw [parse_eq hstage hsession, hs.outcome_eq, hnew]
  exact ⟨answer, _, rfl, ⟨hs.read, hexact, hs.grounded, hs.deterministic_iff⟩, hanswers⟩

/-- A text whose grammar is without left recursion is analysed. -/
theorem exists_isOf_analyze {g : Grammar} (hread : Grammar.ofText text = .ok g)
    (hgrounded : ∀ v, ¬g.LeftRecursive v) :
    ∃ (s : Session) (report : GrammarReport), s.IsOf text report ∧
      (ofText text).analyze.2 = { text := text, session := some s, stage := .analyzed } := by
  have hend := (ofText text).analyzesTo_analyze
  generalize (ofText text).analyze = result at hend ⊢
  cases hend with
  | noRules empty =>
    have herror := Grammar.ofText_eq_error_iff.2 ⟨rfl, empty⟩
    cases herror.symm.trans hread
  | leftRecursion read recursive =>
    obtain rfl := Except.ok.inj (read.symm.trans hread)
    exact absurd recursive (hgrounded _)
  | report of => exact ⟨_, _, of, rfl⟩

end Workflow

end Predictive
