import Predictive.Proofs.Language
import Predictive.Proofs.Workflow.Session

/-!
# A workflow answers by its last analysis

A workflow in use is told to analyse, to parse and to take another text, in any order. What counts
is the last analysis, and its text is the last one that was assigned before it (`lastText`). Both are
read off the commands and not off the workflow.

The invariant is `HoldsFrom`: after an analysis that failed there is no session, and after one that
succeeded the session is that of its text. An analysis establishes it (`exists_analyze`), and every
other command keeps it (`HoldsFrom.exists_perform`). So no run breaks off, and an input is answered
as by a workflow that has only analysed that text (`Workflow.answered_by_last`).
-/

namespace Predictive

/-- A verdict is a success that says whether the input was accepted. -/
theorem InputAnswer.get?_toJson_parsed (input : String) (result : ParseOutcome) :
    (parsed input result).toJson.get? "success" = some (.bool true) ∧
      (parsed input result).toJson.get? "accepted" = some (.bool result.success) ∧
      (parsed input result).toJson.get? "error_type" = none := by
  simp only [toJson, Json.get?]
  split
  · exact ⟨rfl, rfl, rfl⟩
  · exact ⟨rfl, rfl, rfl⟩

/-- A grammar answers with a verdict or a collision, never that it has not been analysed. -/
theorem Grammar.Answers.ne_workflowError {g : Grammar} {input : String} {answer : InputAnswer}
    (h : g.Answers input answer) :
    answer.toJson.get? "error_type" ≠ some (.string "workflow_error") := by
  cases h with
  | @parsed result =>
    rw [(InputAnswer.get?_toJson_parsed input result).2.2]
    exact nofun
  | @collision c =>
    have hword : (InputAnswer.collision c).toJson.get? "error_type" =
        some (.string "collision") := rfl
    rw [hword]
    simp

/-- What a workflow can be told. -/
inductive Command where
  | analyze
  | parse (input : String)
  | setText (text : String)
deriving DecidableEq, Repr

/-- The text that a command assigns. -/
def Command.assigned? : Command → Option String
  | setText text => some text
  | analyze | parse _ => none

/-- The text after some commands: the one that was assigned last, or the first one. -/
def lastText (text : String) (commands : List Command) : String :=
  (commands.filterMap Command.assigned?).getLastD text

theorem lastText_cons (text : String) (command : Command) (rest : List Command) :
    lastText text (command :: rest) = lastText (command.assigned?.getD text) rest := by
  cases command with
  | analyze => rfl
  | parse input => rfl
  | setText new => exact List.getLastD_cons

namespace Workflow

/-- Carries out a command. An error that is no answer breaks the run off. -/
def perform (w : Workflow) : Command → Except GrammarError Workflow
  | .analyze =>
    match w.analyze with
    | (.ok _, v) => .ok v
    | (.error e, _) => .error e
  | .parse input =>
    match w.parse input with
    | (.ok _, v) => .ok v
    | (.error e, _) => .error e
  | .setText text => .ok (w.setText text)

/-- A new workflow for the text after some commands. -/
def after (text : String) (commands : List Command) : Except GrammarError Workflow :=
  commands.foldlM perform (ofText text)

/-- The answer to an analysis depends on the text alone. -/
theorem analyze_ofText (w : Workflow) : (ofText w.text).analyze.1 = w.analyze.1 := by
  unfold analyze ofText
  dsimp only
  split
  · rfl
  · split
    · rfl
    · split <;> rfl

/-- Parsing leaves the text as it is. -/
theorem text_parse (w : Workflow) (input : String) : (w.parse input).2.text = w.text := by
  unfold parse
  split
  · split <;> rfl
  · rfl

end Workflow

/-- The answer is what a new workflow answers to an analysis of the text. It succeeds just where the
text declares a grammar without left recursion, and says whether the grammar is deterministic. -/
structure AnalysisAnswer.IsOf (analysis : AnalysisAnswer) (about : String) : Prop where
  answer_eq : (Workflow.ofText about).analyze.1 = .ok analysis
  success_iff : analysis.toJson.get? "success" = some (.bool true) ↔
    ∃ g, Grammar.ofText about = .ok g ∧ ∀ v, ¬g.LeftRecursive v
  deterministic_iff : analysis.toJson.get? "deterministic" = some (.bool true) ↔
    ∃ g, Grammar.ofText about = .ok g ∧ g.Deterministic

namespace Workflow

/-- The workflow has what an analysis of the text with this answer leaves: no session if it failed,
and otherwise the session of the text. -/
inductive HoldsFrom (about : String) : AnalysisAnswer → Workflow → Prop where
  | failed {w : Workflow} {e : GrammarError} (session : w.session = none) :
      HoldsFrom about (.failure e) w
  | analyzed {w : Workflow} {s : Session} {report : GrammarReport} (stage : w.stage = .analyzed)
      (session : w.session = some s) (of : s.IsOf about report) :
      HoldsFrom about (.report report) w

/-- Every analysis has an answer, and what it leaves is that of the text of now. -/
theorem exists_analyze (w : Workflow) :
    ∃ analysis v, w.analyze = (.ok analysis, v) ∧ v.text = w.text ∧
      HoldsFrom w.text analysis v ∧ analysis.IsOf w.text := by
  have hend := w.analyzesTo_analyze
  have hnew := w.analyze_ofText
  generalize w.analyze = result at hend hnew
  cases hend with
  | noRules empty =>
    have hnone (g : Grammar) : Grammar.ofText w.text ≠ .ok g := by
      rw [Grammar.ofText_eq_error_iff.2 ⟨rfl, empty⟩]
      exact nofun
    refine ⟨_, _, rfl, rfl, .failed rfl, hnew, iff_of_false nofun ?_, iff_of_false nofun ?_⟩
    · exact fun ⟨g, hread, _⟩ => hnone g hread
    · exact fun ⟨g, hread, _⟩ => hnone g hread
  | @leftRecursion g read v recursive =>
    have hsame {g' : Grammar} (hread : Grammar.ofText w.text = .ok g') : g = g' :=
      Except.ok.inj (read.symm.trans hread)
    refine ⟨_, _, rfl, rfl, .failed rfl, hnew, iff_of_false nofun ?_, iff_of_false nofun ?_⟩
    · rintro ⟨g', hread, hgrounded⟩
      exact hgrounded v (hsame hread ▸ recursive)
    · rintro ⟨g', hread, hdet⟩
      exact hdet.not_leftRecursive v (hsame hread ▸ recursive)
  | @report s report of =>
    have hflag : (AnalysisAnswer.report report).toJson.get? "deterministic" =
        some (.bool report.deterministic) := rfl
    refine ⟨_, _, rfl, rfl, .analyzed rfl rfl of, hnew,
      iff_of_true rfl ⟨_, of.read, of.grounded⟩, ?_⟩
    rw [hflag, Option.some_inj, Json.bool.injEq, of.deterministic_iff]
    constructor
    · exact fun hdet => ⟨s.grammar, of.read, hdet⟩
    · rintro ⟨g, hread, hdet⟩
      obtain rfl := Except.ok.inj (of.read.symm.trans hread)
      exact hdet

namespace HoldsFrom

variable {about : String} {analysis : AnalysisAnswer} {w v : Workflow}

/-- An input is answered, and leaves what the analysis has left. -/
theorem exists_parse (h : HoldsFrom about analysis w) (input : String) :
    ∃ answer v, w.parse input = (.ok answer, v) ∧ HoldsFrom about analysis v := by
  cases h with
  | failed session => exact ⟨_, w, parse_of_session_eq_none session input, .failed session⟩
  | analyzed stage session of =>
    obtain ⟨answer, t, hparse, ht, -⟩ := w.exists_answer stage session of input
    exact ⟨answer, _, hparse, .analyzed stage rfl ht⟩

/-- Two workflows that hold the same analysis answer alike. -/
theorem parse_eq (h : HoldsFrom about analysis w) (h' : HoldsFrom about analysis v)
    (input : String) : (w.parse input).1 = (v.parse input).1 := by
  cases h with
  | failed session =>
    cases h' with
    | failed session' =>
      rw [parse_of_session_eq_none session, parse_of_session_eq_none session']
  | @analyzed w s report stage session of =>
    cases h' with
    | @analyzed v t report stage' session' of' =>
      have hgrammar : t.grammar = s.grammar := Except.ok.inj (of'.read.symm.trans of.read)
      rw [Workflow.parse_eq stage session, Workflow.parse_eq stage' session', of.outcome_eq,
        of'.outcome_eq, hgrammar]

/-- All commands but an analysis are answered and leave what the last analysis has left. -/
theorem exists_perform (h : HoldsFrom about analysis w) {command : Command}
    (hother : command ≠ .analyze) :
    ∃ v, w.perform command = .ok v ∧ HoldsFrom about analysis v := by
  cases command with
  | analyze => exact absurd rfl hother
  | parse input =>
    obtain ⟨answer, v, hparse, hv⟩ := h.exists_parse input
    exact ⟨v, by rw [perform, hparse], hv⟩
  | setText text =>
    refine ⟨w.setText text, rfl, ?_⟩
    cases h with
    | failed session => exact .failed session
    | analyzed stage session of => exact .analyzed stage session of

end HoldsFrom

theorem text_perform {w v : Workflow} {command : Command} (h : w.perform command = .ok v) :
    v.text = command.assigned?.getD w.text := by
  cases command with
  | analyze =>
    obtain ⟨analysis, u, hanalyze, htext, -⟩ := w.exists_analyze
    rw [perform, hanalyze] at h
    obtain rfl := Except.ok.inj h
    exact htext
  | parse input =>
    have htext := w.text_parse input
    rw [perform] at h
    rcases hparse : w.parse input with ⟨outcome, u⟩
    rw [hparse] at h htext
    cases outcome with
    | ok answer =>
      obtain rfl := Except.ok.inj h
      exact htext
    | error e => cases h
  | setText text =>
    obtain rfl := Except.ok.inj h
    rfl

/-- A run goes on to its end, with the text that was assigned last. Without an analysis in it, it
leaves what the last one before has left. -/
theorem HoldsFrom.exists_run {about : String} {analysis : AnalysisAnswer} {w : Workflow}
    (h : HoldsFrom about analysis w) (commands : List Command) :
    ∃ v, commands.foldlM perform w = .ok v ∧ v.text = lastText w.text commands ∧
      (∃ about' analysis', HoldsFrom about' analysis' v) ∧
      (.analyze ∉ commands → HoldsFrom about analysis v) := by
  induction commands generalizing about analysis w with
  | nil => exact ⟨w, rfl, rfl, ⟨about, analysis, h⟩, fun _ => h⟩
  | cons command rest ih =>
    -- Only an analysis changes what is held.
    obtain ⟨next, about', analysis', hnext, hholds, hsame⟩ :
        ∃ next about' analysis', w.perform command = .ok next ∧ HoldsFrom about' analysis' next ∧
          (command ≠ .analyze → HoldsFrom about analysis next) := by
      by_cases hcommand : command = .analyze
      · subst hcommand
        obtain ⟨analysis', next, hanalyze, -, hholds, -⟩ := w.exists_analyze
        exact ⟨next, w.text, analysis', by rw [perform, hanalyze], hholds, fun hne => absurd rfl hne⟩
      · obtain ⟨next, hnext, hholds⟩ := h.exists_perform hcommand
        exact ⟨next, about, analysis, hnext, hholds, fun _ => hholds⟩
    obtain ⟨v, hrun, htext, hheld, -⟩ := ih hholds
    refine ⟨v, ?_, ?_, hheld, fun hnone => ?_⟩
    · rw [List.foldlM_cons, hnext]
      exact hrun
    · rw [htext, text_perform hnext, lastText_cons]
    · obtain ⟨hne, hrest⟩ : .analyze ≠ command ∧ .analyze ∉ rest := by simpa using hnone
      obtain ⟨v', hrun', -, -, hkept⟩ := ih (hsame hne.symm)
      obtain rfl := Except.ok.inj (hrun.symm.trans hrun')
      exact hkept hrest

/-- The answer to an input is settled by an analysis and the text that it was about: the input is
refused where the analysis failed, and answered as by a workflow that has only analysed that text.
The answer is a collision just where the analysis has reported that the grammar is not deterministic,
and the verdict of the grammar otherwise. -/
structure SettledBy (about : String) (analysis : AnalysisAnswer) (input : String)
    (answer : InputAnswer) : Prop where
  refused_iff : answer.toJson.get? "error_type" = some (.string "workflow_error") ↔
    analysis.toJson.get? "success" = some (.bool false)
  like_new : ((ofText about).analyze.2.parse input).1 = .ok answer
  collision_iff : answer.toJson.get? "error_type" = some (.string "collision") ↔
    analysis.toJson.get? "deterministic" = some (.bool false)
  verdict : analysis.toJson.get? "success" = some (.bool true) →
    analysis.toJson.get? "deterministic" ≠ some (.bool false) →
      answer.toJson.get? "success" = some (.bool true) ∧
        ∃ g b, Grammar.ofText about = .ok g ∧ ((g.accepts input).runFrom {}).1 = .ok b ∧
          answer.toJson.get? "accepted" = some (.bool b)

theorem settledBy_of_answers {s : Session} {about : String} {report : GrammarReport}
    (hs : s.IsOf about report) {input : String} {answer : InputAnswer}
    (hnew : ((ofText about).analyze.2.parse input).1 = .ok answer)
    (hanswers : s.grammar.Answers input answer) :
    SettledBy about (.report report) input answer := by
  have hflag : (AnalysisAnswer.report report).toJson.get? "deterministic" =
      some (.bool report.deterministic) := rfl
  have hrefused : answer.toJson.get? "error_type" = some (.string "workflow_error") ↔
      (AnalysisAnswer.report report).toJson.get? "success" = some (.bool false) :=
    iff_of_false hanswers.ne_workflowError nofun
  cases hanswers with
  | @parsed result deterministic accepts =>
    obtain ⟨hsuccess, haccepted, herror⟩ := InputAnswer.get?_toJson_parsed input result
    rw [hs.deterministic_iff.2 deterministic] at hflag
    refine ⟨hrefused, hnew, ?_,
      fun _ _ => ⟨hsuccess, s.grammar, result.success, hs.read, accepts, haccepted⟩⟩
    rw [hflag, herror]
    simp
  | collision colliding =>
    rw [Bool.eq_false_iff.2 (mt hs.deterministic_iff.1 colliding)] at hflag
    exact ⟨hrefused, hnew, iff_of_true rfl hflag, fun _ hother => absurd hflag hother⟩

/-- A workflow answers an input by the analysis that it holds. -/
theorem HoldsFrom.exists_settledBy {about : String} {analysis : AnalysisAnswer} {w : Workflow}
    (h : HoldsFrom about analysis w) (hanalysis : analysis.IsOf about) (input : String) :
    ∃ answer, (w.parse input).1 = .ok answer ∧ SettledBy about analysis input answer := by
  have hnew : HoldsFrom about analysis (ofText about).analyze.2 := by
    obtain ⟨analysis', v, hanalyze, -, hholds, -⟩ := (ofText about).exists_analyze
    have hanswer := hanalysis.answer_eq
    rw [hanalyze] at hanswer ⊢
    obtain rfl := Except.ok.inj hanswer
    exact hholds
  have hsame := hnew.parse_eq h input
  cases h with
  | failed session =>
    rw [parse_of_session_eq_none session] at hsame
    have hword : InputAnswer.notAnalyzed.toJson.get? "error_type" =
        some (.string "workflow_error") := rfl
    refine ⟨_, by rw [parse_of_session_eq_none session], iff_of_true hword rfl, hsame, ?_, nofun⟩
    exact iff_of_false (by simp [hword]) nofun
  | analyzed stage session of =>
    obtain ⟨answer, t, hparse, -, hanswers⟩ := w.exists_answer stage session of input
    rw [hparse] at hsame
    exact ⟨answer, by rw [hparse], settledBy_of_answers of hsame hanswers⟩

/-- However a workflow is used, it never breaks off and has the text that was assigned last. An
input is answered by the last analysis: refused if there was none, and otherwise settled by it and
by the text that was assigned last before it. -/
theorem answered_by_last (text : String) (commands : List Command) (input : String) :
    ∃ w answer, after text commands = .ok w ∧ w.text = lastText text commands ∧
      (w.parse input).1 = .ok answer ∧
      (.analyze ∉ commands →
        answer.toJson.get? "error_type" = some (.string "workflow_error")) ∧
      ∀ before rest, commands = before ++ .analyze :: rest → .analyze ∉ rest →
        ∃ v analysis, after text before = .ok v ∧ v.analyze.1 = .ok analysis ∧
          analysis.IsOf (lastText text before) ∧
          SettledBy (lastText text before) analysis input answer := by
  have hfresh : HoldsFrom text (.failure .noRules) (ofText text) := .failed rfl
  obtain ⟨w, hrun, htext, ⟨about, analysis, hholds⟩, hnone⟩ := hfresh.exists_run commands
  obtain ⟨answer, _, hparse, -⟩ := hholds.exists_parse input
  refine ⟨w, answer, hrun, htext, by rw [hparse], fun hnever => ?_, ?_⟩
  · cases hnone hnever with
    | failed session =>
      rw [parse_of_session_eq_none session] at hparse
      obtain rfl := Except.ok.inj (congrArg Prod.fst hparse)
      rfl
  · rintro before rest rfl hrest
    obtain ⟨v, hbefore, hcurrent, -⟩ := hfresh.exists_run before
    obtain ⟨analysis, next, hanalyze, -, hheld, hanalysis⟩ := v.exists_analyze
    obtain ⟨u, hafter, -, -, hkept⟩ := hheld.exists_run rest
    obtain rfl : u = w := by
      rw [List.foldlM_append, hbefore] at hrun
      change (do let x ← v.perform .analyze; rest.foldlM perform x) = _ at hrun
      rw [perform, hanalyze] at hrun
      exact Except.ok.inj (hafter.symm.trans hrun)
    rw [hcurrent] at hanalysis hkept
    obtain ⟨answer', hanswer, hsettled⟩ := (hkept hrest).exists_settledBy hanalysis input
    rw [hparse] at hanswer
    obtain rfl := Except.ok.inj hanswer
    exact ⟨v, analysis, hbefore, by rw [hanalyze], hanalysis, hsettled⟩

/-- The text is assigned twice, before and after the last analysis. The input is accepted by the
grammar of the text in between, which neither the first nor the present text declares. -/
theorem answered_by_last_of_reassigned :
    ∃ w answer,
      after "S = b" [.analyze, .setText "S = a", .parse "b", .analyze, .setText "S = c",
        .parse "c"] = .ok w ∧
      w.text = "S = c" ∧ (w.parse "a").1 = .ok answer ∧
      answer.toJson.get? "success" = some (.bool true) ∧
      answer.toJson.get? "accepted" = some (.bool true) := by
  have hread : Grammar.ofText "S = a" = .ok .single := rfl
  have hdet := Grammar.Reachable.new.deterministic (Grammar.wellFormed_ofText hread) (by cbv)
  have haccepts : ((Grammar.single.accepts "a").runFrom {}).1 = .ok true := by cbv
  obtain ⟨w, answer, hafter, htext, hparse, -, hlast⟩ := answered_by_last "S = b"
    [.analyze, .setText "S = a", .parse "b", .analyze, .setText "S = c", .parse "c"] "a"
  obtain ⟨v, analysis, -, -, hanalysis, hsettled⟩ := hlast
    [.analyze, .setText "S = a", .parse "b"] [.setText "S = c", .parse "c"] rfl (by decide)
  have hsuccess := hanalysis.success_iff.2 ⟨.single, hread, hdet.not_leftRecursive⟩
  have hflag := hanalysis.deterministic_iff.2 ⟨.single, hread, hdet⟩
  obtain ⟨hanswer, g, b, hread', hrun, haccepted⟩ :=
    hsettled.verdict hsuccess (by simp [hflag])
  obtain rfl := Except.ok.inj (hread.symm.trans hread')
  obtain rfl := Except.ok.inj (haccepts.symm.trans hrun)
  exact ⟨w, answer, hafter, htext, hparse, hanswer, haccepted⟩

end Workflow

end Predictive
