import Predictive.Proofs.Language
import Predictive.Proofs.Render.Context
import Predictive.Proofs.Workflow.Conversation

/-!
# Where a refused input is shown

The loop of the parser refuses an input in front of the tokens that are left, and the position that
it reports is the number of tokens read before (`Parser.Finishes.exists_refusal`). This holds with
any table. So the position lies within the input, and the document of the answer, for which the
input is cut into words again, highlights the token that was next (`Workflow.window_at_stop`).
-/

namespace Predictive

open Analysis (Ensures keeps_true)
open FailurePage (ShowsWindow)

/-- The parser stopped in front of the tokens from the position on, all others read. -/
structure ParseOutcome.StopsAt (result : ParseOutcome) (tokens : List Symbol) (position : Nat) :
    Prop where
  refused : result.success = false
  position_eq : result.errorPosition = position
  within : position ≤ tokens.length
  last : ∃ step, result.trace.getLast? = some step ∧ step.action = .failed ∧
    step.input = tokens.drop position

namespace Parser

variable {p : Parser}

/-- The last step of a refusal stands in front of the tokens that are left, and the position counts
those that have been read. -/
theorem Finishes.exists_refusal {number : Nat} {c : Config} {result : ParseOutcome}
    (h : p.Finishes number c result) (hrefused : result.success = false) :
    ∃ step read, result.trace.getLast? = some step ∧ step.action = .failed ∧
      c.rest = read ++ step.input ∧ result.errorPosition = (c.consumed + read.length : Nat) := by
  induction h with
  | accept number hmove => cases hrefused
  | @refuse number c failure hmove => exact ⟨c.step number .failed none, [], rfl, rfl, rfl, rfl⟩
  | @readToken number c result hmove _ ih =>
    obtain ⟨step, read, hlast, haction, hrest, hposition⟩ := ih hrefused
    obtain ⟨token, hnext⟩ : ∃ token, c.rest = token :: c.rest.tail := by
      cases hc : c.rest with
      | nil => exact absurd hc (rest_ne_nil_of_move_eq_readToken hmove)
      | cons token rest => exact ⟨token, rfl⟩
    refine ⟨step, token :: read, ?_, haction, ?_, ?_⟩
    · simp [ParseOutcome.after, List.getLast?_cons, hlast]
    · rw [hnext, List.cons_append, ← hrest]
      rfl
    · rw [ParseOutcome.after, hposition, List.length_cons]
      show ((c.consumed + 1 + read.length : Nat) : Int) = (c.consumed + (read.length + 1) : Nat)
      omega
  | @expand number c r result hmove _ ih =>
    obtain ⟨step, read, hlast, haction, hrest, hposition⟩ := ih hrefused
    refine ⟨step, read, ?_, haction, hrest, hposition⟩
    simp [ParseOutcome.after, List.getLast?_cons, hlast]

/-- A run from the start symbol that ends in a refusal stops within the tokens. -/
theorem Finishes.exists_stopsAt {start : Symbol} {tokens : List Symbol} {result : ParseOutcome}
    (h : p.Finishes 1 (.initial start tokens) result) (hrefused : result.success = false) :
    ∃ position, result.StopsAt tokens position := by
  obtain ⟨step, read, hlast, haction, hrest, hposition⟩ := h.exists_refusal hrefused
  obtain rfl : tokens = read ++ step.input := hrest
  refine ⟨read.length, hrefused, ?_, ?_, step, hlast, haction, ?_⟩
  · rw [hposition, Config.initial, Nat.zero_add]
  · rw [List.length_append]
    omega
  · rw [List.drop_left]

end Parser

/-- Whatever is remembered, a text is parsed by the loop with some table. -/
theorem Grammar.exists_finishes_of_parseText {g : Grammar} {text : String} {memo : Memo}
    {result : ParseOutcome} (h : ((g.parseText text).runFrom memo).1 = .ok result) :
    ∃ p : Parser, p.Finishes 1 (.initial g.start (Text.words text)) result := by
  have hloop : Ensures (fun _ => True) (g.parseText text)
      (fun result => ∃ p : Parser, p.Finishes 1 (.initial g.start (Text.words text)) result)
      (fun _ => True) := by
    unfold parseText runTokens
    refine (keeps_true _).bind fun _ _ => (keeps_true _).bind fun table _ => ?_
    dsimp only
    split
    case h_1 hrun => exact .pure ⟨_, Parser.finishes_of_runFrom hrun⟩
    case h_2 => exact .throw trivial
  exact hloop.value_of_run trivial h

/-- The answer to a refused input has the position and the document of the refusal. -/
theorem InputAnswer.get?_toJson_refused (input : String) {result : ParseOutcome}
    (h : result.success = false) :
    (parsed input result).toJson.get? "error_position" = some (.integer result.errorPosition) ∧
      (parsed input result).toJson.get? "error_html" = some (.string (errorPage input result)) := by
  simp only [toJson, Json.get?, h]
  exact ⟨rfl, rfl⟩

namespace Workflow

/-- Every parse that is not accepted is one of the grammar of the session. -/
theorem exists_parseText {w : Workflow} {input : String} {answer : InputAnswer}
    (h : (w.parse input).1 = .ok answer)
    (hrefused : answer.toJson.get? "accepted" = some (.bool false)) :
    ∃ (s : Session) (result : ParseOutcome), w.session = some s ∧
      answer = .parsed input result ∧ result.success = false ∧
      ((s.grammar.parseText input).runFrom s.memo).1 = .ok result := by
  have hnone : answer ≠ .notAnalyzed := by
    rintro rfl
    cases hrefused
  cases hsession : w.session with
  | none =>
    rw [parse_of_session_eq_none hsession] at h
    exact absurd (Except.ok.inj h).symm hnone
  | some s =>
    cases hstage : w.stage with
    | initial =>
      simp only [parse, hstage] at h
      exact absurd (Except.ok.inj h).symm hnone
    | analyzed =>
      rw [parse_eq hstage hsession] at h
      cases hrun : ((s.grammar.parseText input).runFrom s.memo).1 with
      | error e =>
        rw [hrun] at h
        cases e <;> cases h
        cases hrefused
      | ok result =>
        rw [hrun] at h
        obtain rfl := Except.ok.inj h
        rw [(InputAnswer.get?_toJson_parsed input result).2.1] at hrefused
        exact ⟨s, result, rfl, rfl, by simpa using hrefused, hrun⟩

/-- The context of a refused input shows the tokens around the position, and it is shown for the
position where the parser stopped. -/
theorem window_at_stop :
    (∀ (config : RenderConfig) (message : String) (tokens : List String) (position reach : Nat),
      position ≤ tokens.length →
      ShowsWindow tokens position reach
        (FailurePage.html config message position (some tokens) reach)) ∧
    ∀ (w : Workflow) (input : String) (answer : InputAnswer), (w.parse input).1 = .ok answer →
      answer.toJson.get? "accepted" = some (.bool false) →
      ∃ result position page, answer = .parsed input result ∧
        result.StopsAt (Text.words input) position ∧
        answer.toJson.get? "error_position" = some (.integer position) ∧
        answer.toJson.get? "error_html" = some (.string page) ∧
        ShowsWindow (Text.words input) position 5 page := by
  constructor
  · intro config message tokens position reach h
    exact FailurePage.showsWindow_html config message h reach
  intro w input answer hparse hrefused
  obtain ⟨s, result, -, rfl, hsuccess, hrun⟩ := exists_parseText hparse hrefused
  obtain ⟨p, hends⟩ := Grammar.exists_finishes_of_parseText hrun
  obtain ⟨position, hstops⟩ := hends.exists_stopsAt hsuccess
  have hpage : ShowsWindow (Text.words input) position 5 (InputAnswer.errorPage input result) := by
    rw [InputAnswer.errorPage, hstops.position_eq]
    exact FailurePage.showsWindow_html {} result.errorMessage hstops.within 5
  refine ⟨result, position, _, rfl, hstops, ?_, ?_, hpage⟩
  · rw [(InputAnswer.get?_toJson_refused input hsuccess).1, hstops.position_eq]
  · exact (InputAnswer.get?_toJson_refused input hsuccess).2

/-- An input with a token that is no symbol, after the analysis of a grammar with one terminal. -/
theorem exists_refused_single :
    ∃ answer, ((ofText "S = a").analyze.2.parse "a b").1 = .ok answer ∧
      answer.toJson.get? "accepted" = some (.bool false) := by
  have hread : Grammar.ofText "S = a" = .ok .single := rfl
  have wf := Grammar.wellFormed_ofText hread
  have hdet := Grammar.Reachable.new.deterministic wf (by cbv)
  obtain ⟨s, report, hs, hanalyze⟩ := exists_isOf_analyze hread hdet.not_leftRecursive
  have hgrammar : s.grammar = .single := Except.ok.inj (hs.read.symm.trans hread)
  rw [hanalyze]
  obtain ⟨answer, _, hparse, -, hanswers⟩ :=
    exists_answer { text := "S = a", session := some s, stage := .analyzed } rfl rfl hs "a b"
  rw [hgrammar] at hanswers
  refine ⟨answer, by rw [hparse], ?_⟩
  cases hanswers with
  | collision colliding => exact absurd hdet colliding
  | @parsed result deterministic accepts =>
    have hwords : Text.words "a b" = ["a", "b"] := by cbv
    have hnone : ¬Grammar.single.IsSymbol "b" := not_or_intro (by decide) (by decide)
    obtain ⟨b, hrun, hreads⟩ := wf.exists_verdict_accepts hdet Memo.exact_empty "a b"
    obtain rfl : result.success = b := Except.ok.inj (accepts.symm.trans hrun)
    have hrefused : result.success = false := by
      rw [Bool.eq_false_iff]
      intro hsuccess
      have hderives := (hreads.1 hsuccess).2.derives
      rw [hwords] at hderives
      exact hnone (wf.isSymbol_of_derives_start hderives "b" (by simp))
    rw [(InputAnswer.get?_toJson_parsed "a b" result).2.1, hrefused]

/-- A position behind the last token, in a document whose settings open a part of their own, and an
input that is refused at its last token. -/
theorem window_at_stop_of_single :
    3 ≤ ["a", "b", "c"].length ∧
      ShowsWindow ["a", "b", "c"] 3 1 (FailurePage.html { errorClasses := "\"><pre>" } "refused" 3
        (some ["a", "b", "c"]) 1) ∧
      ∃ answer, ((ofText "S = a").analyze.2.parse "a b").1 = .ok answer ∧
        answer.toJson.get? "accepted" = some (.bool false) ∧
        ∃ result position page, answer = .parsed "a b" result ∧
          result.StopsAt (Text.words "a b") position ∧
          answer.toJson.get? "error_position" = some (.integer position) ∧
          answer.toJson.get? "error_html" = some (.string page) ∧
          ShowsWindow (Text.words "a b") position 5 page := by
  have hlength : 3 ≤ ["a", "b", "c"].length := by decide
  obtain ⟨answer, hparse, hrefused⟩ := exists_refused_single
  refine ⟨hlength, window_at_stop.1 _ _ _ 3 1 hlength, answer, hparse, hrefused, ?_⟩
  exact window_at_stop.2 _ "a b" answer hparse hrefused

end Workflow

end Predictive
