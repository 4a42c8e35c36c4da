import Mathlib
import Predictive.Proofs.Workflow.Session
import Predictive.Service.Endpoints

/-!
# The report and the verdict agree

The two endpoints are asked about the same grammar, one of them with an input. What they respond
follows from one analysis of the grammar (`responds`): both refuse it with the same error, or it is
reported, and the input gets the verdict of a deterministic grammar and is refused with a collision
by any other. So the two responses agree (`endpoints_agree`).
-/

namespace Predictive

namespace Service

/-! Requests. -/

/-- The request posts an object to the route. Among its fields, in whatever order, are these. -/
structure Request.Posts (r : Request) (route : Route) (fields : List (String × Json)) : Prop where
  path : Route.ofPath? (Target.ofText r.target).path = some route
  not_socket : (Target.ofText r.target).isSocket = false
  verb : r.verb = "POST"
  data : ∃ sent, r.data = .object sent ∧
    ∀ field ∈ fields, (Json.object sent).get? field.1 = some field.2

theorem fromUTF8?_toByteArray (text : String) : String.fromUTF8? text.toByteArray = some text := by
  unfold String.fromUTF8?
  rw [dif_pos text.isValidUTF8]
  rfl

/-- A text that is written in UTF-8 and seen to be so is read character by character. -/
theorem readBytes?_toUTF8 {text : String}
    (hdetect : Json.Encoding.detect text.toUTF8.toList = .utf8)
    (hmark : text.toList.head? ≠ some '\ufeff') :
    Json.readBytes? text.toUTF8 = Json.readChars? text.toList := by
  have hdecode : Json.Encoding.utf8.decode? text.toUTF8 = some text.toList :=
    congrArg (Option.map String.toList) (fromUTF8?_toByteArray text)
  simp only [Json.readBytes?, hdetect, hdecode, Option.bind_eq_bind, Option.bind_some]
  split
  · next hfront => exact absurd (by rw [hfront, List.head?_cons]) hmark
  · rfl

/-- A body that is announced as JSON and holds an object is what was sent. -/
theorem data_eq_of_body {r : Request} {text : String} {sent : List (String × Json)}
    (hannounced : r.announcesJson = true) (hbody : r.body = text.toUTF8)
    (hdetect : Json.Encoding.detect text.toUTF8.toList = .utf8)
    (hmark : text.toList.head? ≠ some '\ufeff')
    (hread : Json.readChars? text.toList = some (.object sent)) (hsent : sent ≠ []) :
    r.data = .object sent := by
  have hbytes : Json.readBytes? r.body = some (.object sent) := by
    rw [hbody, readBytes?_toUTF8 hdetect hmark, hread]
  have hsomething : (Json.object sent).isSomething = true := by
    simpa [Json.isSomething] using hsent
  rw [Request.data, hannounced, if_pos rfl, hbytes, Option.getD_some, if_pos hsomething]

/-- What is posted to a route that takes it is served. -/
theorem Request.Posts.respond_eq {r : Request} {route : Route} {fields : List (String × Json)}
    (h : r.Posts route fields) (htakes : "POST" ∈ route.methods) : respond r = serve route r := by
  have hallowed : route.allows r = true := by
    rw [Route.allows, h.verb, List.contains_iff_mem]
    exact htakes
  unfold respond
  simp only [h.path, hallowed, h.not_socket]
  rfl

theorem Request.Posts.not_options {r : Request} {route : Route} {fields : List (String × Json)}
    (h : r.Posts route fields) : r.verb ≠ "OPTIONS" := by
  rw [h.verb]
  decide

theorem respond_report {r : Request} {fields : List (String × Json)} (h : r.Posts .report fields) :
    ∃ sent, respond r = reportEndpoint (.object sent) ∧
      ∀ field ∈ fields, (Json.object sent).get? field.1 = some field.2 := by
  obtain ⟨sent, hdata, hfields⟩ := h.data
  refine ⟨sent, ?_, hfields⟩
  rw [h.respond_eq (by decide)]
  unfold serve
  rw [if_neg h.not_options, hdata]

theorem respond_verdict {r : Request} {fields : List (String × Json)}
    (h : r.Posts .verdict fields) :
    ∃ sent, respond r = verdictEndpoint (.object sent) ∧
      ∀ field ∈ fields, (Json.object sent).get? field.1 = some field.2 := by
  obtain ⟨sent, hdata, hfields⟩ := h.data
  refine ⟨sent, ?_, hfields⟩
  rw [h.respond_eq (by decide)]
  unfold serve
  rw [if_neg h.not_options, hdata]

/-- A text that is not empty is taken for the grammar. -/
theorem grammarOf_of_get? {data : Json} {text : String}
    (h : data.get? "grammar" = some (.string text)) (htext : text ≠ "") :
    grammarOf data = some (.string text) := by
  simp [grammarOf, h, Json.isSomething, htext]

/-- Any text is taken for a field, the empty one as well. -/
theorem fieldOf_of_get? {data : Json} {name text : String}
    (h : data.get? name = some (.string text)) : fieldOf data name = some (.string text) := by
  rw [fieldOf, h]

/-! Responses. -/

/-- What the endpoints respond about a grammar, without and with an input. -/
inductive Responds (text input : String) : Response → Response → Prop where
  /-- The text declares nothing, or a variable is left recursive. -/
  | refused {e : GrammarError}
      (reason : (e = .noRules ∧ Grammar.ofText text = .error .noRules) ∨
        ∃ g, Grammar.ofText text = .ok g ∧ g.IsLeftRecursion e) (log log' : List String) :
      Responds text input (.badRequest (AnalysisAnswer.failure e).toJson log)
        (.badRequest (AnalysisAnswer.failure e).toJson log')
  /-- The grammar is not deterministic. -/
  | colliding {g : Grammar} {report : GrammarReport} (read : Grammar.ofText text = .ok g)
      (grounded : ∀ v, ¬g.LeftRecursive v) (flag : report.deterministic = false) (c : Collision)
      (log : List String) (opening : String) :
      Responds text input (.ok (.ofReport report) log)
        (aborted report c.notDeterministic (GrammarError.collision c).code opening)
  /-- The grammar is deterministic. -/
  | decided {g : Grammar} {report : GrammarReport} {result : ParseOutcome}
      (read : Grammar.ofText text = .ok g) (grounded : ∀ v, ¬g.LeftRecursive v)
      (flag : report.deterministic = true)
      (accepts : ((g.accepts input).runFrom {}).1 = .ok result.success) (log log' : List String) :
      Responds text input (.ok (.ofReport report) log) (.ok (verdict report input result) log')

theorem responds {text input : String} (htext : text ≠ "") {forReport forVerdict : Json}
    (hreport : forReport.get? "grammar" = some (.string text))
    (hverdict : forVerdict.get? "grammar" = some (.string text))
    (hinput : forVerdict.get? "input" = some (.string input)) :
    Responds text input (reportEndpoint forReport) (verdictEndpoint forVerdict) := by
  have hend := (Workflow.ofText text).analyzesTo_analyze
  simp only [reportEndpoint, verdictEndpoint, grammarOf_of_get? hreport htext,
    grammarOf_of_get? hverdict htext, fieldOf_of_get? hinput]
  generalize (Workflow.ofText text).analyze = result at hend
  cases hend with
  | noRules empty => exact .refused (.inl ⟨rfl, Grammar.ofText_eq_error_iff.2 ⟨rfl, empty⟩⟩) _ _
  | @leftRecursion g read v recursive => exact .refused (.inr ⟨g, read, v, rfl, recursive⟩) _ _
  | @report s report of =>
    obtain ⟨answer, t, hparse, -, hanswers⟩ := Workflow.exists_answer
      { Workflow.ofText text with session := some s, stage := .analyzed } rfl rfl of input
    simp only [parseWith, Option.getD_some, hparse]
    cases hanswers with
    | parsed deterministic accepts =>
      exact .decided of.read of.grounded (of.deterministic_iff.2 deterministic) accepts _ _
    | @collision c colliding =>
      have hflag := Bool.eq_false_iff.2 (mt of.deterministic_iff.1 colliding)
      exact .colliding of.read of.grounded hflag c _ _

/-- A field of the value of a response. -/
def Response.field? (r : Response) (name : String) : Option Json :=
  r.json.bind (·.get? name)

/-- The text declares no grammar, or one with a left-recursive variable. -/
def Unusable (text : String) : Prop :=
  Grammar.ofText text = .error .noRules ∨
    ∃ g, Grammar.ofText text = .ok g ∧ ∃ v ∈ g.nonterminals, g.LeftRecursive v

theorem not_unusable {text : String} {g : Grammar} (read : Grammar.ofText text = .ok g)
    (grounded : ∀ v, ¬g.LeftRecursive v) : ¬Unusable text := by
  rintro (hnone | ⟨g', hread, v, -, hv⟩)
  · cases hnone.symm.trans read
  · obtain rfl := Except.ok.inj (hread.symm.trans read)
    exact grounded v hv

/-- A report on a grammar and the verdict on an input agree. -/
structure Agree (text input : String) (report verdict : Response) : Prop where
  report_served : report.status ≠ 500
  verdict_served : verdict.status ≠ 500
  refused_iff : report.status = 400 ↔ Unusable text
  /-- Both are refused with the same error. -/
  refused_alike : report.status = 400 → verdict.status = 400 ∧ ∃ sentence code,
    (report.field? "error" = some (.string sentence) ∧
      report.field? "error_type" = some (.string code)) ∧
    verdict.field? "error" = some (.string sentence) ∧
      verdict.field? "error_type" = some (.string code)
  collision_iff : verdict.status = 400 ∧ verdict.field? "error_type" = some (.string "collision") ↔
    report.status = 200 ∧ report.field? "deterministic" = some (.bool false)
  /-- Any other input gets the verdict of the grammar, with an error just where it is refused. -/
  decided : report.status ≠ 400 →
    ¬(report.status = 200 ∧ report.field? "deterministic" = some (.bool false)) →
    verdict.status = 200 ∧ ∃ g b, Grammar.ofText text = .ok g ∧
      ((g.accepts input).runFrom {}).1 = .ok b ∧
      verdict.field? "accepted" = some (.bool b) ∧
      ∀ name ∈ ["error", "errorPosition", "errorHtml"], (verdict.field? name).isSome ↔ b = false

/-- A verdict says whether the input was accepted, and what is wrong just where it was not. -/
theorem get?_verdict (report : GrammarReport) (input : String) (result : ParseOutcome) :
    (verdict report input result).get? "accepted" = some (.bool result.success) ∧
      ∀ name ∈ ["error", "errorPosition", "errorHtml"],
        ((verdict report input result).get? name).isSome ↔ result.success = false := by
  simp only [verdict, Json.get?, List.forall_mem_cons]
  split
  · next hsuccess =>
    have hnone := iff_of_false Bool.false_ne_true (ne_false_of_eq_true hsuccess)
    exact ⟨rfl, hnone, hnone, hnone, nofun⟩
  · next hsuccess =>
    have hsome := iff_of_true (Eq.refl true) (Bool.eq_false_iff.2 hsuccess)
    exact ⟨rfl, hsome, hsome, hsome, nofun⟩

theorem agree_of_refused {text input : String} {e : GrammarError}
    (reason : (e = .noRules ∧ Grammar.ofText text = .error .noRules) ∨
      ∃ g, Grammar.ofText text = .ok g ∧ g.IsLeftRecursion e) (log log' : List String) :
    Agree text input (.badRequest (AnalysisAnswer.failure e).toJson log)
      (.badRequest (AnalysisAnswer.failure e).toJson log') where
  report_served := nofun
  verdict_served := nofun
  refused_iff := by
    refine iff_of_true rfl ?_
    rcases reason with ⟨-, hnone⟩ | ⟨g, hread, v, -, hv⟩
    · exact .inl hnone
    · exact .inr ⟨g, hread, v, hv.mem_nonterminals (Grammar.wellFormed_ofText hread), hv⟩
  refused_alike := fun _ => ⟨rfl, e.analysisFailure, e.code, ⟨rfl, rfl⟩, rfl, rfl⟩
  collision_iff := by
    refine iff_of_false ?_ nofun
    rintro ⟨-, hcode⟩
    replace hcode : some (Json.string e.code) = some (.string "collision") := hcode
    rcases reason with ⟨rfl, -⟩ | ⟨g, -, v, rfl, -⟩
    · simp [GrammarError.code] at hcode
    · simp [GrammarError.code] at hcode
  decided := fun hserved => absurd rfl hserved

theorem Responds.agree {text input : String} {report verdict : Response}
    (h : Responds text input report verdict) : Agree text input report verdict := by
  cases h with
  | refused reason log log' => exact agree_of_refused reason log log'
  | @colliding g report read grounded flag c log opening =>
    have hflag : (Response.ok (.ofReport report) log).field? "deterministic" =
        some (.bool false) := congrArg (some ∘ Json.bool) flag
    refine ⟨nofun, nofun, ?_, nofun, iff_of_true ⟨rfl, rfl⟩ ⟨rfl, hflag⟩, ?_⟩
    · exact iff_of_false nofun (not_unusable read grounded)
    · exact fun _ hother => absurd ⟨rfl, hflag⟩ hother
  | @decided g report result read grounded flag accepts log log' =>
    have hflag : (Response.ok (.ofReport report) log).field? "deterministic" =
        some (.bool true) := congrArg (some ∘ Json.bool) flag
    refine ⟨nofun, nofun, ?_, nofun, ?_, ?_⟩
    · exact iff_of_false nofun (not_unusable read grounded)
    · rw [hflag]
      exact iff_of_false nofun nofun
    · exact fun _ _ => ⟨rfl, g, result.success, read, accepts, get?_verdict report input result⟩

/-- Where one grammar, not the empty text, is posted to both endpoints, their responses agree. -/
theorem endpoints_agree {text input : String} (htext : text ≠ "") {forReport forVerdict : Request}
    (hreport : forReport.Posts .report [("grammar", .string text)])
    (hverdict : forVerdict.Posts .verdict [("grammar", .string text), ("input", .string input)]) :
    Agree text input (respond forReport) (respond forVerdict) := by
  obtain ⟨sent, hresponse, hfields⟩ := respond_report hreport
  obtain ⟨sent', hresponse', hfields'⟩ := respond_verdict hverdict
  rw [hresponse, hresponse']
  have hgrammar := hfields ("grammar", .string text) (by simp)
  have hgrammar' := hfields' ("grammar", .string text) (by simp)
  have hinput := hfields' ("input", .string input) (by simp)
  exact (responds htext hgrammar hgrammar' hinput).agree

/-- A request for a report on a grammar of one rule. -/
def reportOnSingle : Request where
  target := "/analyze-grammar"
  contentType := some "application/json"
  body := "\x7b\x22grammar\x22: \x22S = a\x22\x7d".toUTF8

/-- A request for the verdict of this grammar, in another order and with one more field. -/
def verdictOnSingle : Request where
  target := "/parse-input"
  contentType := some "application/json; charset=utf-8"
  body := "\x7b\x22input\x22: \x22b\x22, \x22id\x22: 7, \x22grammar\x22: \x22S = a\x22\x7d".toUTF8

theorem posts_reportOnSingle : reportOnSingle.Posts .report [("grammar", .string "S = a")] where
  path := by decide +kernel
  not_socket := by decide +kernel
  verb := by cbv
  data := by
    have hbody : reportOnSingle.body = "\x7b\x22grammar\x22: \x22S = a\x22\x7d".toUTF8 := rfl
    refine ⟨[("grammar", .string "S = a")], ?_, by simp [Json.get?]⟩
    exact data_eq_of_body (by cbv) hbody (by decide +kernel) (by decide) (by cbv) (by simp)

theorem posts_verdictOnSingle :
    verdictOnSingle.Posts .verdict [("grammar", .string "S = a"), ("input", .string "b")] where
  path := by decide +kernel
  not_socket := by decide +kernel
  verb := by cbv
  data := by
    have hbody : verdictOnSingle.body =
        "\x7b\x22input\x22: \x22b\x22, \x22id\x22: 7, \x22grammar\x22: \x22S = a\x22\x7d".toUTF8 :=
      rfl
    refine ⟨[("input", .string "b"), ("id", .integer 7), ("grammar", .string "S = a")], ?_, ?_⟩
    · exact data_eq_of_body (by cbv) hbody (by decide +kernel) (by decide) (by cbv) (by simp)
    · simp [Json.get?, List.lookup]

/-- A grammar is posted, and the grammar with an input that it refuses. -/
theorem endpoints_agree_of_single :
    "S = a" ≠ "" ∧ reportOnSingle.Posts .report [("grammar", .string "S = a")] ∧
      verdictOnSingle.Posts .verdict [("grammar", .string "S = a"), ("input", .string "b")] ∧
      Agree "S = a" "b" (respond reportOnSingle) (respond verdictOnSingle) :=
  ⟨by decide, posts_reportOnSingle, posts_verdictOnSingle,
    endpoints_agree (by decide) posts_reportOnSingle posts_verdictOnSingle⟩

end Service

end Predictive
