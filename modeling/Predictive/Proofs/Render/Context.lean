import Predictive.Proofs.Render.Cells
import Predictive.Proofs.Render.Shape

/-!
# The context of a refused input

`highlightIn` reads the context off a written document: the text in front of the highlighted token,
that token and the text behind it, up to the ends of the part that shows them. What is read does not
depend on the settings and the message, which stand in front of that part.

The tokens that are shown are a window of the input around the position (`Context.IsWindow`), and
dots stand where it does not go to an end of the input (`showsWindow_html`).
-/

namespace Predictive.FailurePage

open Markup

/-! The reader. -/

/-- A highlighted text, and the texts around it. -/
structure Highlight where
  before : String
  highlighted : String
  after : String
deriving DecidableEq, Repr

/-- Reads a highlighted text where the part with it begins. -/
def Highlight.ofSegments? : List Segment → Option Highlight
  | opening :: marked :: after :: closing :: _ =>
    if opening.tag = "pre class=\"context-display\"" ∧
        marked.tag = "span class=\"error-position\"" ∧ after.tag = "/span" ∧
        closing.tag = "/pre" then
      some ⟨unescape opening.behind, unescape marked.behind, unescape after.behind⟩
    else none
  | _ => none

/-- The last highlighted text of those in the segments. -/
def lastHighlight : List Segment → Option Highlight
  | [] => none
  | s :: rest => (lastHighlight rest).or (Highlight.ofSegments? (s :: rest))

/-- Reads the last highlighted text of a document. -/
def highlightIn (document : String) : Option Highlight :=
  lastHighlight (segments document)

theorem lastHighlight_append {found : List Segment} {h : Highlight}
    (hfound : lastHighlight found = some h) (others : List Segment) :
    lastHighlight (others ++ found) = some h := by
  induction others with
  | nil => exact hfound
  | cons s others ih => rw [List.cons_append, lastHighlight, ih, Option.some_or]

/-! What is written of a context. -/

/-- A line of dots below another line, where something is hidden. -/
def dotsText (hidden : Bool) : String :=
  if hidden then "\n..." else ""

/-- A context as it is shown, each side on lines of its own. -/
def Context.shown (context : Context) : Highlight where
  before := dotsText context.cutBefore ++ "\n" ++ Text.unwords context.before ++ "\n"
  highlighted := context.offending
  after := "\n" ++ Text.unwords context.after ++ dotsText context.cutAfter ++ "\n"

theorem leading_dots (hidden : Bool) (rest : List Piece) :
    leading (below (dots hidden) ++ rest) = escape (dotsText hidden) ++ leading rest := by
  have hdots : escape "\n" ++ escape "..." = escape "\n..." := by simp [← escape_append]
  cases hidden with
  | false => rfl
  | true => simp [dots, below, leading, dotsText, ← hdots, String.append_assoc]

theorem segmentsOf_dots (hidden : Bool) (rest : List Piece) :
    segmentsOf (below (dots hidden) ++ rest) = segmentsOf rest := by
  cases hidden <;> rfl

/-- The opening tag in front of the tokens of a context. -/
def contextTag : Piece :=
  .opening "pre" (classes "context-display")

/-- The lines of a context behind that tag. -/
def tokenLines (context : Context) (position : Nat) : List Line :=
  dots context.cutBefore ++
    [[.text (Text.unwords context.before)],
      textElement "span" (classes "error-position") context.offending,
      [.text (Text.unwords context.after)]] ++
    dots context.cutAfter ++
    [[.closing "pre"], textElement "p" (classes "position-info")
      ("Error at token " ++ toString position), [.closing "div"]]

theorem contextLines_eq (context : Context) (position : Nat) :
    contextLines context position =
      [[.opening "div" (classes "error-context")], strongParagraph "Context:", [contextTag]] ++
        tokenLines context position := by
  simp [contextLines, tokenLines, contextTag, block]

/-- The lines of a document from the tokens of its context on. -/
def linesFrom (context : Context) (position : Nat) : List Line :=
  tokenLines context position ++ [[.closing "div"]]

theorem plain_linesFrom (context : Context) (position : Nat) :
    ∀ p ∈ [contextTag] ++ (linesFrom context position).flatten, p.Plain := by
  have hcontext := (sameTags_contextLines context context position position).plain
  have hclosing : (Piece.closing "div").Plain := by decide
  rw [contextLines_eq, List.flatten_append, List.forall_mem_append] at hcontext
  rw [linesFrom, List.flatten_append, List.forall_mem_append, List.forall_mem_append]
  refine ⟨fun p hp => hcontext.1 p ?_, hcontext.2, List.forall_mem_singleton.2 hclosing⟩
  simp [List.mem_singleton.1 hp]

/-- The context is read off these lines. -/
theorem lastHighlight_linesFrom (context : Context) (position : Nat) :
    lastHighlight (segmentsOf (contextTag :: below (linesFrom context position))) =
      some context.shown := by
  have hsegments : segmentsOf (contextTag :: below (linesFrom context position)) =
      [⟨"pre class=\"context-display\"", escape context.shown.before⟩,
        ⟨"span class=\"error-position\"", escape context.shown.highlighted⟩,
        ⟨"/span", escape context.shown.after⟩, ⟨"/pre", escape "\n"⟩,
        ⟨"p class=\"position-info\"", escape ("Error at token " ++ toString position)⟩,
        ⟨"/p", escape "\n"⟩, ⟨"/div", escape "\n"⟩, ⟨"/div", ""⟩] := by
    simp [contextTag, linesFrom, tokenLines, textElement, element, classes, attributeText,
      segmentsOf, leading, segmentsOf_dots, leading_dots, ← escape_append, Context.shown,
      String.append_assoc]
  rw [hsegments]
  simp [lastHighlight, Highlight.ofSegments?, unescape_escape]

/-! The document. -/

/-- The lines of a document in front of the tokens of its context. -/
def linesBefore (config : RenderConfig) (message : String) : List Line :=
  (if config.inlineStyles then styles else []) ++
    [[.opening "div" (classes config.errorClasses)], textElement "h4" [] "Parse Error",
      textElement "p" (classes "error-text") message, [.opening "div" (classes "error-context")],
      strongParagraph "Context:"]

theorem lines_eq (config : RenderConfig) (message : String) (position : Nat)
    (tokens : List String) (reach : Int) :
    lines config message position (some tokens) reach =
      linesBefore config message ++
        [contextTag] :: linesFrom (contextAt tokens position reach) position := by
  simp [lines, linesBefore, linesFrom, contextLines_eq, block]

/-- The context of a document is read off it, whatever stands in front. -/
theorem highlightIn_html (config : RenderConfig) (message : String) (position : Nat)
    (tokens : List String) (reach : Int) :
    highlightIn (html config message position (some tokens) reach) =
      some (contextAt tokens position reach).shown := by
  have htag : contextTag.tag? = some _ := rfl
  obtain ⟨others, hothers⟩ := exists_segments_render (linesBefore config message) htag []
    (linesFrom (contextAt tokens position reach) position)
    (plain_linesFrom (contextAt tokens position reach) position)
  rw [highlightIn, html, lines_eq, hothers]
  exact lastHighlight_append (lastHighlight_linesFrom _ position) others

/-! The window of tokens. -/

/-- The context shows the tokens around a position, from the first to the last that is in reach. -/
structure Context.IsWindow (context : Context) (tokens : List String) (position reach : Nat) :
    Prop where
  /-- The token at the position is highlighted or, behind the last one, the sign for the end. -/
  offending_eq : context.offending = tokens[position]?.getD "$"
  /-- What is shown, with the highlighted token if there is one, is one piece of the tokens. -/
  contiguous : context.before ++ tokens[position]?.toList ++ context.after =
    (tokens.take (min tokens.length (position + reach + 1))).drop (position - reach)
  /-- With the tokens that are hidden in front, those before make up all up to the position. -/
  take_append_before : tokens.take (position - reach) ++ context.before = tokens.take position
  cutBefore_iff : context.cutBefore = true ↔ tokens.take (position - reach) ≠ []
  cutAfter_iff : context.cutAfter = true ↔
    tokens.drop (min tokens.length (position + reach + 1)) ≠ []

/-- What stands in front of an element, the element and what stands behind it are one piece. -/
theorem drop_take_append_drop {α : Type} (xs : List α) {start position stop : Nat}
    (hstart : start ≤ position) (hstop : min xs.length (position + 1) ≤ stop) :
    (xs.take position).drop start ++ xs[position]?.toList ++ (xs.take stop).drop (position + 1) =
      (xs.take stop).drop start := by
  have hbefore : xs.take position = (xs.take stop).take position := by
    rw [List.take_take, List.take_eq_take_iff]
    omega
  have hat : xs[position]? = (xs.take stop)[position]? := by
    rw [List.getElem?_take]
    split
    · rfl
    · exact List.getElem?_eq_none (by omega)
  have hfrom : (xs.take stop)[position]?.toList ++ (xs.take stop).drop (position + 1) =
      ((xs.take stop).drop start).drop (position - start) := by
    rw [← List.drop_eq_getElem?_toList_append, List.drop_drop]
    congr 1
    omega
  rw [hbefore, hat, List.append_assoc, hfrom, List.drop_take, List.take_append_drop]

theorem isWindow_contextAt {tokens : List String} {position : Nat} (h : position ≤ tokens.length)
    (reach : Nat) : (contextAt tokens position reach).IsWindow tokens position reach := by
  have hstart : max 0 ((position : Int) - reach) = (position - reach : Nat) := by omega
  have hstop : min (tokens.length : Int) (position + reach + 1) =
      (min tokens.length (position + reach + 1) : Nat) := by omega
  have hbefore : (contextAt tokens position reach).before =
      (tokens.take position).drop (position - reach) := by
    simp only [contextAt]
    rw [hstart, Text.window_natCast]
  have hafter : (contextAt tokens position reach).after =
      (tokens.take (min tokens.length (position + reach + 1))).drop (position + 1) := by
    simp only [contextAt]
    rw [hstop]
    exact Text.window_natCast tokens (position + 1) _
  constructor
  case offending_eq => rfl
  case contiguous =>
    rw [hbefore, hafter]
    apply drop_take_append_drop
    · omega
    · omega
  case take_append_before =>
    have hhidden : tokens.take (position - reach) =
        (tokens.take position).take (position - reach) := by
      rw [List.take_take]
      congr 1
      omega
    rw [hbefore, hhidden, List.take_append_drop]
  case cutBefore_iff =>
    simp only [contextAt, decide_eq_true_eq, ne_eq, List.take_eq_nil_iff]
    rw [← List.length_eq_zero_iff]
    omega
  case cutAfter_iff =>
    simp only [contextAt, decide_eq_true_eq, ne_eq, List.drop_eq_nil_iff]
    omega

/-- The document shows the tokens around the position, and dots where some are hidden. -/
def ShowsWindow (tokens : List String) (position reach : Nat) (page : String) : Prop :=
  ∃ context : Context, highlightIn page = some context.shown ∧
    context.IsWindow tokens position reach

/-- Whatever the settings and the message, a document shows the tokens around a position of the
input, the end included. -/
theorem showsWindow_html (config : RenderConfig) (message : String) {tokens : List String}
    {position : Nat} (h : position ≤ tokens.length) (reach : Nat) :
    ShowsWindow tokens position reach (html config message position (some tokens) reach) :=
  ⟨_, highlightIn_html config message position tokens reach, isWindow_contextAt h reach⟩

end Predictive.FailurePage
