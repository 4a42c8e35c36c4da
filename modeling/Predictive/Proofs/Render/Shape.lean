import Mathlib
import Predictive.Proofs.Analysis.Agreement
import Predictive.Proofs.History
import Predictive.Proofs.Render.Tags
import Predictive.Render.Failure
import Predictive.Render.Sets
import Predictive.Render.Table
import Predictive.Render.Trace

/-!
# The shape of a document

Which tags a document has is settled by its shape: how many variables, terminals, rules, steps or
collisions it is about, which cells of the table are filled and what was done in each step. How
they are spelled shows in the texts alone (`RenderConfig.unalterable`). The proof follows the text
of the documents, part by part: `SameTags` of two parts comes from `SameTags` of what is in them.
-/

namespace Predictive

open Markup

/-- The classes that documents refer to are plain. -/
structure RenderConfig.Plain (config : RenderConfig) : Prop where
  tableClasses : Markup.Plain config.tableClasses
  setsClasses : Markup.Plain config.setsClasses
  traceClasses : Markup.Plain config.traceClasses
  errorClasses : Markup.Plain config.errorClasses

/-- A style sheet has the same tags wherever it is put in. -/
theorem RenderConfig.sameTags_styles (config : RenderConfig) {styles : List Line}
    (hplain : ∀ p ∈ styles.flatten, p.Plain) :
    SameTags (if config.inlineStyles then styles else []).flatten
      (if config.inlineStyles then styles else []).flatten := by
  refine .refl fun p hp => ?_
  split at hp
  · exact hplain p hp
  · cases hp

/-- Lists with equal values are related place by place. -/
theorem forall₂_of_map_eq {α β γ : Type} {f : α → γ} {f' : β → γ} {xs : List α} {ys : List β}
    (h : xs.map f = ys.map f') : List.Forall₂ (fun x y => f x = f' y) xs ys := by
  have heq : List.Forall₂ (· = ·) (xs.map f) (ys.map f') := by
    rw [h, List.forall₂_eq_eq_eq]
  rwa [List.forall₂_map_left_iff, List.forall₂_map_right_iff] at heq

/-- Lists of one length are related place by place by a relation of all elements. -/
theorem forall₂_of_length_eq {α β : Type} {related : α → β → Prop} (hall : ∀ x y, related x y)
    {xs : List α} {ys : List β} (h : xs.length = ys.length) : List.Forall₂ related xs ys := by
  have heq : xs.map (fun _ => ()) = ys.map (fun _ => ()) := by simp [List.map_const', h]
  exact (forall₂_of_map_eq heq).imp fun x y _ => hall x y

namespace Grid

theorem sameTags_table {ownClasses label : String} (hclasses : Plain ownClasses)
    (hlabel : Plain label) {content content' : List Line}
    (h : SameTags content.flatten content'.flatten) :
    SameTags (table ownClasses label content).flatten
      (table ownClasses label content').flatten := by
  have hgrid : Plain ("grammar-table " ++ ownClasses) := Plain.append (by decide) hclasses
  have hfixed : Plain "class" ∧ Plain "role" ∧ Plain "table" ∧ Plain "aria-label" := by decide
  have hattributes : PlainAttributes [("class", "grammar-table " ++ ownClasses), ("role", "table"),
      ("aria-label", label)] := by
    simp [PlainAttributes, hgrid, hlabel, hfixed]
  exact .block (by decide) hattributes h

theorem sameTags_headerWith {further : String} (hfurther : Plain further) (label label' : String) :
    SameTags (headerWith further label) (headerWith further label') := by
  have hclasses : Plain ("grammar-table-header" ++ further) := Plain.append (by decide) hfurther
  have hfixed : Plain "class" ∧ Plain "scope" ∧ Plain "col" := by decide
  have hattributes : PlainAttributes [("class", "grammar-table-header" ++ further),
      ("scope", "col")] := by
    simp [PlainAttributes, hclasses, hfixed]
  exact .textElement (by decide) hattributes label label'

theorem sameTags_header (label label' : String) : SameTags (header label) (header label') :=
  sameTags_headerWith (by decide) label label'

theorem sameTags_primaryHeader (label label' : String) :
    SameTags (primaryHeader label) (primaryHeader label') :=
  sameTags_headerWith (by decide) label label'

theorem sameTags_cellWith {further : String} (hfurther : Plain further) {content content' : Line}
    (h : SameTags content content') :
    SameTags (cellWith further content) (cellWith further content') :=
  .element (by decide) (plainAttributes_classes (Plain.append (by decide) hfurther)) h

theorem sameTags_cell (content content' : String) : SameTags (cell content) (cell content') :=
  sameTags_cellWith (by decide) (.text content content')

theorem sameTags_primaryCell (content content' : String) :
    SameTags (primaryCell content) (primaryCell content') :=
  sameTags_cellWith (by decide) (.text content content')

theorem sameTags_emptyNote {config : RenderConfig} (h : config.Plain) (message message' : String) :
    SameTags (emptyNote config message) (emptyNote config message') :=
  .element (by decide) (plainAttributes_classes h.errorClasses)
    (.textElement (by decide) (by decide) message message')

end Grid

namespace TablePage

/-- Which cells of the document are filled, row by row. -/
def filled (nonterminals terminals : List Symbol) (t : Table) : List (List Bool) :=
  nonterminals.map fun v =>
    (terminals ++ [emptyMarker]).map fun column => (t.row v)[column]?.isSome

theorem sameTags_header {terminals terminals' : List Symbol}
    (h : terminals.length = terminals'.length) :
    SameTags (header terminals).flatten (header terminals').flatten := by
  have hlabels : SameTags (terminals.flatMap Grid.header) (terminals'.flatMap Grid.header) :=
    .flatMap (forall₂_of_length_eq Grid.sameTags_header h)
  have hend : SameTags (Grid.headerWith " end-marker" Grid.endLabel)
      (Grid.headerWith " end-marker" Grid.endLabel) :=
    Grid.sameTags_headerWith (by decide) _ _
  have hcells := ((Grid.sameTags_primaryHeader "Nonterminal" "Nonterminal").append hlabels).append
    hend
  refine .block (by decide) (by decide) (.block (by decide) (by decide) ?_)
  simpa [← List.flatMap_def] using hcells

theorem sameTags_cell {entry entry' : Option Rule} (h : entry.isSome = entry'.isSome) :
    SameTags (cell entry) (cell entry') := by
  cases entry with
  | none =>
    cases entry' with
    | none => exact Grid.sameTags_cellWith (by decide) .nil
    | some r' => cases h
  | some r =>
    cases entry' with
    | none => cases h
    | some r' =>
      refine Grid.sameTags_cellWith (by decide) ?_
      exact .textElement (by decide) (by decide) r.text r'.text

/-- Rows with the same cells filled. -/
theorem sameTags_row {columns columns' : List Symbol} {entries entries' : Row}
    (h : columns.map (fun column => entries[column]?.isSome) =
      columns'.map (fun column => entries'[column]?.isSome)) (v v' : Symbol) :
    SameTags (row columns v entries).flatten (row columns' v' entries').flatten := by
  have hcells : SameTags (columns.flatMap fun column => cell entries[column]?)
      (columns'.flatMap fun column => cell entries'[column]?) :=
    .flatMap ((forall₂_of_map_eq h).imp fun _ _ => sameTags_cell)
  refine .block (by decide) (by decide) ?_
  simpa [← List.flatMap_def] using (Grid.sameTags_primaryCell v v').append hcells

theorem sameTags_lines {config : RenderConfig} (hconfig : config.Plain)
    {nonterminals nonterminals' terminals terminals' : List Symbol} {t t' : Table}
    (hrows : t.rows.isEmpty = t'.rows.isEmpty) (hterminals : terminals.length = terminals'.length)
    (hfilled : filled nonterminals terminals t = filled nonterminals' terminals' t') :
    SameTags (lines config nonterminals terminals t).flatten
      (lines config nonterminals' terminals' t').flatten := by
  unfold lines
  rw [← hrows]
  split
  · exact .flatten (.cons (Grid.sameTags_emptyNote hconfig _ _) .nil)
  have hbody : SameTags
      (nonterminals.flatMap fun v => row (terminals ++ [emptyMarker]) v (t.row v)).flatten
      (nonterminals'.flatMap fun v => row (terminals' ++ [emptyMarker]) v (t'.row v)).flatten :=
    .flatten_flatMap ((forall₂_of_map_eq hfilled).imp fun v v' h => sameTags_row h v v')
  rw [List.flatten_append, List.flatten_append]
  refine (config.sameTags_styles (by decide)).append ?_
  refine Grid.sameTags_table hconfig.tableClasses (by decide) ?_
  rw [List.flatten_append, List.flatten_append]
  exact (sameTags_header hterminals).append (.block (by decide) (by decide) hbody)

/-- A document of a grammar is that of its table. -/
theorem exists_table_of_html {config : RenderConfig} {g : Grammar} {memo : Memo} {page : String}
    (h : ((html config g).runFrom memo).1 = .ok page) :
    ∃ t, (g.table.runFrom memo).1 = .ok t ∧
      page = render (lines config g.nonterminals g.terminals.toList t) := by
  rcases hrun : g.table.runFrom memo with ⟨outcome, after⟩
  cases outcome with
  | ok t =>
    rw [html, Analysis.runFrom_bind_of_ok hrun] at h
    cases h
    exact ⟨t, rfl, rfl⟩
  | error e =>
    rw [html, Analysis.runFrom_bind_of_error hrun] at h
    cases h

/-- And each table has a document. -/
theorem html_of_table {g : Grammar} {memo : Memo} {t : Table}
    (h : (g.table.runFrom memo).1 = .ok t) (config : RenderConfig) :
    ((html config g).runFrom memo).1 =
      .ok (render (lines config g.nonterminals g.terminals.toList t)) := by
  rcases hrun : g.table.runFrom memo with ⟨outcome, after⟩
  rw [hrun] at h
  dsimp only at h
  subst h
  rw [html, Analysis.runFrom_bind_of_ok hrun]
  rfl

theorem exists_html_of_filled {g : Grammar} {memo : Memo} {cells : List (List Bool)}
    (h : (g.table.runFrom memo).1.map (filled g.nonterminals g.terminals.toList) = .ok cells)
    (config : RenderConfig) :
    ∃ t page, (g.table.runFrom memo).1 = .ok t ∧
      filled g.nonterminals g.terminals.toList t = cells ∧
      ((html config g).runFrom memo).1 = .ok page := by
  obtain ⟨t, htable, hcells⟩ := Analysis.exists_of_map_eq_ok h
  exact ⟨t, _, htable, hcells, html_of_table htable config⟩

end TablePage

namespace SetsPage

theorem sameTags_variableRow (e e' : Entry) :
    SameTags (variableRow e).flatten (variableRow e').flatten := by
  refine .block (by decide) (by decide) (.flatten ?_)
  exact .cons (Grid.sameTags_primaryCell _ _) (.cons (Grid.sameTags_cell _ _)
    (.cons (Grid.sameTags_cell _ _) (.cons (Grid.sameTags_cell _ _) .nil)))

theorem sameTags_ruleRow (r r' : Rule) (selected selected' : SymbolSet) :
    SameTags (ruleRow r selected).flatten (ruleRow r' selected').flatten := by
  refine .block (by decide) (by decide) (.flatten ?_)
  exact .cons (Grid.sameTags_primaryCell _ _) (.cons (Grid.sameTags_cell _ _) .nil)

theorem sameTags_table {ownClass label : String} (hclass : Plain ownClass) (hlabel : Plain label)
    (headers : List String) {rows rows' : List Line} (h : SameTags rows.flatten rows'.flatten) :
    SameTags (table ownClass label headers rows).flatten
      (table ownClass label headers rows').flatten := by
  have hlabels : SameTags (headers.map Grid.header).flatten (headers.map Grid.header).flatten :=
    .refl fun p hp => by
      obtain ⟨line, hline, hp⟩ := List.mem_flatten.1 hp
      obtain ⟨label, -, rfl⟩ := List.mem_map.1 hline
      exact (Grid.sameTags_header label label).plain p hp
  have hopening : SameTags [.opening "thead" [], .opening "tr" []]
      [.opening "thead" [], .opening "tr" []] := .refl (by decide)
  have hclosing : SameTags [.closing "tr", .closing "thead"] [.closing "tr", .closing "thead"] :=
    .refl (by decide)
  have hbody : SameTags (block "tbody" [] rows).flatten (block "tbody" [] rows').flatten :=
    .block (by decide) (by decide) h
  refine Grid.sameTags_table hclass hlabel ?_
  simpa using (hopening.append hlabels).append (hclosing.append hbody)

theorem sameTags_lines {config : RenderConfig} (hconfig : config.Plain)
    {entries entries' : List Entry} {rules rules' : List (Rule × SymbolSet)}
    (hentries : entries.length = entries'.length) (hrules : rules.length = rules'.length) :
    SameTags (lines config entries rules).flatten (lines config entries' rules').flatten := by
  refine .block (by decide) (plainAttributes_classes hconfig.setsClasses) ?_
  rw [List.flatten_append, List.flatten_append]
  refine (sameTags_table (by decide) (by decide) _ ?_).append
    (sameTags_table (by decide) (by decide) _ ?_)
  · exact .flatten_flatMap (forall₂_of_length_eq sameTags_variableRow hentries)
  · exact .flatten_flatMap (forall₂_of_length_eq (fun _ _ => sameTags_ruleRow _ _ _ _) hrules)

end SetsPage

namespace TracePage

theorem sameTags_row (config : RenderConfig) {step step' : Step}
    (h : step.action = step'.action) :
    SameTags (row config step).flatten (row config step').flatten := by
  have hclass : Plain (step.action.word ++ "-step") := by
    cases step.action <;> decide
  have haction : Plain ("grammar-action-" ++ step.action.word) := by
    cases step.action <;> decide
  rw [row, row, ← h]
  refine .block (by decide) (plainAttributes_classes hclass) (.flatten ?_)
  refine .cons (Grid.sameTags_cellWith (by decide) (.text _ _)) ?_
  refine .cons (Grid.sameTags_cellWith (by decide) (.text _ _)) ?_
  refine .cons (Grid.sameTags_cellWith (by decide) (.text _ _)) ?_
  refine .cons (Grid.sameTags_cellWith (by decide) ?_) ?_
  · exact .textElement (by decide) (plainAttributes_classes haction) _ _
  · exact .cons (Grid.sameTags_cellWith (by decide) (.text _ _)) .nil

theorem sameTags_lines {config : RenderConfig} (hconfig : config.Plain) (title title' : String)
    {steps steps' : List Step} (h : steps.map (·.action) = steps'.map (·.action)) :
    SameTags (lines config title steps).flatten (lines config title' steps').flatten := by
  have hempty : steps.isEmpty = steps'.isEmpty := by
    have hlength := congrArg List.length h
    cases steps <;> cases steps' <;> simp_all
  unfold lines
  rw [← hempty]
  split
  · refine .block (by decide) (plainAttributes_classes hconfig.errorClasses) (.flatten ?_)
    exact .cons (.textElement (by decide) (by decide) _ _) .nil
  have hrows : SameTags (steps.flatMap (row config)).flatten
      (steps'.flatMap (row config)).flatten :=
    .flatten_flatMap ((forall₂_of_map_eq h).imp fun _ _ => sameTags_row config)
  refine .block (by decide) (plainAttributes_classes hconfig.traceClasses) ?_
  rw [List.flatten_cons, List.flatten_cons]
  refine (SameTags.textElement (by decide) (by decide) title title').append ?_
  refine Grid.sameTags_table (by decide) (by decide) ?_
  rw [List.flatten_append, List.flatten_append]
  exact (SameTags.refl (by decide)).append (.block (by decide) (by decide) hrows)

end TracePage

namespace FailurePage

/-- Dots are no tags. -/
theorem sameTags_dots (hidden hidden' : Bool) :
    SameTags (dots hidden).flatten (dots hidden').flatten := by
  cases hidden with
  | true =>
    cases hidden' with
    | true => exact .text _ _
    | false => exact .left _ .nil
  | false =>
    cases hidden' with
    | true => exact .right _ .nil
    | false => exact .nil

theorem sameTags_strongParagraph (heading heading' : String) :
    SameTags (strongParagraph heading) (strongParagraph heading') :=
  .element (by decide) (by decide) (.textElement (by decide) (by decide) heading heading')

theorem sameTags_contextLines (context context' : Context) (position position' : Nat) :
    SameTags (contextLines context position).flatten (contextLines context' position').flatten := by
  have htokens : SameTags
      [[.text (Text.unwords context.before)],
        textElement "span" (classes "error-position") context.offending,
        [.text (Text.unwords context.after)]].flatten
      [[.text (Text.unwords context'.before)],
        textElement "span" (classes "error-position") context'.offending,
        [.text (Text.unwords context'.after)]].flatten :=
    .flatten (.cons (.text _ _) (.cons (.textElement (by decide) (by decide) _ _)
      (.cons (.text _ _) .nil)))
  refine .block (by decide) (by decide) ?_
  rw [List.flatten_append, List.flatten_append, List.flatten_cons, List.flatten_cons]
  refine ((sameTags_strongParagraph _ _).append (.block (by decide) (by decide) ?_)).append
    (.flatten (.cons (.textElement (by decide) (by decide) _ _) .nil))
  rw [List.flatten_append, List.flatten_append, List.flatten_append, List.flatten_append]
  exact ((sameTags_dots _ _).append htokens).append (sameTags_dots _ _)

/-- The context of the offending token is shown. -/
def HasContext (position : Int) (tokens : Option (List String)) : Prop :=
  0 ≤ position ∧ tokens.isSome

/-- The lines of a document are a heading, the message and, if there is a context, that. -/
theorem exists_context (config : RenderConfig) (message : String) (position : Int)
    (tokens : Option (List String)) (reach : Int) :
    ∃ context : List Line,
      lines config message position tokens reach = (if config.inlineStyles then styles else []) ++
        block "div" (classes config.errorClasses) (textElement "h4" [] "Parse Error" ::
          textElement "p" (classes "error-text") message :: context) ∧
      (HasContext position tokens → ∃ shown place, context = contextLines shown place) ∧
      (¬HasContext position tokens → context = []) := by
  refine ⟨_, rfl, ?_⟩
  match position, tokens with
  | .ofNat n, some tokens =>
    exact ⟨fun _ => ⟨_, n, rfl⟩, fun h => absurd ⟨Int.natCast_nonneg n, rfl⟩ h⟩
  | .ofNat n, none => exact ⟨fun h => absurd h.2 (by simp), fun _ => rfl⟩
  | .negSucc n, _ => exact ⟨fun h => absurd h.1 (by omega), fun _ => rfl⟩

theorem sameTags_lines {config : RenderConfig} (hconfig : config.Plain) (message message' : String)
    {position position' : Int} {tokens tokens' : Option (List String)}
    (h : HasContext position tokens ↔ HasContext position' tokens') (reach reach' : Int) :
    SameTags (lines config message position tokens reach).flatten
      (lines config message' position' tokens' reach').flatten := by
  obtain ⟨context, hlines, hshown, hnone⟩ := exists_context config message position tokens reach
  obtain ⟨context', hlines', hshown', hnone'⟩ :=
    exists_context config message' position' tokens' reach'
  have hcontext : SameTags context.flatten context'.flatten := by
    by_cases hhas : HasContext position tokens
    · obtain ⟨shown, place, rfl⟩ := hshown hhas
      obtain ⟨shown', place', rfl⟩ := hshown' (h.1 hhas)
      exact sameTags_contextLines shown shown' place place'
    · rw [hnone hhas, hnone' (mt h.2 hhas)]
      exact .nil
  rw [hlines, hlines', List.flatten_append, List.flatten_append]
  refine (config.sameTags_styles (by decide)).append ?_
  refine .block (by decide) (plainAttributes_classes hconfig.errorClasses) ?_
  rw [List.flatten_cons, List.flatten_cons, List.flatten_cons, List.flatten_cons]
  refine (SameTags.textElement (by decide) (by decide) _ _).append ?_
  exact (SameTags.textElement (by decide) (by decide) _ _).append hcontext

theorem sameTags_collisionLines (number number' : Nat) (c c' : Collision) :
    SameTags (collisionLines number c).flatten (collisionLines number' c').flatten := by
  refine .block (by decide) (by decide) ?_
  rw [List.flatten_append, List.flatten_append]
  refine (SameTags.flatten ?_).append (.block (by decide) (by decide) (.flatten ?_))
  · refine .cons (.textElement (by decide) (by decide) _ _) (.cons ?_ (.cons ?_ .nil))
    · refine .element (by decide) (by decide) ?_
      exact (SameTags.textElement (by decide) (by decide) _ _).append (.text _ _)
    · exact sameTags_strongParagraph _ _
  · exact .cons (.textElement (by decide) (by decide) _ _)
      (.cons (.textElement (by decide) (by decide) _ _) .nil)

theorem sameTags_reportLines (config : RenderConfig) {collisions collisions' : List Collision}
    (h : collisions.length = collisions'.length) :
    SameTags (reportLines config collisions).flatten (reportLines config collisions').flatten := by
  have hempty : collisions.isEmpty = collisions'.isEmpty := by
    cases collisions <;> cases collisions' <;> simp_all
  have hnumbered : (collisions.zipIdx 1).length = (collisions'.zipIdx 1).length := by
    simpa using h
  unfold reportLines
  rw [← hempty]
  split
  · exact .flatten (.cons (.textElement (by decide) (by decide) _ _) .nil)
  rw [List.flatten_append, List.flatten_append]
  refine (config.sameTags_styles (by decide)).append (.block (by decide) (by decide) ?_)
  rw [List.flatten_cons, List.flatten_cons]
  refine (SameTags.textElement (by decide) (by decide) _ _).append ?_
  exact .flatten_flatMap (forall₂_of_length_eq (fun _ _ => sameTags_collisionLines _ _ _ _)
    hnumbered)

end FailurePage

/-! How many rows and entries there are for a grammar. -/

namespace Analysis

/-- There is an answer for each element. -/
theorem length_of_forEach {α β : Type} {f : α → Analysis β} {xs : List α} :
    Ensures (fun _ => True) (forEach f xs) (fun ys => ys.length = xs.length) fun _ => True := by
  have hany : ∀ x ∈ xs, Keeps (fun _ => True) (f x) := fun x _ => keeps_true (f x)
  exact (Ensures.forEach hany).mono_value fun ys h => h.length_eq.symm

end Analysis

namespace Grammar

open Analysis (Ensures length_of_forEach)

/-- The table has a row for each variable, whether it has been remembered or is built. -/
theorem length_of_table {g : Grammar} {memo : Memo} (hmemo : memo.Exact g) {t : Table}
    (h : (g.table.runFrom memo).1 = .ok t) : t.rows.length = g.nonterminals.length := by
  have hbuilt : Ensures (fun _ => True) g.buildTable
      (fun built => built.rows.length = g.nonterminals.length) fun _ => True :=
    length_of_forEach.bind fun rows hrows => .pure hrows
  rw [table, Analysis.runFrom_bind, Analysis.runFrom_lookUp] at h
  cases hknown : memo.table with
  | some known =>
    simp only [hknown] at h
    cases h
    exact (hmemo.table t hknown).2.length_eq.symm
  | none =>
    simp only [hknown] at h
    rcases hrun : g.buildTable.runFrom memo with ⟨outcome, after⟩
    cases outcome with
    | ok built =>
      rw [Analysis.runFrom_bind_of_ok hrun] at h
      cases h
      exact hbuilt.value_of_run trivial (congrArg Prod.fst hrun)
    | error e =>
      rw [Analysis.runFrom_bind_of_error hrun] at h
      cases h

end Grammar

namespace SetsPage

open Analysis (Ensures length_of_forEach)

/-- The document of the sets has an entry for each variable and one for each rule. -/
theorem html_ensures (config : RenderConfig) (g : Grammar) :
    Ensures (fun _ => True) (html config g)
      (fun page => ∃ entries rules, entries.length = g.nonterminals.length ∧
        rules.length = g.rules.length ∧ page = render (lines config entries rules))
      fun _ => True := by
  have hentries : Ensures (fun _ => True) (entries g)
      (fun found => found.length = g.nonterminals.length) fun _ => True := by
    refine length_of_forEach.bind fun firsts hfirsts => ?_
    refine length_of_forEach.bind fun follows hfollows => ?_
    refine length_of_forEach.bind fun empties hempties => .pure ?_
    simp [hfirsts, hfollows, hempties]
  refine hentries.bind fun found hfound => ?_
  exact length_of_forEach.bind fun rules hrules => .pure ⟨found, rules, hfound, hrules, rfl⟩

end SetsPage

namespace RenderConfig

variable (config : RenderConfig)

/-- The documents that are written with the settings. -/
inductive Writes : String → Prop where
  | tablePage {g : Grammar} {memo : Memo} {page : String}
      (written : ((TablePage.html config g).runFrom memo).1 = .ok page) : Writes page
  | setsPage {g : Grammar} {memo : Memo} {page : String}
      (written : ((SetsPage.html config g).runFrom memo).1 = .ok page) : Writes page
  | tracePage (title : String) (steps : List Step) : Writes (TracePage.html config title steps)
  | failurePage (message : String) (position : Int) (tokens : Option (List String)) (reach : Int) :
      Writes (FailurePage.html config message position tokens reach)
  | report (collisions : List Collision) : Writes (FailurePage.report config collisions)

/-- The tags of documents are settled by the shape of what they are about, and every ampersand in
them is the beginning of an entity. -/
structure Unalterable : Prop where
  /-- Of the table: how many terminals there are, and which cells are filled in each row. -/
  tablePage : ∀ (text text' : String) (g g' : Grammar) (memo memo' : Memo) (t t' : Table)
    (page page' : String),
    Grammar.ofText text = .ok g → Grammar.ofText text' = .ok g' →
    g.Reachable memo → g'.Reachable memo' →
    (g.table.runFrom memo).1 = .ok t → (g'.table.runFrom memo').1 = .ok t' →
    g.terminals.toList.length = g'.terminals.toList.length →
    TablePage.filled g.nonterminals g.terminals.toList t =
      TablePage.filled g'.nonterminals g'.terminals.toList t' →
    ((TablePage.html config g).runFrom memo).1 = .ok page →
    ((TablePage.html config g').runFrom memo').1 = .ok page' → tags page = tags page'
  /-- Of the sets: how many variables and rules there are. -/
  setsPage : ∀ (g g' : Grammar) (memo memo' : Memo) (page page' : String),
    g.nonterminals.length = g'.nonterminals.length → g.rules.length = g'.rules.length →
    ((SetsPage.html config g).runFrom memo).1 = .ok page →
    ((SetsPage.html config g').runFrom memo').1 = .ok page' → tags page = tags page'
  /-- Of a trace: what was done in each step. -/
  tracePage : ∀ (title title' : String) (steps steps' : List Step),
    steps.map (·.action) = steps'.map (·.action) →
    tags (TracePage.html config title steps) = tags (TracePage.html config title' steps')
  /-- Of a refused input: whether there is a context. -/
  failurePage : ∀ (message message' : String) (position position' : Int)
    (tokens tokens' : Option (List String)) (reach reach' : Int),
    (FailurePage.HasContext position tokens ↔ FailurePage.HasContext position' tokens') →
    tags (FailurePage.html config message position tokens reach) =
      tags (FailurePage.html config message' position' tokens' reach')
  /-- Of a report: how many collisions there are. -/
  report : ∀ collisions collisions' : List Collision, collisions.length = collisions'.length →
    tags (FailurePage.report config collisions) = tags (FailurePage.report config collisions')
  /-- Whatever is written, and wherever a long text was cut off. -/
  entities : ∀ page, config.Writes page → EntitiesComplete page.toList

variable {config}

/-- With plain classes in the settings, no spelling of a name, a symbol, a rule, a token, a message
or a title alters the markup of a document. -/
theorem unalterable (h : config.Plain) : config.Unalterable where
  tablePage text text' g g' memo memo' t t' page page' hread hread' hmemo hmemo' ht ht' hterminals
      hfilled hpage hpage' := by
    have hexact := hmemo.exact (Grammar.wellFormed_ofText hread)
    have hexact' := hmemo'.exact (Grammar.wellFormed_ofText hread')
    obtain ⟨_, hsame, rfl⟩ := TablePage.exists_table_of_html hpage
    obtain ⟨_, hsame', rfl⟩ := TablePage.exists_table_of_html hpage'
    cases ht.symm.trans hsame
    cases ht'.symm.trans hsame'
    have hvariables : g.nonterminals.length = g'.nonterminals.length := by
      simpa [TablePage.filled] using congrArg List.length hfilled
    have hrows : t.rows.isEmpty = t'.rows.isEmpty := by
      rw [Bool.eq_iff_iff, List.isEmpty_iff_length_eq_zero, List.isEmpty_iff_length_eq_zero,
        Grammar.length_of_table hexact ht, Grammar.length_of_table hexact' ht', hvariables]
    exact (TablePage.sameTags_lines h hrows hterminals hfilled).tags_render
  setsPage g g' memo memo' page page' hnonterminals hrules hpage hpage' := by
    obtain ⟨entries, rules, hentries, hlength, rfl⟩ :=
      (SetsPage.html_ensures config g).value_of_run trivial hpage
    obtain ⟨entries', rules', hentries', hlength', rfl⟩ :=
      (SetsPage.html_ensures config g').value_of_run trivial hpage'
    refine (SetsPage.sameTags_lines h ?_ ?_).tags_render
    · rw [hentries, hentries', hnonterminals]
    · rw [hlength, hlength', hrules]
  tracePage title title' steps steps' hactions :=
    (TracePage.sameTags_lines h title title' hactions).tags_render
  failurePage message message' position position' tokens tokens' reach reach' hcontext :=
    (FailurePage.sameTags_lines h message message' hcontext reach reach').tags_render
  report collisions collisions' hlength :=
    (FailurePage.sameTags_reportLines config hlength).tags_render
  entities := by
    intro page hpage
    cases hpage with
    | tablePage written =>
      obtain ⟨t, -, rfl⟩ := TablePage.exists_table_of_html written
      exact entitiesComplete_render (TablePage.sameTags_lines h rfl rfl rfl).plain
    | setsPage written =>
      obtain ⟨entries, rules, -, -, rfl⟩ :=
        (SetsPage.html_ensures config _).value_of_run trivial written
      exact entitiesComplete_render (SetsPage.sameTags_lines h rfl rfl).plain
    | tracePage title steps =>
      exact entitiesComplete_render (TracePage.sameTags_lines h title title rfl).plain
    | failurePage message position tokens reach =>
      exact entitiesComplete_render
        (FailurePage.sameTags_lines h message message Iff.rfl reach reach).plain
    | report collisions =>
      exact entitiesComplete_render (FailurePage.sameTags_reportLines config rfl).plain

end RenderConfig

/-- A variable whose one rule is a single terminal. -/
def Grammar.oneCell (v terminal : Symbol) : Grammar :=
  .ofProductions ⟨v, [terminal]⟩ []

open Grammar (oneCell)

/-- A terminal that is spelled like a tag. -/
theorem RenderConfig.unalterable_of_oneCell :
    RenderConfig.Plain {} ∧ Grammar.ofText "S = a" = .ok (oneCell "S" "a") ∧
      Grammar.ofText "T = <b>" = .ok (oneCell "T" "<b>") ∧
      ∃ page page', ((TablePage.html {} (oneCell "S" "a")).runFrom {}).1 = .ok page ∧
        ((TablePage.html {} (oneCell "T" "<b>")).runFrom {}).1 = .ok page' ∧
        tags page = tags page' ∧ EntitiesComplete page'.toList := by
  have hplain : RenderConfig.Plain {} := by constructor <;> decide
  have hread : Grammar.ofText "S = a" = .ok (oneCell "S" "a") := rfl
  have hread' : Grammar.ofText "T = <b>" = .ok (oneCell "T" "<b>") := rfl
  have hfilled : ((oneCell "S" "a").table.runFrom {}).1.map
      (TablePage.filled (oneCell "S" "a").nonterminals (oneCell "S" "a").terminals.toList) =
        .ok [[true, false]] := by cbv
  have hfilled' : ((oneCell "T" "<b>").table.runFrom {}).1.map
      (TablePage.filled (oneCell "T" "<b>").nonterminals (oneCell "T" "<b>").terminals.toList) =
        .ok [[true, false]] := by cbv
  have hterminals : (oneCell "S" "a").terminals.toList.length =
      (oneCell "T" "<b>").terminals.toList.length := by cbv
  obtain ⟨t, page, ht, hcells, hpage⟩ := TablePage.exists_html_of_filled hfilled {}
  obtain ⟨t', page', ht', hcells', hpage'⟩ := TablePage.exists_html_of_filled hfilled' {}
  refine ⟨hplain, hread, hread', page, page', hpage, hpage', ?_, ?_⟩
  · exact (RenderConfig.unalterable hplain).tablePage _ _ _ _ {} {} t t' page page' hread hread'
      .new .new ht ht' hterminals (hcells.trans hcells'.symm) hpage hpage'
  · exact (RenderConfig.unalterable hplain).entities page' (.tablePage hpage')

end Predictive
