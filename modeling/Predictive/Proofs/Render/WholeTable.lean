import Predictive.Proofs.Render.Cells
import Predictive.Proofs.Render.Shape
import Predictive.Proofs.Disjointness
import Predictive.Proofs.Grammar.Declarations
import Predictive.Proofs.Outcomes

/-!
# The document of a table shows the whole table

The columns of the document come from the terminals of the grammar, the entries of the table from
the sets that select its rules. They meet because every key of a row is a terminal or the reserved
one (`Table.Exact.mem_columns`). So the rows that are read off the document hold the text of each
entry, and as many filled cells as there are entries (`TablePage.shows_table`). This holds for
tables with overwritten entries too, and whatever the classes in the settings do to the text in
front of the header.
-/

namespace Predictive

open Markup

namespace Markup

/-- The names of the elements that rows are made of. -/
def rowElements : List String := ["tr", "th", "td", "span"]

/-- The piece can stand in a row. -/
def Piece.InRow : Piece → Prop
  | .opening name _ => name ∈ rowElements
  | .closing name => name ∈ rowElements
  | .text _ => True

/-- Pieces in rows neither begin nor end a part of a table. -/
theorem Piece.InRow.name?_ne {p : Piece} (h : p.InRow) {name : String}
    (hname : name ∈ ["thead", "tbody"]) :
    p.name? ≠ some name ∧ p.name? ≠ some ("/" ++ name) := by
  have hspace : ∀ element ∈ rowElements, ' ' ∉ element.toList := by decide
  have hparts : ∀ part ∈ ["thead", "tbody"], part ∉ rowElements ∧ "/" ++ part ∉ rowElements ∧
      ∀ element ∈ rowElements, "/" ++ element ≠ part ∧ "/" ++ element ≠ "/" ++ part := by
    decide
  obtain ⟨hopened, hclosed, hends⟩ := hparts name hname
  cases p with
  | text content => exact ⟨nofun, nofun⟩
  | opening element attributes =>
    rw [Piece.name?_opening (hspace element h), Option.some_inj.ne, Option.some_inj.ne]
    exact ⟨fun heq => hopened (heq ▸ h), fun heq => hclosed (heq ▸ h)⟩
  | closing element =>
    rw [Piece.name?_closing (hspace element h), Option.some_inj.ne, Option.some_inj.ne]
    exact hends element h

theorem inRow_element {name : String} (hname : name ∈ rowElements)
    (attributes : List (String × String)) {content : Line} (h : ∀ p ∈ content, p.InRow) :
    ∀ p ∈ element name attributes content, p.InRow := by
  intro p hp
  rcases List.mem_cons.1 hp with rfl | hp
  · exact hname
  rcases List.mem_append.1 hp with hp | hp
  · exact h p hp
  · exact List.mem_singleton.1 hp ▸ hname

theorem inRow_textElement {name : String} (hname : name ∈ rowElements)
    (attributes : List (String × String)) (content : String) :
    ∀ p ∈ textElement name attributes content, p.InRow :=
  inRow_element hname attributes fun _ hp => List.mem_singleton.1 hp ▸ trivial

/-- Lines with pieces that can stand in a row make up a row of such pieces. -/
theorem inRow_row {cells : List Line} (h : ∀ line ∈ cells, ∀ p ∈ line, p.InRow) :
    ∀ p ∈ (block "tr" [] cells).flatten, p.InRow := by
  rw [flatten_block]
  refine inRow_element (by decide) [] fun p hp => ?_
  obtain ⟨line, hline, hp⟩ := List.mem_flatten.1 hp
  exact h line hline p hp

end Markup

/-- The keys that the columns of a table are for. -/
def Grammar.columns (g : Grammar) : List Symbol :=
  g.terminals.toList ++ [emptyMarker]

theorem Grammar.WellFormed.nodup_columns {g : Grammar} (wf : g.WellFormed) : g.columns.Nodup := by
  refine List.nodup_append.2 ⟨SymbolSet.nodup_toList _, List.nodup_singleton _, ?_⟩
  rintro s hs _ hmarker rfl
  have hterminal : g.isTerminal s := Std.ExtTreeSet.mem_toList.1 hs
  exact wf.isTerminal_ne_emptyMarker hterminal (List.mem_singleton.1 hmarker)

namespace Table

/-- Rows with different names are found by these. -/
theorem eq_map_lookup {rows : List (Symbol × Row)} (h : (rows.map Prod.fst).Nodup) :
    rows = (rows.map Prod.fst).map fun v => (v, (rows.lookup v).getD ∅) := by
  induction rows with
  | nil => rfl
  | cons entry rows ih =>
    obtain ⟨v, row⟩ := entry
    rw [List.map_cons, List.nodup_cons] at h
    have hothers : ∀ w ∈ rows.map Prod.fst, List.lookup w ((v, row) :: rows) = rows.lookup w := by
      intro w hw
      have hne : (w == v) = false := beq_eq_false_iff_ne.2 fun heq => h.1 (heq ▸ hw)
      rw [List.lookup_cons, hne]
    rw [List.map_cons, List.map_cons, List.lookup_cons_self, Option.getD_some]
    refine congrArg _ ?_
    conv_lhs => rw [ih h.2]
    exact List.map_congr_left fun w hw => by rw [hothers w hw]

namespace Exact

variable {g : Grammar} {t : Table}

/-- The rows are those of the variables, in their order. -/
theorem rows_eq (h : t.Exact g) : t.rows = g.nonterminals.map fun v => (v, t.row v) := by
  have hnames : t.rows.map Prod.fst = g.nonterminals := by
    have hsame : List.Forall₂ (fun v entry => v = Prod.fst entry) g.nonterminals t.rows :=
      List.Forall₂.imp (fun _ _ hentry => hentry.1.symm) h
    rw [← List.forall₂_eq_eq_eq, List.forall₂_map_left_iff]
    exact hsame.flip.imp fun _ _ heq => heq.symm
  have hnodup : (t.rows.map Prod.fst).Nodup := hnames ▸ Grammar.nodup_nonterminals
  conv_lhs => rw [eq_map_lookup hnodup, hnames]
  rfl

/-- The variable of an entry is declared, and its key is a terminal or the reserved one. -/
theorem mem_columns (h : t.Exact g) {v key : Symbol} (hkey : key ∈ t.row v) :
    v ∈ g.nonterminals ∧ key ∈ g.columns := by
  obtain ⟨r, hr, hentered⟩ := h.mem_row_iff.1 hkey
  refine ⟨Grammar.mem_nonterminals.2 ⟨r, Grammar.mem_alternatives.1 hr⟩, ?_⟩
  rw [Grammar.columns, List.mem_append, List.mem_singleton]
  rcases hentered with hselects | ⟨rfl, -⟩
  · exact .inl (Std.ExtTreeSet.mem_toList.2 hselects.isTerminal)
  · exact .inr rfl

/-- So a row has as many entries as there are columns with one. -/
theorem size_row (wf : g.WellFormed) (h : t.Exact g) (v : Symbol) :
    (t.row v).size = g.columns.countP (· ∈ t.row v) := by
  rw [List.countP_eq_length_filter]
  refine Row.size_eq_length (wf.nodup_columns.filter _) fun key => ?_
  rw [List.mem_filter, decide_eq_true_eq]
  exact ⟨fun hkey => ⟨(h.mem_columns hkey).2, hkey⟩, fun hkey => hkey.2⟩

end Exact

end Table

/-- What is found in an escaped text shows that it has a character. -/
theorem Markup.escape_ne_empty {text : String} (h : '=' ∈ text.toList) : escape text ≠ "" := by
  intro hempty
  have hmem : '=' ∈ (escape text).toList := by
    rw [escape, String.toList_ofList, List.mem_flatMap]
    exact ⟨'=', h, by simp [escapeChar]⟩
  rw [hempty] at hmem
  simp at hmem

namespace TablePage

/-! The cells of the document. -/

/-- What a cell shows of an entry: the rule, or nothing where there is none. -/
def shown : Option Rule → String
  | none => ""
  | some r => escape r.text

/-- The text of a rule is never blank, so a cell is blank just where there is no entry. -/
theorem shown_ne_empty_iff {row : Row} {key : Symbol} : shown row[key]? ≠ "" ↔ key ∈ row := by
  rw [Std.ExtTreeMap.mem_iff_isSome_getElem?]
  cases row[key]? with
  | none => simp [shown]
  | some r =>
    have htext : '=' ∈ r.text.toList := by simp [Production.text]
    simpa [shown] using escape_ne_empty htext

theorem readsAs_cell (entry : Option Rule) : ReadsAs (cell entry) (shown entry) := by
  cases entry with
  | none => exact readsAs_element (.inr rfl) _ (by simp)
  | some r =>
    have htexts : texts (textElement "span" (classes "expand-action") r.text) = shown (some r) := by
      simp [texts, textElement, element, shown]
    have hspan (attributes : List (String × String)) :
        (Piece.opening "span" attributes).name? = some "span" :=
      Piece.name?_opening (by decide) attributes
    have hend : (Piece.closing "span").name? = some "/span" := Piece.name?_closing (by decide)
    have htext : (Piece.text r.text).name? = none := rfl
    rw [← htexts]
    refine readsAs_element (.inr rfl) _ ?_
    simp [textElement, element, hspan, hend, htext, gridNames]

/-- The cells above the columns. -/
def headerCells (terminals : List Symbol) : List Line :=
  Grid.primaryHeader "Nonterminal" :: terminals.map Grid.header ++
    [Grid.headerWith " end-marker" Grid.endLabel]

/-- The cells of the row of a variable. -/
def rowCells (columns : List Symbol) (v : Symbol) (entries : Row) : List Line :=
  Grid.primaryCell v :: columns.map fun column => cell entries[column]?

theorem readsAs_headerCells (terminals : List Symbol) :
    List.Forall₂ ReadsAs (headerCells terminals)
      ("Nonterminal" :: terminals.map escape ++ ["$"]) := by
  have hlabels : List.Forall₂ ReadsAs (terminals.map Grid.header) (terminals.map escape) := by
    rw [List.forall₂_map_left_iff, List.forall₂_map_right_iff, List.forall₂_same]
    exact fun label _ => readsAs_textElement (.inl rfl) _ label
  have hfirst : ReadsAs (Grid.primaryHeader "Nonterminal") (escape "Nonterminal") :=
    readsAs_textElement (.inl rfl) _ _
  have hlast : ReadsAs (Grid.headerWith " end-marker" Grid.endLabel) (escape "$") :=
    readsAs_textElement (.inl rfl) _ _
  have hplain : escape "Nonterminal" = "Nonterminal" ∧ escape "$" = "$" := by decide
  rw [hplain.1] at hfirst
  rw [hplain.2] at hlast
  exact List.rel_append (.cons hfirst hlabels) (.cons hlast .nil)

theorem readsAs_rowCells (columns : List Symbol) (v : Symbol) (entries : Row) :
    List.Forall₂ ReadsAs (rowCells columns v entries)
      (escape v :: columns.map fun column => shown entries[column]?) := by
  refine .cons (readsAs_textElement (.inr rfl) _ v) ?_
  rw [List.forall₂_map_left_iff, List.forall₂_map_right_iff, List.forall₂_same]
  exact fun column _ => readsAs_cell entries[column]?

theorem inRow_headerCells {terminals : List Symbol} :
    ∀ line ∈ headerCells terminals, ∀ p ∈ line, p.InRow := by
  have hheader (further label : String) : ∀ p ∈ Grid.headerWith further label, p.InRow :=
    inRow_textElement (by decide) _ label
  have hlabels : ∀ line ∈ terminals.map Grid.header, ∀ p ∈ line, p.InRow := by
    intro line hline
    obtain ⟨label, -, rfl⟩ := List.mem_map.1 hline
    exact hheader "" label
  refine List.forall_mem_append.2 ⟨List.forall_mem_cons.2 ⟨hheader _ _, hlabels⟩, ?_⟩
  exact List.forall_mem_singleton.2 (hheader _ _)

theorem inRow_rowCells {columns : List Symbol} {v : Symbol} {entries : Row} :
    ∀ line ∈ rowCells columns v entries, ∀ p ∈ line, p.InRow := by
  have hcell (entry : Option Rule) : ∀ p ∈ cell entry, p.InRow := by
    cases entry with
    | none => exact inRow_element (by decide) _ (by simp)
    | some r => exact inRow_element (by decide) _ (inRow_textElement (by decide) _ _)
  refine List.forall_mem_cons.2 ⟨inRow_textElement (by decide) _ v, fun line hline => ?_⟩
  obtain ⟨column, -, rfl⟩ := List.mem_map.1 hline
  exact hcell entries[column]?

/-! The two parts of the document. -/

section Parts

variable {config : RenderConfig} {nonterminals terminals : List Symbol} {t : Table}

/-- What stands in front of the header. -/
def prelude (config : RenderConfig) : List Line :=
  (if config.inlineStyles then styles else []) ++
    [[.opening "table" [("class", "grammar-table " ++ config.tableClasses), ("role", "table"),
      ("aria-label", "LL(1) predictive parsing table")]]]

/-- The rows of all variables. -/
def body (nonterminals terminals : List Symbol) (t : Table) : List Line :=
  nonterminals.flatMap fun v => row (terminals ++ [emptyMarker]) v (t.row v)

theorem lines_eq (h : t.rows ≠ []) :
    lines config nonterminals terminals t =
      prelude config ++ (header terminals ++
        (block "tbody" [] (body nonterminals terminals t) ++ [[.closing "table"]])) := by
  have hempty : t.rows.isEmpty = false := by simpa using h
  simp [lines, hempty, prelude, Grid.table, block, body]

theorem plain_header : ∀ p ∈ (header terminals).flatten, p.Plain :=
  (sameTags_header rfl).plain

theorem plain_body : ∀ p ∈ (block "tbody" [] (body nonterminals terminals t)).flatten, p.Plain := by
  have hrows : SameTags (body nonterminals terminals t).flatten
      (body nonterminals terminals t).flatten :=
    .flatten_flatMap (List.forall₂_same.2 fun v _ => sameTags_row rfl v v)
  exact (SameTags.block (by decide) (by decide) hrows).plain

theorem inRow_body : ∀ p ∈ (body nonterminals terminals t).flatten, p.InRow := by
  intro p hp
  obtain ⟨line, hline, hp⟩ := List.mem_flatten.1 hp
  obtain ⟨v, -, hline⟩ := List.mem_flatMap.1 hline
  exact inRow_row inRow_rowCells p (List.mem_flatten.2 ⟨line, hline, hp⟩)

/-- The header is read off the document. -/
theorem rowsIn_thead (h : t.rows ≠ []) :
    rowsIn "thead" (render (lines config nonterminals terminals t)) =
      ["Nonterminal" :: terminals.map escape ++ ["$"]] := by
  have hclosing : (Piece.closing "table").Plain := by decide
  rw [lines_eq h]
  refine rowsIn_render (by decide) (prelude config) ?_ ?_ ?_
    (readsAsRows_block (readsAs_headerCells terminals) [])
  · rw [List.flatten_append, List.flatten_append]
    refine List.forall_mem_append.2 ⟨plain_header, List.forall_mem_append.2 ⟨plain_body, ?_⟩⟩
    exact List.forall_mem_singleton.2 hclosing
  · exact fun p hp => (inRow_row inRow_headerCells p hp).name?_ne (by simp)
  · have hopening : (Piece.opening "tbody" []).name? ≠ some "thead" := by decide
    have hends : (Piece.closing "tbody").name? ≠ some "thead" ∧
        (Piece.closing "table").name? ≠ some "thead" := by decide
    rw [List.flatten_append, flatten_block]
    refine List.forall_mem_append.2 ⟨List.forall_mem_cons.2 ⟨hopening, ?_⟩, ?_⟩
    · refine List.forall_mem_append.2 ⟨fun p hp => ?_, List.forall_mem_singleton.2 hends.1⟩
      exact ((inRow_body p hp).name?_ne (by simp)).1
    · exact List.forall_mem_singleton.2 hends.2

/-- So are the rows of the variables. -/
theorem rowsIn_tbody (h : t.rows ≠ []) :
    rowsIn "tbody" (render (lines config nonterminals terminals t)) =
      nonterminals.map fun v =>
        escape v :: (terminals ++ [emptyMarker]).map fun column => shown (t.row v)[column]? := by
  have hclosing : (Piece.closing "table").Plain := by decide
  rw [lines_eq h, ← List.append_assoc]
  refine rowsIn_render (by decide) (prelude config ++ header terminals) ?_ ?_ ?_ ?_
  · rw [List.flatten_append]
    exact List.forall_mem_append.2 ⟨plain_body, List.forall_mem_singleton.2 hclosing⟩
  · exact fun p hp => (inRow_body p hp).name?_ne (by simp)
  · exact List.forall_mem_singleton.2 (by decide)
  · exact readsAsRows_flatMap fun v _ => readsAsRows_block (readsAs_rowCells _ v (t.row v)) []

end Parts

/-! What the document shows of the table. -/

/-- The cell in a row and a column of a document, both counted from zero and the names of the
variables left out. -/
def cellAt (page : String) (i j : Nat) : Option String :=
  ((rowsIn "tbody" page)[i]?).bind (·[j + 1]?)

/-- The cells of a document with a text, the names of the variables left out. -/
def filledCount (page : String) : Nat :=
  ((rowsIn "tbody" page).map fun cells => cells.tail.countP (· ≠ "")).sum

/-- The document has a row for each variable and a column for each terminal and the end of the
input, and its cells show the entries of the table, all of them. -/
structure ShowsTable (g : Grammar) (t : Table) (page : String) : Prop where
  header : rowsIn "thead" page = ["Nonterminal" :: g.terminals.toList.map escape ++ ["$"]]
  rows : (rowsIn "tbody" page).map (·.head?) = g.nonterminals.map fun v => some (escape v)
  widths : ∀ cells ∈ rowsIn "tbody" page, cells.length = g.columns.length + 1
  /-- Terminals are in code point order. -/
  sorted : g.terminals.toList.Pairwise (· < ·)
  /-- A cell has a text just where the table has an entry, the one of its rule. -/
  cell : ∀ (i j : Nat) (hi : i < g.nonterminals.length) (hj : j < g.columns.length),
    ∃ content, cellAt page i j = some content ∧
      (content ≠ "" ↔ g.columns[j] ∈ t.row g.nonterminals[i]) ∧
      ∀ r, (t.row g.nonterminals[i])[g.columns[j]]? = some r → content = escape r.text
  /-- Every entry belongs to a row and a column. -/
  complete : ∀ v key, key ∈ t.row v → v ∈ g.nonterminals ∧ key ∈ g.columns
  count_eq : filledCount page = (t.rows.map fun entry => entry.2.size).sum

section Body

variable {g : Grammar} {t : Table} {page : String}
  (hbody : rowsIn "tbody" page =
    g.nonterminals.map fun v => escape v :: g.columns.map fun key => shown (t.row v)[key]?)

include hbody

theorem cellAt_eq {i j : Nat} (hi : i < g.nonterminals.length) (hj : j < g.columns.length) :
    cellAt page i j = some (shown (t.row g.nonterminals[i])[g.columns[j]]?) := by
  rw [cellAt, hbody, List.getElem?_map, List.getElem?_eq_getElem hi, Option.map_some,
    Option.bind_some, List.getElem?_cons_succ, List.getElem?_map, List.getElem?_eq_getElem hj,
    Option.map_some]

/-- Row by row, a filled cell stands for each entry. -/
theorem filledCount_eq (wf : g.WellFormed) (ht : t.Exact g) :
    filledCount page = (t.rows.map fun entry => entry.2.size).sum := by
  rw [filledCount, hbody, ht.rows_eq, List.map_map, List.map_map]
  refine congrArg List.sum (List.map_congr_left fun v _ => ?_)
  calc (g.columns.map fun key => shown (t.row v)[key]?).countP (· ≠ "")
      = g.columns.countP (· ∈ t.row v) := by
        rw [List.countP_map]
        refine List.countP_congr fun key _ => ?_
        rw [Function.comp_apply, decide_eq_true_iff, decide_eq_true_iff, shown_ne_empty_iff]
    _ = (t.row v).size := (ht.size_row wf v).symm

end Body

/-- The document of an exact table shows it. -/
theorem showsTable_lines {g : Grammar} (wf : g.WellFormed) {t : Table} (ht : t.Exact g)
    (config : RenderConfig) :
    ShowsTable g t (render (lines config g.nonterminals g.terminals.toList t)) := by
  have hrows : t.rows ≠ [] := by
    rw [ht.rows_eq, Ne, List.map_eq_nil_iff]
    exact List.ne_nil_of_mem wf.start_mem
  have hbody : rowsIn "tbody" (render (lines config g.nonterminals g.terminals.toList t)) =
      g.nonterminals.map fun v => escape v :: g.columns.map fun key => shown (t.row v)[key]? :=
    rowsIn_tbody hrows
  constructor
  case header => exact rowsIn_thead hrows
  case rows =>
    rw [hbody, List.map_map]
    rfl
  case widths =>
    rw [hbody]
    intro cells hcells
    obtain ⟨v, -, rfl⟩ := List.mem_map.1 hcells
    simp
  case sorted =>
    have hordered := g.terminals.ordered_toList
    exact hordered.imp compareOfLessAndEq_eq_lt.1
  case cell =>
    refine fun i j hi hj => ⟨_, cellAt_eq hbody hi hj, shown_ne_empty_iff, fun r hr => ?_⟩
    rw [hr]
    rfl
  case complete => exact fun v key hkey => ht.mem_columns hkey
  case count_eq => exact filledCount_eq hbody wf ht

/-- For every grammar without left recursion, deterministic or not and whatever was asked before,
there is a document, and it shows the whole table. -/
theorem shows_table {text : String} {g : Grammar} (hread : Grammar.ofText text = .ok g)
    (hnone : ∀ v, ¬g.LeftRecursive v) {memo : Memo} (hmemo : g.Reachable memo)
    (config : RenderConfig) :
    ∃ t page, (g.table.runFrom memo).1 = .ok t ∧ ((html config g).runFrom memo).1 = .ok page ∧
      ShowsTable g t page := by
  have wf := Grammar.wellFormed_ofText hread
  have herror : ∀ e, ¬g.IsLeftRecursion e := fun _ ⟨v, _, hv⟩ => hnone v hv
  obtain ⟨t, htable, -, ht⟩ := wf.table_ensures.exists_value (hmemo.exact wf) herror
  exact ⟨t, _, htable, html_of_table htable config, showsTable_lines wf ht config⟩

/-- A grammar with a collision, whose table is written with classes that look like rows. -/
theorem shows_table_of_sharedFront :
    Grammar.ofText "S = A A x\nS = A A y\nA = a\nA = EMPTY" = .ok Grammar.sharedFront ∧
      (∀ v, ¬Grammar.sharedFront.LeftRecursive v) ∧
      ∃ t page, (Grammar.sharedFront.table.runFrom {}).1 = .ok t ∧
        ((html { tableClasses := "\"><tbody><tr>" } Grammar.sharedFront).runFrom {}).1 = .ok page ∧
        ShowsTable Grammar.sharedFront t page := by
  have hnone : ∀ v, ¬Grammar.sharedFront.LeftRecursive v := by
    obtain ⟨t, hrun⟩ := Grammar.exists_buildTable_sharedFront
    have wf := Grammar.wellFormed_ofText Grammar.ofText_sharedFront
    have hbuilt := wf.buildTable_ensures.value_of_run Memo.exact_empty hrun
    exact Grammar.not_leftRecursive_of_bodies hbuilt.1
  exact ⟨Grammar.ofText_sharedFront, hnone, shows_table Grammar.ofText_sharedFront hnone .new _⟩

end TablePage

end Predictive
