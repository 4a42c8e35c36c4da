import Predictive.Proofs.Render.Tags
import Mathlib.Data.List.DropRight

/-!
# The cells of a document

`rowsIn` reads the rows of a part of a written document, and the texts of the cells in each, without
knowing what the document was written from. It goes by the names of tags alone: a part stands behind
the last tag with its name, up to the closing one, and in a row every text between the tags of a
cell belongs to the cell. So what is written in front of the part makes no difference
(`rowsIn_render`), and the rows are read off line by line (`ReadsAs`, `ReadsAsRows`).
-/

namespace Predictive

namespace Text

/-- What has no separator belongs to the first piece. -/
theorem splitWhere_append_of_forall {α : Type} {p : α → Bool} {front rest piece : List α}
    {pieces : List (List α)} (hfront : ∀ c ∈ front, p c = false)
    (hrest : splitWhere p rest = piece :: pieces) :
    splitWhere p (front ++ rest) = (front ++ piece) :: pieces := by
  induction front with
  | nil => exact hrest
  | cons c front ih =>
    obtain ⟨hc, hfront⟩ := List.forall_mem_cons.1 hfront
    obtain ⟨_, _, hsplit, hcons⟩ := splitWhere_cons_of_neg hc (front ++ rest)
    rw [ih hfront] at hsplit
    obtain ⟨rfl, rfl⟩ := List.cons_eq_cons.1 hsplit
    exact hcons

end Text

namespace Markup

/-! The reader. -/

/-- A tag without its brackets, and the text behind it. -/
structure Segment where
  tag : String
  behind : String
deriving DecidableEq, Repr

/-- Reads what stands behind an opening bracket, up to the next one. -/
def Segment.ofChars (chars : List Char) : Segment where
  tag := String.ofList (chars.takeWhile (· != '>'))
  behind := String.ofList (chars.dropWhile (· != '>')).tail

/-- The tags of a document, each with the text behind it. -/
def segments (document : String) : List Segment :=
  (Text.splitWhere (· == '<') document.toList).tail.map .ofChars

/-- What a tag begins with, up to its attributes. -/
def nameOf (tag : String) : String :=
  String.ofList (tag.toList.takeWhile (· != ' '))

/-- The name of the tag. -/
def Segment.name (s : Segment) : String :=
  nameOf s.tag

/-- What stands behind the last tag with the name, up to the closing one. -/
def inside (name : String) (found : List Segment) : List Segment :=
  (found.rtakeWhile (·.name ≠ name)).takeWhile (·.name ≠ "/" ++ name)

/-- Reads rows, with the cells of the row that have been read and, in a cell, its text so far. -/
def readRows : List String → Option String → List Segment → List (List String)
  | _, _, [] => []
  | row, cell, s :: rest =>
    if s.name = "tr" then readRows [] none rest
    else if s.name = "/tr" then row :: readRows [] none rest
    else if s.name = "th" ∨ s.name = "td" then readRows row (some s.behind) rest
    else if s.name = "/th" ∨ s.name = "/td" then readRows (row ++ cell.toList) none rest
    else readRows row (cell.map (· ++ s.behind)) rest

/-- The rows in a part of a document, each as the texts of its cells. -/
def rowsIn (name document : String) : List (List String) :=
  readRows [] none (inside name (segments document))

example : rowsIn "tbody" "<tbody><tr><td class=\"a\">1 <b>&lt;</b> 2</td>\n<td></td></tr></tbody>" =
    [["1 &lt; 2", ""]] := by
  decide

/-! What is read of pieces. -/

/-- The text in front of the first tag. -/
def leading : List Piece → String
  | .text content :: rest => escape content ++ leading rest
  | _ => ""

/-- The tags of the pieces, each with the text behind it. -/
def segmentsOf : List Piece → List Segment
  | [] => []
  | .text _ :: rest => segmentsOf rest
  | .opening name attributes :: rest =>
    ⟨name ++ String.join (attributes.map attributeText), leading rest⟩ :: segmentsOf rest
  | .closing name :: rest => ⟨"/" ++ name, leading rest⟩ :: segmentsOf rest

theorem segmentsOf_cons_of_tag {p : Piece} {tag : String} (h : p.tag? = some tag)
    (rest : List Piece) : segmentsOf (p :: rest) = ⟨tag, leading rest⟩ :: segmentsOf rest := by
  cases p with
  | text content => cases h
  | opening name attributes =>
    cases h
    rfl
  | closing name =>
    cases h
    rfl

theorem leading_cons_of_tag {p : Piece} {tag : String} (h : p.tag? = some tag)
    (rest : List Piece) : leading (p :: rest) = "" := by
  cases p with
  | text content => cases h
  | opening name attributes => rfl
  | closing name => rfl

/-- A tag and the text behind it are read off what is written of them. -/
theorem Segment.ofChars_append {tag : List Char} (h : '>' ∉ tag) (behind : String) :
    Segment.ofChars (tag ++ '>' :: behind.toList) = ⟨String.ofList tag, behind⟩ := by
  have hother : ∀ c ∈ tag, (c != '>') = true := fun c hc =>
    bne_iff_ne.2 fun hbracket => h (hbracket ▸ hc)
  simp [ofChars, List.takeWhile_append_of_pos hother, List.dropWhile_append_of_pos hother]

/-- Plain pieces are cut at their opening brackets. -/
theorem splitWhere_render {pieces : List Piece} (h : ∀ p ∈ pieces, p.Plain) :
    ∃ cut, Text.splitWhere (· == '<') (pieces.flatMap fun p => p.render.toList) =
        (leading pieces).toList :: cut ∧
      cut.map Segment.ofChars = segmentsOf pieces := by
  induction pieces with
  | nil => exact ⟨[], rfl, rfl⟩
  | cons p rest ih =>
    obtain ⟨hp, hrest⟩ := List.forall_mem_cons.1 h
    obtain ⟨cut, hcut, hsegments⟩ := ih hrest
    rw [List.flatMap_cons]
    cases htag : p.tag? with
    | none =>
      cases p with
      | opening name attributes => cases htag
      | closing name => cases htag
      | text content =>
        have hcontent : ∀ c ∈ (escape content).toList, (c == '<') = false := fun c hc =>
          beq_eq_false_iff_ne.2 fun hbracket =>
            absurd (hbracket ▸ hc) (not_mem_escape (by decide) (by decide) content)
        refine ⟨cut, ?_, hsegments⟩
        rw [Piece.render, Text.splitWhere_append_of_forall hcontent hcut, leading,
          String.toList_append]
    | some tag =>
      have hbracket {c : Char} (hreserved : c ∈ reserved) (hquote : c ≠ '\x22') :
          c ∉ tag.toList := fun hc => hquote (Piece.eq_quote_of_mem_tag hp htag hc hreserved)
      have htext : ∀ c ∈ tag.toList ++ ['>'], (c == '<') = false := by
        intro c hc
        refine beq_eq_false_iff_ne.2 ?_
        rintro rfl
        rcases List.mem_append.1 hc with hc | hc
        · exact hbracket (by decide) (by decide) hc
        · simp at hc
      refine ⟨(tag.toList ++ '>' :: (leading rest).toList) :: cut, ?_, ?_⟩
      · rw [Piece.toList_render_of_tag htag, List.cons_append, List.cons_append,
          Text.splitWhere_cons_of_pos rfl, Text.splitWhere_append_of_forall htext hcut,
          leading_cons_of_tag htag]
        simp
      · rw [segmentsOf_cons_of_tag htag, List.map_cons, hsegments,
          Segment.ofChars_append (hbracket (by decide) (by decide)), String.ofList_toList]

/-- Behind any characters the tags of pieces are read, if the first of these is a tag. -/
theorem exists_splitWhere_append {p : Piece} {tag : String} (htag : p.tag? = some tag)
    {rest : List Piece} (h : ∀ q ∈ p :: rest, q.Plain) (front : List Char) :
    ∃ others, (Text.splitWhere (· == '<')
        (front ++ (p :: rest).flatMap fun q => q.render.toList)).tail.map Segment.ofChars =
      others ++ segmentsOf (p :: rest) := by
  obtain ⟨cut, hcut, hsegments⟩ := splitWhere_render h
  rw [leading_cons_of_tag htag] at hcut
  rw [List.flatMap_cons, Piece.toList_render_of_tag htag, List.cons_append,
    List.cons_append] at hcut ⊢
  rw [Text.splitWhere_cons_of_pos rfl] at hcut
  rw [Text.splitWhere_append_cons rfl, List.tail_append_of_ne_nil (Text.splitWhere_ne_nil _),
    List.map_append, (List.cons_eq_cons.1 hcut).2, hsegments]
  exact ⟨_, rfl⟩

/-! The names of tags. -/

/-- The name of the tag that the piece is. -/
def Piece.name? (p : Piece) : Option String :=
  p.tag?.map nameOf

/-- A name goes up to the first space. -/
theorem nameOf_append {name : String} (h : ' ' ∉ name.toList) {rest : String}
    (hrest : rest.toList.takeWhile (· != ' ') = []) : nameOf (name ++ rest) = name := by
  have hother : ∀ c ∈ name.toList, (c != ' ') = true := fun c hc =>
    bne_iff_ne.2 fun hspace => h (hspace ▸ hc)
  rw [nameOf, String.toList_append, List.takeWhile_append_of_pos hother, hrest, List.append_nil,
    String.ofList_toList]

theorem Piece.name?_opening {name : String} (h : ' ' ∉ name.toList)
    (attributes : List (String × String)) : (Piece.opening name attributes).name? = some name := by
  have hattributes : (String.join (attributes.map attributeText)).toList.takeWhile
      (· != ' ') = [] := by
    cases attributes with
    | nil => simp
    | cons item others => simp [attributeText]
  exact congrArg some (nameOf_append h hattributes)

theorem Piece.name?_closing {name : String} (h : ' ' ∉ name.toList) :
    (Piece.closing name).name? = some ("/" ++ name) := by
  have hname : ' ' ∉ ("/" ++ name).toList := by simpa using h
  have hall : nameOf ("/" ++ name ++ "") = "/" ++ name := nameOf_append hname (by simp)
  rw [String.append_empty] at hall
  exact congrArg some hall

theorem map_name_segmentsOf (pieces : List Piece) :
    (segmentsOf pieces).map Segment.name = pieces.filterMap Piece.name? := by
  induction pieces with
  | nil => rfl
  | cons p rest ih =>
    rw [List.filterMap_cons, Piece.name?, ← ih]
    cases p <;> rfl

theorem exists_of_mem_segmentsOf {pieces : List Piece} {s : Segment} (h : s ∈ segmentsOf pieces) :
    ∃ p ∈ pieces, p.name? = some s.name := by
  have hname : s.name ∈ (segmentsOf pieces).map Segment.name := List.mem_map_of_mem h
  rwa [map_name_segmentsOf, List.mem_filterMap] at hname

/-! A part of a document. -/

/-- What stands between two tags is found by their name. -/
theorem inside_append {name : String} {before content after : List Segment} {first last : Segment}
    (hfirst : first.name = name) (hlast : last.name = "/" ++ name)
    (hcontent : ∀ s ∈ content, s.name ≠ name ∧ s.name ≠ "/" ++ name)
    (hafter : ∀ s ∈ after, s.name ≠ name) :
    inside name (before ++ first :: (content ++ last :: after)) = content := by
  have hclosing : "/" ++ name ≠ name := fun heq => by
    have hlength := congrArg String.length heq
    simp at hlength
  have hother : ∀ s ∈ (content ++ last :: after).reverse, (decide (s.name ≠ name)) = true := by
    intro s hs
    rw [List.mem_reverse, List.mem_append, List.mem_cons] at hs
    rcases hs with hs | rfl | hs
    · exact decide_eq_true (hcontent s hs).1
    · exact decide_eq_true (hlast ▸ hclosing)
    · exact decide_eq_true (hafter s hs)
  have hlater : (before ++ first :: (content ++ last :: after)).rtakeWhile (·.name ≠ name) =
      content ++ last :: after := by
    rw [List.rtakeWhile, List.reverse_append, List.reverse_cons, List.append_assoc,
      List.takeWhile_append_of_pos hother]
    simp [hfirst]
  have hwithin : ∀ s ∈ content, decide (s.name ≠ "/" ++ name) = true := fun s hs =>
    decide_eq_true (hcontent s hs).2
  rw [inside, hlater, List.takeWhile_append_of_pos hwithin]
  simp [hlast]

/-- A tag ends what stands in front of it. -/
theorem segmentsOf_append {front rest : List Piece} {p : Piece} {tag : String}
    (htag : p.tag? = some tag) :
    segmentsOf (front ++ p :: rest) = segmentsOf front ++ segmentsOf (p :: rest) := by
  have hleading (pieces : List Piece) : leading (pieces ++ p :: rest) = leading pieces := by
    induction pieces with
    | nil => exact leading_cons_of_tag htag rest
    | cons q pieces ih =>
      cases q with
      | text content => exact congrArg (escape content ++ ·) ih
      | opening name attributes => rfl
      | closing name => rfl
  induction front with
  | nil => rfl
  | cons q front ih =>
    cases q <;> simp only [List.cons_append, segmentsOf, ih, hleading]

/-- Lines as they follow on another line. -/
def below (lines : List Line) : List Piece :=
  lines.flatMap (.text "\n" :: ·)

@[simp]
theorem below_nil : below [] = [] :=
  rfl

@[simp]
theorem below_append (lines others : List Line) :
    below (lines ++ others) = below lines ++ below others :=
  List.flatMap_append

@[simp]
theorem below_cons (line : Line) (lines : List Line) :
    below (line :: lines) = .text "\n" :: line ++ below lines :=
  List.flatMap_cons

theorem eq_or_mem_of_mem_below {lines : List Line} {p : Piece} (h : p ∈ below lines) :
    p = .text "\n" ∨ p ∈ lines.flatten := by
  obtain ⟨line, hline, hp⟩ := List.mem_flatMap.1 h
  exact (List.mem_cons.1 hp).imp_right fun hp => List.mem_flatten.2 ⟨line, hline, hp⟩

theorem mem_flatten_of_name? {lines : List Line} {p : Piece} {name : String}
    (hname : p.name? = some name) (hp : p ∈ below lines) : p ∈ lines.flatten := by
  rcases eq_or_mem_of_mem_below hp with rfl | hp
  · cases hname
  · exact hp

/-- A document is written piece by piece. -/
theorem toList_render (line : Line) (lines : List Line) :
    (render (line :: lines)).toList =
      (line ++ below lines).flatMap fun p => p.render.toList := by
  have hbreak : (Piece.text "\n").render.toList = ['\n'] := by decide
  rw [toList_render_cons, Line.toList_render, List.flatMap_append, below, List.flatMap_assoc]
  simp only [List.flatMap_cons, hbreak, Line.toList_render, List.singleton_append]

/-- Lines in front of a document change nothing behind them. -/
theorem exists_toList_render_append (front : List Line) (line : Line) (lines : List Line) :
    ∃ start, (render (front ++ line :: lines)).toList =
      start ++ (render (line :: lines)).toList := by
  induction front with
  | nil => exact ⟨[], rfl⟩
  | cons first front ih =>
    obtain ⟨start, hstart⟩ := ih
    have hnext : ∃ next others, front ++ line :: lines = next :: others := by
      cases front <;> exact ⟨_, _, rfl⟩
    obtain ⟨next, others, hlines⟩ := hnext
    refine ⟨(Line.render first).toList ++ '\n' :: start, ?_⟩
    rw [hlines, toList_render_cons] at hstart
    rw [List.cons_append, hlines, toList_render_cons, List.flatMap_cons, List.cons_append, hstart]
    simp

/-- The tags of the last lines are read, whatever stands in front of them. -/
theorem exists_segments_render (front : List Line) {p : Piece} {tag : String}
    (htag : p.tag? = some tag) (line : Line) (lines : List Line)
    (h : ∀ q ∈ (p :: line) ++ lines.flatten, q.Plain) :
    ∃ others, segments (render (front ++ (p :: line) :: lines)) =
      others ++ segmentsOf (p :: (line ++ below lines)) := by
  obtain ⟨start, hstart⟩ := exists_toList_render_append front (p :: line) lines
  have hplain : ∀ q ∈ p :: (line ++ below lines), q.Plain := by
    intro q hq
    rw [← List.cons_append, List.mem_append] at hq
    rcases hq with hq | hq
    · exact h q (List.mem_append_left _ hq)
    · rcases eq_or_mem_of_mem_below hq with rfl | hq
      · exact trivial
      · exact h q (List.mem_append_right _ hq)
  rw [segments, hstart, toList_render]
  exact exists_splitWhere_append htag hplain start

/-- The last part with a name is found, whatever stands in front of it. -/
theorem inside_render {name : String} (hname : ' ' ∉ name.toList) (front : List Line)
    {attributes : List (String × String)} {content after : List Line}
    (hplain : ∀ p ∈ (block name attributes content ++ after).flatten, p.Plain)
    (hcontent : ∀ p ∈ content.flatten, p.name? ≠ some name ∧ p.name? ≠ some ("/" ++ name))
    (hafter : ∀ p ∈ after.flatten, p.name? ≠ some name) :
    inside name (segments (render (front ++ (block name attributes content ++ after)))) =
      segmentsOf (below content ++ [.text "\n"]) := by
  have hopening : (Piece.opening name attributes).tag? = some _ := rfl
  have hclosing : (Piece.closing name).tag? = some _ := rfl
  obtain ⟨others, hothers⟩ := exists_segments_render front hopening []
    (content ++ [[.closing name]] ++ after) (by simpa [block] using hplain)
  have hbelow : below (content ++ [[.closing name]] ++ after) =
      (below content ++ [.text "\n"]) ++ .closing name :: below after := by
    simp [below]
  rw [block, List.cons_append, List.cons_append, hothers, List.nil_append, hbelow,
    segmentsOf_cons_of_tag hopening, segmentsOf_append hclosing, segmentsOf_cons_of_tag hclosing]
  refine inside_append ?_ ?_ (fun s hs => ?_) fun s hs => ?_
  · exact Option.some.inj (Piece.name?_opening hname attributes)
  · exact Option.some.inj (Piece.name?_closing hname)
  · obtain ⟨p, hp, hother⟩ := exists_of_mem_segmentsOf hs
    rcases List.mem_append.1 hp with hp | hp
    · simpa [hother] using hcontent p (mem_flatten_of_name? hother hp)
    · obtain rfl := List.mem_singleton.1 hp
      cases hother
  · obtain ⟨p, hp, hother⟩ := exists_of_mem_segmentsOf hs
    simpa [hother] using hafter p (mem_flatten_of_name? hother hp)

/-! Rows and cells. -/

/-- Reads rows from pieces, with what has been read so far. -/
def readPieces (row : List String) (cell : Option String) (pieces : List Piece) :
    List (List String) :=
  readRows row (cell.map (· ++ leading pieces)) (segmentsOf pieces)

/-- A text belongs to the cell that it is in. -/
theorem readPieces_text (row : List String) (cell : Option String) (content : String)
    (rest : List Piece) :
    readPieces row cell (.text content :: rest) =
      readPieces row (cell.map (· ++ escape content)) rest := by
  cases cell with
  | none => rfl
  | some read => simp [readPieces, leading, segmentsOf, String.append_assoc]

/-- What is done with a tag depends on its name. -/
theorem readPieces_tag {p : Piece} {name : String} (h : p.name? = some name) (row : List String)
    (cell : Option String) (rest : List Piece) :
    readPieces row cell (p :: rest) =
      if name = "tr" then readPieces [] none rest
      else if name = "/tr" then row :: readPieces [] none rest
      else if name = "th" ∨ name = "td" then readPieces row (some "") rest
      else if name = "/th" ∨ name = "/td" then readPieces (row ++ cell.toList) none rest
      else readPieces row cell rest := by
  obtain ⟨tag, htag, rfl⟩ := Option.map_eq_some_iff.1 h
  have hcell : cell.map (· ++ "") = cell := by simp
  have hempty : readPieces row (some "") rest =
      readRows row (some (leading rest)) (segmentsOf rest) := by simp [readPieces]
  rw [readPieces, leading_cons_of_tag htag, hcell, segmentsOf_cons_of_tag htag, readRows, hempty]
  rfl

/-- The texts among the pieces, one behind the other. -/
def texts : List Piece → String
  | [] => ""
  | .text content :: rest => escape content ++ texts rest
  | _ :: rest => texts rest

/-- The names of tags that a grid is made of. -/
def gridNames : List String := ["tr", "/tr", "th", "td", "/th", "/td"]

/-- The texts in a cell are read one behind the other. -/
theorem readPieces_content {content : List Piece}
    (h : ∀ p ∈ content, ∀ name, p.name? = some name → name ∉ gridNames) (row : List String)
    (read : String) (rest : List Piece) :
    readPieces row (some read) (content ++ rest) =
      readPieces row (some (read ++ texts content)) rest := by
  induction content generalizing read with
  | nil => simp [texts]
  | cons p content ih =>
    obtain ⟨hp, hcontent⟩ := List.forall_mem_cons.1 h
    rw [List.cons_append]
    cases hname : p.name? with
    | none =>
      cases p with
      | opening name attributes => cases hname
      | closing name => cases hname
      | text content =>
        rw [readPieces_text, Option.map_some, ih hcontent, texts, String.append_assoc]
    | some name =>
      have hother := hp name hname
      simp only [gridNames, List.mem_cons, List.not_mem_nil, or_false, not_or] at hother
      have htexts : texts (p :: content) = texts content := by
        cases p with
        | opening name attributes => rfl
        | closing name => rfl
        | text content => cases hname
      rw [readPieces_tag hname, htexts, ← ih hcontent]
      simp [hother]

/-- Wherever it stands in a row, the line is read as a cell with the text. -/
def ReadsAs (line : Line) (content : String) : Prop :=
  ∀ row rest, readPieces row none (line ++ rest) = readPieces (row ++ [content]) none rest

theorem readsAs_element {name : String} (hname : name = "th" ∨ name = "td")
    (attributes : List (String × String)) {content : Line}
    (h : ∀ p ∈ content, ∀ name, p.name? = some name → name ∉ gridNames) :
    ReadsAs (element name attributes content) (texts content) := by
  intro row rest
  have hspace : ' ' ∉ name.toList := by rcases hname with rfl | rfl <;> decide
  have hopening := Piece.name?_opening hspace attributes
  have hclosing := Piece.name?_closing hspace
  rw [element, List.append_assoc, List.cons_append, readPieces_tag hopening,
    readPieces_content h, List.singleton_append, readPieces_tag hclosing]
  rcases hname with rfl | rfl <;> simp

theorem readsAs_textElement {name : String} (hname : name = "th" ∨ name = "td")
    (attributes : List (String × String)) (content : String) :
    ReadsAs (textElement name attributes content) (escape content) := by
  have htexts : texts [.text content] = escape content := by simp [texts]
  rw [← htexts]
  exact readsAs_element hname attributes (by simp [Piece.name?, Piece.tag?])

/-- Wherever they follow, the lines are read as the rows. -/
def ReadsAsRows (lines : List Line) (rows : List (List String)) : Prop :=
  ∀ rest, readPieces [] none (below lines ++ rest) = rows ++ readPieces [] none rest

/-- Cells one below the other are read as a row. -/
theorem readsAsRows_block {cells : List Line} {row : List String}
    (h : List.Forall₂ ReadsAs cells row) (attributes : List (String × String)) :
    ReadsAsRows (block "tr" attributes cells) [row] := by
  have hcells (read : List String) (rest : List Piece) :
      readPieces read none (below cells ++ rest) = readPieces (read ++ row) none rest := by
    induction h generalizing read with
    | nil => simp [below]
    | cons hcell _ ih =>
      rw [below_cons, List.cons_append, List.cons_append, readPieces_text, List.append_assoc,
        Option.map_none, hcell, ih, List.append_assoc, List.singleton_append]
  intro rest
  have hopening : (Piece.opening "tr" attributes).name? = some "tr" :=
    Piece.name?_opening (by decide) attributes
  have hclosing : (Piece.closing "tr").name? = some "/tr" := Piece.name?_closing (by decide)
  simp [block, readPieces_text, readPieces_tag hopening, readPieces_tag hclosing, hcells]

theorem readsAsRows_flatMap {α : Type} {f : α → List Line} {row : α → List String} {xs : List α}
    (h : ∀ x ∈ xs, ReadsAsRows (f x) [row x]) : ReadsAsRows (xs.flatMap f) (xs.map row) := by
  intro rest
  induction xs with
  | nil => rfl
  | cons x xs ih =>
    obtain ⟨hx, hxs⟩ := List.forall_mem_cons.1 h
    rw [List.flatMap_cons, below_append, List.append_assoc, hx, ih hxs, List.map_cons]
    rfl

/-- The rows of the last part with a name are read, whatever stands in front of it. -/
theorem rowsIn_render {name : String} (hname : ' ' ∉ name.toList) (front : List Line)
    {attributes : List (String × String)} {content after : List Line}
    (hplain : ∀ p ∈ (block name attributes content ++ after).flatten, p.Plain)
    (hcontent : ∀ p ∈ content.flatten, p.name? ≠ some name ∧ p.name? ≠ some ("/" ++ name))
    (hafter : ∀ p ∈ after.flatten, p.name? ≠ some name) {rows : List (List String)}
    (hrows : ReadsAsRows content rows) :
    rowsIn name (render (front ++ (block name attributes content ++ after))) = rows := by
  rw [rowsIn, inside_render hname front hplain hcontent hafter]
  calc readPieces [] none (below content ++ [.text "\n"])
      = rows ++ readPieces [] none [.text "\n"] := hrows _
    _ = rows := List.append_nil rows

end Markup

end Predictive
