import Predictive.Render.Markup
import Predictive.Proofs.Text.Codes
import Mathlib.Data.List.Forall2

/-!
# The tags of a document

`tags` reads the tags off a written document, without knowing what it was written from: a tag goes
from an opening bracket to the next closing one. An escaped text has no bracket, and every
ampersand in it begins a whole entity. So the tags of a document are those of its pieces
(`tags_render`), as long as names and attributes are plain.

`SameTags` compares the pieces of two documents and leaves out their texts. Documents with the same
tags are read to the same tags (`SameTags.tags_render`).
-/

namespace Predictive.Markup

/-- The characters with a meaning in markup. -/
def reserved : List Char := ['<', '>', '&', '\x22', '\x27']

/-- No character of the text has a meaning in markup. -/
def Plain (text : String) : Prop :=
  ∀ c ∈ text.toList, c ∉ reserved

instance : DecidablePred Plain := fun text =>
  List.decidableBAll (· ∉ reserved) text.toList

/-- The names and the values of the attributes are plain. -/
def PlainAttributes (attributes : List (String × String)) : Prop :=
  ∀ item ∈ attributes, Plain item.1 ∧ Plain item.2

instance : DecidablePred PlainAttributes := fun attributes =>
  inferInstanceAs (Decidable (∀ item ∈ attributes, Plain item.1 ∧ Plain item.2))

/-- Reads tags, outside a tag or behind what has been read of one, the last character first. -/
def scan : Option (List Char) → List Char → List String
  | none, [] => []
  | none, c :: rest => if c = '<' then scan (some []) rest else scan none rest
  | some seen, [] => [String.ofList seen.reverse]
  | some seen, c :: rest =>
    if c = '>' then String.ofList seen.reverse :: scan none rest else scan (some (c :: seen)) rest

/-- The tags of a document without their brackets. A tag that is not closed goes to the end. -/
def tags (document : String) : List String :=
  scan none document.toList

/-- What may stand for a character with a meaning in markup. -/
def entities : List (List Char) :=
  ["&amp;".toList, "&lt;".toList, "&gt;".toList, "&quot;".toList, apostropheEntity]

/-- Every ampersand is the beginning of a whole entity. -/
def EntitiesComplete (text : List Char) : Prop :=
  ∀ before after, text = before ++ '&' :: after → ∃ e ∈ entities, e <+: '&' :: after

/-! What has no bracket and no ampersand. -/

theorem scan_append_of_not_mem {text : List Char} (h : '<' ∉ text) (rest : List Char) :
    scan none (text ++ rest) = scan none rest := by
  induction text with
  | nil => rfl
  | cons c text ih =>
    rw [List.mem_cons, not_or] at h
    rw [List.cons_append, scan, if_neg (Ne.symm h.1), ih h.2]

/-- A tag is read up to its closing bracket. -/
theorem scan_tag {inner : List Char} (h : '>' ∉ inner) (seen rest : List Char) :
    scan (some seen) (inner ++ '>' :: rest) =
      String.ofList (seen.reverse ++ inner) :: scan none rest := by
  induction inner generalizing seen with
  | nil => simp [scan]
  | cons c inner ih =>
    rw [List.mem_cons, not_or] at h
    rw [List.cons_append, scan, if_neg (Ne.symm h.1), ih h.2]
    simp

namespace EntitiesComplete

theorem of_not_mem {text : List Char} (h : '&' ∉ text) : EntitiesComplete text :=
  Text.CodesComplete.of_not_mem h

theorem append {first second : List Char} (h : EntitiesComplete first)
    (h' : EntitiesComplete second) : EntitiesComplete (first ++ second) :=
  Text.CodesComplete.append h h'

theorem flatMap {α : Type} {f : α → List Char} {xs : List α}
    (h : ∀ x ∈ xs, EntitiesComplete (f x)) : EntitiesComplete (xs.flatMap f) :=
  Text.CodesComplete.flatMap h

end EntitiesComplete

/-! Escaped texts. -/

/-- The entities of the five characters with a meaning in markup, the apostrophe with the given
one. -/
def entityTable (apostrophe : List Char) : Text.CodeTable :=
  [('&', "&amp;".toList), ('<', "&lt;".toList), ('>', "&gt;".toList), ('\x22', "&quot;".toList),
    ('\x27', apostrophe)]

theorem mem_keys_entityTable {apostrophe : List Char} {c : Char} :
    c ∈ (entityTable apostrophe).keys ↔ c ∈ reserved := by
  simp only [entityTable, Text.CodeTable.keys, reserved, List.map_cons, List.map_nil, List.mem_cons]
  tauto

theorem escapeChar_eq_codeOf (apostrophe : List Char) (c : Char) :
    escapeChar apostrophe c = (entityTable apostrophe).codeOf c := by
  unfold escapeChar
  split
  case h_6 hamp hless hgreater hquote hapostrophe =>
    have hnone : c ∉ reserved := by
      simpa [reserved] using ⟨hless, hgreater, hamp, hquote, hapostrophe⟩
    exact (Text.CodeTable.codeOf_of_not_mem (mt mem_keys_entityTable.1 hnone)).symm
  all_goals rfl

/-- The ampersand marks the entities, if that of the apostrophe is by a number. -/
theorem marked_entityTable (number : List Char) (h : ∀ c ∈ number, c ∉ reserved) :
    (entityTable ('&' :: '#' :: number)).Marked '&' where
  marker_mem := mem_keys_entityTable.2 (by decide)
  head_eq := by simp [entityTable]
  not_mem_name := by
    simp only [mem_keys_entityTable]
    simpa [entityTable, reserved] using h
  eq_of_prefix := by simp [entityTable]

theorem marked_entityTable_document : (entityTable apostropheEntity).Marked '&' :=
  marked_entityTable "x27;".toList (by simp [reserved])

theorem toList_escape (text : String) :
    (escape text).toList = (entityTable apostropheEntity).encode text.toList := by
  rw [escape, String.toList_ofList, Text.CodeTable.encode]
  exact List.flatMap_congr fun c _ => escapeChar_eq_codeOf apostropheEntity c

/-- An escaped text has no bracket and no quote. -/
theorem not_mem_escape {c : Char} (hc : c ∈ reserved) (hamp : c ≠ '&') (text : String) :
    c ∉ (escape text).toList := by
  rw [toList_escape]
  exact marked_entityTable_document.not_mem_encode (mem_keys_entityTable.2 hc) hamp text.toList

theorem entitiesComplete_escape (text : String) : EntitiesComplete (escape text).toList := by
  rw [toList_escape]
  exact marked_entityTable_document.codesComplete_encode text.toList

theorem escape_append (text other : String) :
    escape (text ++ other) = escape text ++ escape other := by
  rw [← String.toList_inj]
  simp [toList_escape, Text.CodeTable.encode_append]

/-- Reads a text that was escaped. -/
def unescape (text : String) : String :=
  String.ofList ((entityTable apostropheEntity).decode text.toList)

theorem unescape_escape (text : String) : unescape (escape text) = text := by
  rw [unescape, toList_escape, marked_entityTable_document.decode_encode, String.ofList_toList]

/-! Pieces. -/

/-- The names and the attributes of the piece are plain. -/
def Piece.Plain : Piece → Prop
  | opening name attributes => Markup.Plain name ∧ PlainAttributes attributes
  | closing name => Markup.Plain name
  | text _ => True

instance : DecidablePred Piece.Plain
  | .opening name attributes =>
    inferInstanceAs (Decidable (Markup.Plain name ∧ PlainAttributes attributes))
  | .closing name => inferInstanceAs (Decidable (Markup.Plain name))
  | .text _ => isTrue trivial

/-- The tag that the piece is, without its brackets. -/
def Piece.tag? : Piece → Option String
  | opening name attributes => some (name ++ String.join (attributes.map attributeText))
  | closing name => some ("/" ++ name)
  | text _ => none

theorem Plain.append {first second : String} (h : Plain first) (h' : Plain second) :
    Plain (first ++ second) := by
  intro c hc
  rw [String.toList_append] at hc
  rcases List.mem_append.1 hc with hc | hc
  · exact h c hc
  · exact h' c hc

/-- In what is written of plain attributes the quotes alone have a meaning. -/
theorem eq_quote_of_mem_attributeText {item : String × String} (hname : Plain item.1)
    (hvalue : Plain item.2) {c : Char} (hc : c ∈ (attributeText item).toList)
    (hreserved : c ∈ reserved) : c = '\x22' := by
  simp only [attributeText, String.toList_append, List.mem_append] at hc
  rcases hc with (((hc | hc) | hc) | hc) | hc
  · have hspace : c = ' ' := by simpa using hc
    subst hspace
    exact absurd hreserved (by decide)
  · exact absurd hreserved (hname c hc)
  · have hequals : c = '=' ∨ c = '\x22' := by simpa using hc
    refine hequals.resolve_left fun hequals => ?_
    subst hequals
    exact absurd hreserved (by decide)
  · exact absurd hreserved (hvalue c hc)
  · simpa using hc

/-- So it is in the tag of a plain piece. -/
theorem Piece.eq_quote_of_mem_tag {p : Piece} (h : p.Plain) {tag : String}
    (htag : p.tag? = some tag) {c : Char} (hc : c ∈ tag.toList) (hreserved : c ∈ reserved) :
    c = '\x22' := by
  cases p with
  | text content => cases htag
  | closing name =>
    cases htag
    have hslash : Markup.Plain "/" := by decide
    exact absurd hreserved (hslash.append h c hc)
  | opening name attributes =>
    cases htag
    rw [String.toList_append, List.mem_append, String.toList_join, List.mem_flatMap] at hc
    rcases hc with hc | ⟨_, hwritten, hc⟩
    · exact absurd hreserved (h.1 c hc)
    · obtain ⟨item, hitem, rfl⟩ := List.mem_map.1 hwritten
      exact eq_quote_of_mem_attributeText (h.2 item hitem).1 (h.2 item hitem).2 hc hreserved

theorem Piece.toList_render_of_tag {p : Piece} {tag : String} (htag : p.tag? = some tag) :
    p.render.toList = '<' :: tag.toList ++ ['>'] := by
  cases p with
  | text content => cases htag
  | closing name =>
    cases htag
    simp [Piece.render]
  | opening name attributes =>
    cases htag
    simp [Piece.render]

/-- The tag of a plain piece is read off what is written, and of a text nothing is. -/
theorem Piece.scan_render {p : Piece} (h : p.Plain) (rest : List Char) :
    scan none (p.render.toList ++ rest) = p.tag?.toList ++ scan none rest := by
  cases htag : p.tag? with
  | none =>
    cases p with
    | text content =>
      exact scan_append_of_not_mem (not_mem_escape (by decide) (by decide) content) rest
    | opening name attributes => cases htag
    | closing name => cases htag
  | some tag =>
    have hclosing : '>' ∉ tag.toList := fun hc =>
      absurd (Piece.eq_quote_of_mem_tag h htag hc (by decide)) (by decide)
    rw [Piece.toList_render_of_tag htag]
    have hscan := scan_tag hclosing [] rest
    simpa [scan] using hscan

theorem Piece.entitiesComplete_render {p : Piece} (h : p.Plain) :
    EntitiesComplete p.render.toList := by
  cases htag : p.tag? with
  | none =>
    cases p with
    | text content => exact entitiesComplete_escape content
    | opening name attributes => cases htag
    | closing name => cases htag
  | some tag =>
    have hamp : '&' ∉ tag.toList := fun hc =>
      absurd (Piece.eq_quote_of_mem_tag h htag hc (by decide)) (by decide)
    rw [Piece.toList_render_of_tag htag]
    exact .of_not_mem (by simpa using hamp)

/-! Documents. -/

theorem Line.toList_render (line : Line) :
    (Line.render line).toList = line.flatMap fun p => p.render.toList := by
  rw [Line.render, String.toList_join, List.flatMap_map]

/-- Of a line with plain pieces the tags are read. -/
theorem Line.scan_render {line : Line} (h : ∀ p ∈ line, p.Plain) (rest : List Char) :
    scan none ((Line.render line).toList ++ rest) =
      line.filterMap Piece.tag? ++ scan none rest := by
  rw [Line.toList_render]
  induction line with
  | nil => rfl
  | cons p line ih =>
    have hp := h p List.mem_cons_self
    have hline := ih fun q hq => h q (List.mem_cons_of_mem _ hq)
    rw [List.flatMap_cons, List.append_assoc, Piece.scan_render hp, hline, List.filterMap_cons]
    cases p.tag? <;> simp

/-- A document is its first line and the others, each behind the end of a line. -/
theorem toList_render_cons (line : Line) (lines : List Line) :
    (render (line :: lines)).toList =
      (Line.render line).toList ++ lines.flatMap fun l => '\n' :: (Line.render l).toList := by
  induction lines generalizing line with
  | nil => simp [render, Text.unlines]
  | cons next lines ih =>
    have hnext := ih next
    simp only [render, Text.unlines, String.toList_intercalate, List.map_cons] at hnext ⊢
    rw [List.intercalate_cons_cons, hnext, List.flatMap_cons]
    simp

/-- The tags of a document are those of its pieces, as long as these are plain. -/
theorem tags_render {lines : List Line} (h : ∀ p ∈ lines.flatten, p.Plain) :
    tags (render lines) = lines.flatten.filterMap Piece.tag? := by
  have hothers : ∀ others : List Line, (∀ p ∈ others.flatten, p.Plain) →
      scan none (others.flatMap fun l => '\n' :: (Line.render l).toList) =
        others.flatten.filterMap Piece.tag? := by
    intro others hplain
    induction others with
    | nil => rfl
    | cons line others ih =>
      rw [List.flatten_cons, List.forall_mem_append] at hplain
      rw [List.flatMap_cons, List.cons_append, scan, if_neg (by decide),
        Line.scan_render hplain.1, ih hplain.2, List.flatten_cons, List.filterMap_append]
  cases lines with
  | nil => simp [tags, render, Text.unlines, scan]
  | cons line others =>
    rw [List.flatten_cons, List.forall_mem_append] at h
    rw [tags, toList_render_cons, Line.scan_render h.1, hothers others h.2, List.flatten_cons,
      List.filterMap_append]

example : tags "<p>1 &lt; 2</p>" = ["p", "/p"] := by decide

/-- Every ampersand in a document of plain pieces is the beginning of an entity. -/
theorem entitiesComplete_render {lines : List Line} (h : ∀ p ∈ lines.flatten, p.Plain) :
    EntitiesComplete (render lines).toList := by
  have hline : ∀ line ∈ lines, EntitiesComplete (Line.render line).toList := by
    intro line hline
    rw [Line.toList_render]
    exact .flatMap fun p hp =>
      Piece.entitiesComplete_render (h p (List.mem_flatten.2 ⟨line, hline, hp⟩))
  cases lines with
  | nil => exact .of_not_mem (by simp [render, Text.unlines])
  | cons line others =>
    rw [List.forall_mem_cons] at hline
    rw [toList_render_cons]
    refine hline.1.append (.flatMap fun other hother => ?_)
    have hbreak : EntitiesComplete ['\n'] := .of_not_mem (by decide)
    exact hbreak.append (hline.2 other hother)

/-- A block is an element over several lines. -/
theorem flatten_block (name : String) (attributes : List (String × String)) (content : List Line) :
    (block name attributes content).flatten = element name attributes content.flatten := by
  simp [block, element]

/-! Documents with the same tags. -/

/-- The same plain tags, one after the other, with any texts between them. -/
inductive SameTags : List Piece → List Piece → Prop where
  | nil : SameTags [] []
  | tag {p : Piece} (plain : p.Plain) {rest rest' : List Piece} (same : SameTags rest rest') :
      SameTags (p :: rest) (p :: rest')
  | left (content : String) {rest rest' : List Piece} (same : SameTags rest rest') :
      SameTags (.text content :: rest) rest'
  | right (content : String) {rest rest' : List Piece} (same : SameTags rest rest') :
      SameTags rest (.text content :: rest')

namespace SameTags

variable {pieces pieces' others others' : List Piece}

theorem refl (h : ∀ p ∈ pieces, p.Plain) : SameTags pieces pieces := by
  induction pieces with
  | nil => exact .nil
  | cons p rest ih =>
    obtain ⟨hp, hrest⟩ := List.forall_mem_cons.1 h
    exact .tag hp (ih hrest)

theorem symm (h : SameTags pieces pieces') : SameTags pieces' pieces := by
  induction h with
  | nil => exact .nil
  | tag plain _ ih => exact .tag plain ih
  | left content _ ih => exact .right content ih
  | right content _ ih => exact .left content ih

theorem append (h : SameTags pieces pieces') (h' : SameTags others others') :
    SameTags (pieces ++ others) (pieces' ++ others') := by
  induction h with
  | nil => exact h'
  | tag plain _ ih => exact .tag plain ih
  | left content _ ih => exact .left content ih
  | right content _ ih => exact .right content ih

theorem plain (h : SameTags pieces pieces') : ∀ p ∈ pieces, p.Plain := by
  induction h with
  | nil => simp
  | tag plain _ ih => exact List.forall_mem_cons.2 ⟨plain, ih⟩
  | left content _ ih => exact List.forall_mem_cons.2 ⟨trivial, ih⟩
  | right content _ ih => exact ih

theorem filterMap_eq (h : SameTags pieces pieces') :
    pieces.filterMap Piece.tag? = pieces'.filterMap Piece.tag? := by
  induction h with
  | nil => rfl
  | tag _ _ ih => rw [List.filterMap_cons, List.filterMap_cons, ih]
  | left content _ ih => rw [List.filterMap_cons]; exact ih
  | right content _ ih => rw [List.filterMap_cons]; exact ih

/-- Documents with the same tags are read to the same tags. -/
theorem tags_render {lines lines' : List Line} (h : SameTags lines.flatten lines'.flatten) :
    tags (render lines) = tags (render lines') := by
  rw [Markup.tags_render h.plain, Markup.tags_render h.symm.plain, h.filterMap_eq]

/-- Two texts have no tags. -/
theorem text (content content' : String) : SameTags [.text content] [.text content'] :=
  .left content (.right content' .nil)

/-- Parts of two documents that belong together place by place. -/
theorem flatMap {α β : Type} {f : α → List Piece} {f' : β → List Piece} {xs : List α} {ys : List β}
    (h : List.Forall₂ (fun x y => SameTags (f x) (f' y)) xs ys) :
    SameTags (xs.flatMap f) (ys.flatMap f') := by
  induction h with
  | nil => exact .nil
  | cons hhead _ ih =>
    rw [List.flatMap_cons, List.flatMap_cons]
    exact hhead.append ih

/-- Lines that have the same tags place by place. -/
theorem flatten {lines lines' : List Line} (h : List.Forall₂ SameTags lines lines') :
    SameTags lines.flatten lines'.flatten := by
  induction h with
  | nil => exact .nil
  | cons hhead _ ih => exact hhead.append ih

/-- The same of parts that go over several lines. -/
theorem flatten_flatMap {α β : Type} {f : α → List Line} {f' : β → List Line} {xs : List α}
    {ys : List β} (h : List.Forall₂ (fun x y => SameTags (f x).flatten (f' y).flatten) xs ys) :
    SameTags (xs.flatMap f).flatten (ys.flatMap f').flatten := by
  induction h with
  | nil => exact .nil
  | cons hhead _ ih =>
    rw [List.flatMap_cons, List.flatMap_cons, List.flatten_append, List.flatten_append]
    exact hhead.append ih

/-- An element with a plain name and plain attributes. -/
theorem element {name : String} {attributes : List (String × String)} (hname : Plain name)
    (hattributes : PlainAttributes attributes) {content content' : Line}
    (h : SameTags content content') :
    SameTags (element name attributes content) (element name attributes content') := by
  have hopening : (Piece.opening name attributes).Plain := ⟨hname, hattributes⟩
  have hclosing : (Piece.closing name).Plain := hname
  exact .tag hopening (h.append (.tag hclosing .nil))

theorem textElement {name : String} {attributes : List (String × String)} (hname : Plain name)
    (hattributes : PlainAttributes attributes) (content content' : String) :
    SameTags (textElement name attributes content) (textElement name attributes content') :=
  .element hname hattributes (.text content content')

theorem block {name : String} {attributes : List (String × String)} (hname : Plain name)
    (hattributes : PlainAttributes attributes) {content content' : List Line}
    (h : SameTags content.flatten content'.flatten) :
    SameTags (block name attributes content).flatten (block name attributes content').flatten := by
  rw [flatten_block, flatten_block]
  exact .element hname hattributes h

end SameTags

theorem plainAttributes_classes {names : String} (h : Plain names) :
    PlainAttributes (classes names) := by
  have hclass : Plain "class" := by decide
  simpa [PlainAttributes, classes] using ⟨hclass, h⟩

end Predictive.Markup
