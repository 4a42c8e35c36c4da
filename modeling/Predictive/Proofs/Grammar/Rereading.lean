import Predictive.Proofs.Grammar.WellFormed
import Mathlib.Data.List.DropRight

/-!
# Grammars that are written and read again

A line declares a production when its first equals sign has a text other than blanks before it and
a word behind it (`Production.ofLine?_eq_some_iff`). So the productions that can be declared are
those with a trimmed head without equals signs and with bodies of words
(`Production.declarable_iff`), and each of them is declared by the line that it is written as. The
rules of a grammar, written one below the other, are read as the grammar that they come from
(`Grammar.ofText_unlines_rules`).
-/

namespace Predictive

namespace Text

section Pieces

variable {α : Type} {p : α → Bool}

/-- Pieces without a separator are found again when they are joined by one. -/
theorem splitWhere_intercalate {sep : α} (hsep : p sep = true) {pieces : List (List α)}
    (hne : pieces ≠ []) (h : ∀ piece ∈ pieces, ∀ c ∈ piece, p c = false) :
    splitWhere p ([sep].intercalate pieces) = pieces := by
  induction pieces with
  | nil => exact absurd rfl hne
  | cons first others ih =>
    have hfirst := splitWhere_eq_singleton (h first List.mem_cons_self)
    cases others with
    | nil => rw [List.intercalate_singleton, hfirst]
    | cons second others =>
      have hothers := ih (List.cons_ne_nil _ _) fun piece hp => h piece (List.mem_cons_of_mem _ hp)
      rw [List.intercalate_cons_cons, List.append_assoc, List.singleton_append,
        splitWhere_append_cons hsep, hfirst, hothers, List.singleton_append]

/-- Joined pieces have the elements of the pieces and of the separator. -/
theorem forall_mem_intercalate {q : α → Prop} {sep : List α} (hsep : ∀ c ∈ sep, q c)
    {pieces : List (List α)} (h : ∀ piece ∈ pieces, ∀ c ∈ piece, q c) :
    ∀ c ∈ sep.intercalate pieces, q c := by
  induction pieces with
  | nil => simp
  | cons first others ih =>
    obtain ⟨hfirst, hothers⟩ := List.forall_mem_cons.1 h
    cases others with
    | nil => simpa using hfirst
    | cons second others =>
      rw [List.intercalate_cons_cons, List.forall_mem_append, List.forall_mem_append]
      exact ⟨⟨hfirst, hsep⟩, ih hothers⟩

theorem trimWhere_eq_rdropWhile (xs : List α) :
    trimWhere p xs = (xs.dropWhile p).rdropWhile p :=
  rfl

/-- One more element to drop at the end makes no difference. -/
theorem trimWhere_append_singleton {sep : α} (hsep : p sep = true) (xs : List α) :
    trimWhere p (xs ++ [sep]) = trimWhere p xs := by
  rw [trimWhere_eq_rdropWhile, trimWhere_eq_rdropWhile, List.dropWhile_append]
  split
  · next hempty => simp [List.isEmpty_iff.1 hempty, hsep]
  · exact List.rdropWhile_concat_pos p _ sep hsep

/-- A trimmed list has nothing more to drop. -/
theorem trimWhere_trimWhere (xs : List α) : trimWhere p (trimWhere p xs) = trimWhere p xs := by
  have hfront : (trimWhere p xs).dropWhile p = trimWhere p xs := by
    -- A trimmed list begins as the list does that has been dropped from in front.
    have hinitial : trimWhere p xs <+: xs.dropWhile p := List.rdropWhile_prefix p _
    have hdropped := List.dropWhile_eq_self_iff.1 (List.dropWhile_idempotent p xs)
    apply List.dropWhile_eq_self_iff.2
    intro hpos
    rw [hinitial.getElem hpos]
    exact hdropped (hpos.trans_le hinitial.length_le)
  rw [trimWhere_eq_rdropWhile (trimWhere p xs), hfront, trimWhere_eq_rdropWhile,
    List.rdropWhile_idempotent]

end Pieces

theorem trim_trim (text : List Char) : trim (trim text) = trim text :=
  trimWhere_trimWhere text

/-- A word has a character, and none of its characters is a blank. -/
def IsWord (text : List Char) : Prop :=
  text ≠ [] ∧ ∀ c ∈ text, isBlank c = false

theorem isWord_of_mem_wordsOf {text word : List Char} (h : word ∈ wordsOf text) : IsWord word :=
  ⟨ne_nil_of_mem_wordsOf h, not_isBlank_of_mem_wordsOf h⟩

/-- Words are found again when they are joined by spaces. -/
theorem wordsOf_intercalate {pieces : List (List Char)} (h : ∀ piece ∈ pieces, IsWord piece) :
    wordsOf ([' '].intercalate pieces) = pieces := by
  cases pieces with
  | nil => rfl
  | cons first others =>
    rw [wordsOf, splitWhere_intercalate (by decide) (List.cons_ne_nil _ _) fun w hw => (h w hw).2,
      List.filter_eq_self]
    intro w hw
    simpa using (h w hw).1

/-- Lines are found again when they are written one below the other. -/
theorem linesOf_unlines {lines : List String} (hne : lines ≠ [])
    (h : ∀ line ∈ lines, '\n' ∉ line.toList) :
    linesOf (unlines lines).toList = lines.map String.toList := by
  rw [linesOf, unlines, String.toList_intercalate]
  refine splitWhere_intercalate rfl (by simpa using hne) fun piece hpiece c hc => ?_
  obtain ⟨line, hline, rfl⟩ := List.mem_map.1 hpiece
  exact beq_eq_false_iff_ne.2 fun hnewline => h line hline (hnewline ▸ hc)

end Text

namespace Production

/-- A line declares a production when its first equals sign has more than blanks before it and a
word behind it. -/
theorem ofLine?_eq_some_iff {line : List Char} {p : Production} :
    ofLine? line = some p ↔ ∃ left right, line = left ++ '=' :: right ∧ '=' ∉ left ∧
      Text.trim left ≠ [] ∧ Text.wordsOf right ≠ [] ∧
      p = .ofText (String.ofList (Text.trim left)) (String.ofList right) := by
  constructor
  · intro h
    have hline : line.takeWhile (· != '=') ++ line.dropWhile (· != '=') = line :=
      List.takeWhile_append_dropWhile
    have hleft : '=' ∉ line.takeWhile (· != '=') := fun hmem => by
      simpa using List.mem_takeWhile_imp hmem
    unfold ofLine? at h
    split at h
    · cases h
    · next c right hright =>
      have hequals : c = '=' := by
        have hhead := List.head_dropWhile_not (· != '=') (l := line) (by simp [hright])
        simpa [hright] using hhead
      subst hequals
      dsimp only at h
      split at h
      · cases h
      · next hparts =>
        rw [Bool.or_eq_true, not_or, List.isEmpty_iff, List.isEmpty_iff] at hparts
        rw [hright] at hline
        exact ⟨_, right, hline.symm, hleft, hparts.1, hparts.2, (Option.some.inj h).symm⟩
  · rintro ⟨left, right, rfl, hleft, hhead, hbody, rfl⟩
    have hother : ∀ c ∈ left, (c != '=') = true := fun c hc =>
      bne_iff_ne.2 fun hequals => hleft (hequals ▸ hc)
    unfold ofLine?
    rw [List.dropWhile_append_of_pos hother, List.takeWhile_append_of_pos hother,
      List.dropWhile_cons_of_neg (by simp), List.takeWhile_cons_of_neg (by simp), List.append_nil]
    simp [hhead, hbody]

/-- The body of a production consists of the words that it is read from, without the reserved
spelling. -/
theorem body_ofText (head : String) (right : List Char) :
    (ofText head (String.ofList right)).body =
      ((Text.wordsOf right).map String.ofList).filter (· ≠ emptyMarker) := by
  rw [ofText, Text.words, String.toList_ofList]

/-- A production has the head that it is read from, and its words as body. -/
theorem eq_ofText {p : Production} {right : List Char}
    (h : ((Text.wordsOf right).map String.ofList).filter (· ≠ emptyMarker) = p.body) :
    p = ofText p.head (String.ofList right) := by
  obtain ⟨head, body⟩ := p
  rw [← body_ofText head] at h
  exact congrArg (Production.mk head) h.symm

/-- The production can be declared by a line. -/
structure Declarable (p : Production) : Prop where
  head_ne_nil : p.head.toList ≠ []
  trim_head : Text.trim p.head.toList = p.head.toList
  equals_not_mem : '=' ∉ p.head.toList
  newline_not_mem : '\n' ∉ p.head.toList
  isWord : ∀ s ∈ p.body, Text.IsWord s.toList
  emptyMarker_not_mem : emptyMarker ∉ p.body

/-- What a line declares has a trimmed head and a body of words. -/
theorem declarable_of_ofLine? {line : List Char} {p : Production} (hline : '\n' ∉ line)
    (h : ofLine? line = some p) : p.Declarable := by
  obtain ⟨left, right, rfl, hleft, hhead, -, rfl⟩ := ofLine?_eq_some_iff.1 h
  have hsubset : ∀ c ∈ Text.trim left, c ∈ left := fun c hc =>
    (List.dropWhile_sublist _).subset ((List.rdropWhile_prefix _ _).subset hc)
  constructor
  case head_ne_nil => simpa [ofText] using hhead
  case trim_head => simpa [ofText] using Text.trim_trim left
  case equals_not_mem => simpa [ofText] using fun hc => hleft (hsubset _ hc)
  case newline_not_mem =>
    simpa [ofText] using fun hc => hline (List.mem_append_left _ (hsubset _ hc))
  case isWord =>
    intro s hs
    rw [body_ofText] at hs
    obtain ⟨word, hword, rfl⟩ := List.mem_map.1 (List.mem_filter.1 hs).1
    rw [String.toList_ofList]
    exact Text.isWord_of_mem_wordsOf hword
  case emptyMarker_not_mem => exact emptyMarker_not_mem_body _ _

/-- The words that the body of a production is written as. -/
theorem wordsOf_bodyText {p : Production} (hwords : ∀ s ∈ p.body, Text.IsWord s.toList) :
    Text.wordsOf p.bodyText.toList =
      if p.body.isEmpty then [emptyMarker.toList] else p.body.map String.toList := by
  unfold bodyText
  split
  · exact Text.wordsOf_eq_singleton (by simp [emptyMarker]) (by simp [emptyMarker, Text.isBlank])
  · rw [Text.unwords, String.toList_intercalate]
    apply Text.wordsOf_intercalate
    intro piece hpiece
    obtain ⟨s, hs, rfl⟩ := List.mem_map.1 hpiece
    exact hwords s hs

/-- A production is written in one line. -/
theorem Declarable.newline_not_mem_text {p : Production} (h : p.Declarable) :
    '\n' ∉ p.text.toList := by
  have hbody : ∀ c ∈ p.bodyText.toList, c ≠ '\n' := by
    unfold bodyText
    split
    · simp [emptyMarker]
    · rw [Text.unwords, String.toList_intercalate]
      refine Text.forall_mem_intercalate (by simp) fun piece hpiece c hc => ?_
      obtain ⟨s, hs, rfl⟩ := List.mem_map.1 hpiece
      rintro rfl
      exact Bool.noConfusion ((h.isWord s hs).2 _ hc)
  simpa [text, h.newline_not_mem] using fun hc => hbody _ hc rfl

/-- A production is declared by the line that it is written as. -/
theorem Declarable.ofLine?_text {p : Production} (h : p.Declarable) :
    ofLine? p.text.toList = some p := by
  have hwords := wordsOf_bodyText h.isWord
  have hright : Text.wordsOf (' ' :: p.bodyText.toList) = Text.wordsOf p.bodyText.toList :=
    Text.wordsOf_append_cons rfl [] _
  have hleft : Text.trim (p.head.toList ++ [' ']) = p.head.toList :=
    (Text.trimWhere_append_singleton rfl _).trans h.trim_head
  apply ofLine?_eq_some_iff.2
  refine ⟨p.head.toList ++ [' '], ' ' :: p.bodyText.toList, ?_, ?_, ?_, ?_, ?_⟩
  · simp [text]
  · simpa using h.equals_not_mem
  · rw [hleft]
    exact h.head_ne_nil
  · rw [hright, hwords]
    split
    · simp
    · next hbody => simpa using hbody
  · rw [hleft, String.ofList_toList]
    apply eq_ofText
    rw [hright, hwords]
    split
    · next hbody => simp [List.isEmpty_iff.1 hbody]
    · rw [List.map_map, String.ofList_comp_toList, List.map_id, List.filter_eq_self]
      intro s hs
      simpa using ne_of_mem_of_not_mem hs h.emptyMarker_not_mem

/-- A production can be declared just when some line declares it. -/
theorem declarable_iff {p : Production} :
    p.Declarable ↔ ∃ line, '\n' ∉ line ∧ ofLine? line = some p := by
  constructor
  · exact fun h => ⟨p.text.toList, h.newline_not_mem_text, h.ofLine?_text⟩
  · rintro ⟨line, hline, h⟩
    exact declarable_of_ofLine? hline h

/-- What a text declares can be declared. -/
theorem declarable_of_readAll {text : String} {p : Production} (h : p ∈ readAll text) :
    p.Declarable := by
  obtain ⟨line, hline, hp⟩ := List.mem_filterMap.1 h
  refine declarable_of_ofLine? (fun hnewline => ?_) hp
  simpa using Text.eq_false_of_mem_splitWhere hline _ hnewline

/-- Productions that can be declared are read from the lines that they are written as. -/
theorem readAll_unlines {productions : List Production} (hne : productions ≠ [])
    (h : ∀ p ∈ productions, p.Declarable) :
    readAll (Text.unlines (productions.map text)) = productions := by
  have hlines : ∀ line ∈ productions.map text, '\n' ∉ line.toList := by
    intro line hline
    obtain ⟨p, hp, rfl⟩ := List.mem_map.1 hline
    exact (h p hp).newline_not_mem_text
  calc readAll (Text.unlines (productions.map text))
      = productions.filterMap fun p => ofLine? p.text.toList := by
        rw [readAll, Text.linesOf_unlines (by simpa using hne) hlines, List.filterMap_map,
          List.filterMap_map]
        rfl
    _ = productions.filterMap some := List.filterMap_congr fun p hp => (h p hp).ofLine?_text
    _ = productions := List.filterMap_some

end Production

/-- Numbered rules are still the productions that they come from. -/
theorem Rule.map_toProduction_number (productions : List Production) :
    (Rule.number productions).map (·.toProduction) = productions := by
  simp [Rule.number, Function.comp_def, List.zipIdx_map_fst]

namespace Grammar

variable {g : Grammar}

/-- The rules of a grammar, written one below the other, are read as the same grammar. -/
theorem ofText_unlines_rules {text : String} (hread : ofText text = .ok g) :
    ofText (Text.unlines (g.rules.map fun r => r.text)) = .ok g := by
  unfold ofText at hread
  split at hread
  · cases hread
  · next first others hproductions =>
    cases hread
    have hdeclarable : ∀ p ∈ first :: others, p.Declarable := fun p hp =>
      Production.declarable_of_readAll (hproductions ▸ hp)
    have hrules : (ofProductions first others).rules.map (fun r => r.text) =
        (first :: others).map Production.text := by
      rw [← Rule.map_toProduction_number (first :: others), List.map_map]
      rfl
    have hreread := Production.readAll_unlines (List.cons_ne_nil first others) hdeclarable
    rw [hrules, ofText, hreread]

/-- Lines that declare nothing, blanks and reserved spellings among symbols. -/
def untidyText : String :=
  "A b = = c EMPTY\r\n\nnone\n = x\nA b=EMPTY\r\nA b = \u00a0\n \tC\rD\u2003=A b"

/-- What the text declares: heads with a blank or a carriage return inside, an equals sign as a
symbol and a production without symbols. -/
def untidy : Grammar :=
  .ofProductions ⟨"A b", ["=", "c"]⟩ [⟨"A b", []⟩, ⟨"C\rD", ["A", "b"]⟩]

/-- What declares nothing is gone in the lines that are written, which are read as the same
grammar. -/
theorem ofText_unlines_rules_of_untidy :
    ofText untidyText = .ok untidy ∧
      Text.unlines (untidy.rules.map fun r => r.text) = "A b = = c\nA b = EMPTY\nC\rD = A b" ∧
      ofText "A b = = c\nA b = EMPTY\nC\rD = A b" = .ok untidy := by
  have hread : ofText untidyText = .ok untidy := by cbv
  have hwritten : Text.unlines (untidy.rules.map fun r => r.text) =
      "A b = = c\nA b = EMPTY\nC\rD = A b" := rfl
  have hreread := ofText_unlines_rules hread
  rw [hwritten] at hreread
  exact ⟨hread, hwritten, hreread⟩

end Grammar

end Predictive
