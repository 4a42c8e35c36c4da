/-!
# Blanks, words and lines

A text is cut into pieces at separator characters: a line feed ends a line, a run of blanks ends
a word. Pieces are lists of characters, so that statements about them are inductions on lists;
`words` gives the words of a string as strings.

Main statements: a separator ends the pieces before it (`splitWhere_append_cons`), and a word is
never empty and holds no blank (`ne_nil_of_mem_wordsOf`, `not_isBlank_of_mem_wordsOf`).
-/

namespace Predictive.Text

/-- Separates words: the horizontal and vertical white space of Unicode and the four information
separators U+001C to U+001F, but no zero-width character. -/
def isBlank (c : Char) : Bool :=
  let n := c.toNat
  (0x09 ≤ n && n ≤ 0x0d) || (0x1c ≤ n && n ≤ 0x20) || n == 0x85 || n == 0xa0 || n == 0x1680 ||
    (0x2000 ≤ n && n ≤ 0x200a) || n == 0x2028 || n == 0x2029 || n == 0x202f || n == 0x205f ||
    n == 0x3000

/-- Cuts a list at every element that satisfies `p`; the elements cut at are dropped. -/
def splitWhere {α : Type} (p : α → Bool) : List α → List (List α)
  | [] => [[]]
  | c :: rest =>
    if p c then
      [] :: splitWhere p rest
    else
      match splitWhere p rest with
      | [] => [[c]]
      | piece :: pieces => (c :: piece) :: pieces

/-- The words of a text: its longest pieces without a blank. -/
def wordsOf (text : List Char) : List (List Char) :=
  (splitWhere isBlank text).filter fun piece => !piece.isEmpty

/-- The words of a text, as strings. -/
def words (text : String) : List String :=
  (wordsOf text.toList).map String.ofList

/-- The lines of a text. A carriage return stays at the end of its line, where it is a blank. -/
def linesOf (text : List Char) : List (List Char) :=
  splitWhere (· == '\n') text

/-- A list without the elements at its two ends that satisfy `p`. -/
def trimWhere {α : Type} (p : α → Bool) (xs : List α) : List α :=
  ((xs.dropWhile p).reverse.dropWhile p).reverse

/-- A text without the blanks at its two ends. -/
def trim (text : List Char) : List Char :=
  trimWhere isBlank text

/-- Words written one after the other with a space between neighbours. -/
def unwords (pieces : List String) : String :=
  " ".intercalate pieces

/-- Lines written one below the other. -/
def unlines (lines : List String) : String :=
  "\n".intercalate lines

section Pieces

variable {α : Type} {p : α → Bool}

/-- A cut has at least one piece. -/
theorem splitWhere_ne_nil (xs : List α) : splitWhere p xs ≠ [] := by
  cases xs with
  | nil => simp [splitWhere]
  | cons c rest =>
    simp only [splitWhere]
    split
    · simp
    · split <;> simp

theorem splitWhere_cons_of_pos {c : α} (h : p c = true) (rest : List α) :
    splitWhere p (c :: rest) = [] :: splitWhere p rest := by
  simp [splitWhere, h]

theorem splitWhere_cons_of_neg {c : α} (h : p c = false) (rest : List α) :
    ∃ piece pieces, splitWhere p rest = piece :: pieces ∧
      splitWhere p (c :: rest) = (c :: piece) :: pieces := by
  cases hs : splitWhere p rest with
  | nil => exact absurd hs (splitWhere_ne_nil rest)
  | cons piece pieces => exact ⟨piece, pieces, rfl, by simp [splitWhere, h, hs]⟩

/-- No element of a piece is one that the list was cut at. -/
theorem eq_false_of_mem_splitWhere {xs piece : List α} (hp : piece ∈ splitWhere p xs) :
    ∀ c ∈ piece, p c = false := by
  induction xs generalizing piece with
  | nil => simp_all [splitWhere]
  | cons c rest ih =>
    cases h : p c with
    | true =>
      rw [splitWhere_cons_of_pos h, List.mem_cons] at hp
      rcases hp with rfl | hp
      · simp
      · exact ih hp
    | false =>
      obtain ⟨first, others, hrest, heq⟩ := splitWhere_cons_of_neg h rest
      rw [heq, List.mem_cons] at hp
      rcases hp with rfl | hp
      · intro d hd
        rcases List.mem_cons.1 hd with rfl | hd
        · exact h
        · exact ih (hrest ▸ List.mem_cons_self) d hd
      · exact ih (hrest ▸ List.mem_cons_of_mem _ hp)

/-- A list without a separator is cut into itself alone. -/
theorem splitWhere_eq_singleton {xs : List α} (h : ∀ c ∈ xs, p c = false) :
    splitWhere p xs = [xs] := by
  induction xs with
  | nil => rfl
  | cons c rest ih =>
    have hrest := ih fun d hd => h d (List.mem_cons_of_mem _ hd)
    simp [splitWhere, h c List.mem_cons_self, hrest]

/-- A separator ends the pieces of what stands before it. -/
theorem splitWhere_append_cons {sep : α} (h : p sep = true) (xs ys : List α) :
    splitWhere p (xs ++ sep :: ys) = splitWhere p xs ++ splitWhere p ys := by
  induction xs with
  | nil => simp [splitWhere, h]
  | cons c rest ih =>
    cases hc : p c with
    | true => simp [splitWhere_cons_of_pos hc, ih]
    | false =>
      obtain ⟨piece, pieces, hrest, heq⟩ := splitWhere_cons_of_neg hc rest
      simp [List.cons_append, splitWhere, hc, ih, hrest]

end Pieces

/-- A word is not empty. -/
theorem ne_nil_of_mem_wordsOf {text word : List Char} (h : word ∈ wordsOf text) : word ≠ [] := by
  simp only [wordsOf, List.mem_filter] at h
  intro hnil
  simp [hnil] at h

/-- A word holds no blank. -/
theorem not_isBlank_of_mem_wordsOf {text word : List Char} (h : word ∈ wordsOf text) :
    ∀ c ∈ word, isBlank c = false :=
  eq_false_of_mem_splitWhere (List.mem_filter.1 h).1

/-- A text that is one word has itself as its only word. -/
theorem wordsOf_eq_singleton {text : List Char} (hne : text ≠ [])
    (h : ∀ c ∈ text, isBlank c = false) : wordsOf text = [text] := by
  simp [wordsOf, splitWhere_eq_singleton h, hne]

/-- A blank ends a word. -/
theorem wordsOf_append_cons {sep : Char} (h : isBlank sep = true) (xs ys : List Char) :
    wordsOf (xs ++ sep :: ys) = wordsOf xs ++ wordsOf ys := by
  simp [wordsOf, splitWhere_append_cons h]

end Predictive.Text
