import Mathlib.Data.List.Infix

/-!
# Codes for characters

A table says what is written for some characters; every other character is written as itself. A
written text is read from the front: where one of the codes begins, it is read as its character.

In a table with a marker (`Marked`) every code begins with the marker, which has a code itself. So
no character outside the table begins a code, and the codes do not begin each other: what is written
is read back (`Marked.decode_encode`), it holds none of the other characters with a code, and every
marker in it begins a code (`Marked.codesComplete_encode`).
-/

namespace Predictive.Text

/-- Every marker in the text is the beginning of a whole code. -/
def CodesComplete (marker : Char) (codes : List (List Char)) (text : List Char) : Prop :=
  ∀ before after, text = before ++ marker :: after → ∃ code ∈ codes, code <+: marker :: after

namespace CodesComplete

variable {marker : Char} {codes : List (List Char)}

theorem of_not_mem {text : List Char} (h : marker ∉ text) : CodesComplete marker codes text := by
  rintro before after rfl
  exact absurd (by simp) h

/-- A code has its marker at the front and nowhere else. -/
theorem of_mem {name : List Char} (hcode : marker :: name ∈ codes) (hname : marker ∉ name) :
    CodesComplete marker codes (marker :: name) := by
  intro before after hsplit
  cases before with
  | nil =>
    obtain ⟨-, rfl⟩ := List.cons_eq_cons.1 hsplit
    exact ⟨_, hcode, List.prefix_rfl⟩
  | cons c before =>
    obtain ⟨-, rfl⟩ := List.cons_eq_cons.1 hsplit
    exact absurd (by simp) hname

theorem append {first second : List Char} (h : CodesComplete marker codes first)
    (h' : CodesComplete marker codes second) : CodesComplete marker codes (first ++ second) := by
  intro before after hsplit
  rcases List.append_eq_append_iff.1 hsplit with ⟨gap, rfl, hgap⟩ | ⟨gap, rfl, hgap⟩
  · exact h' gap after hgap
  · cases gap with
    | nil => exact h' [] after (by simpa using hgap.symm)
    | cons c gap =>
      obtain ⟨rfl, rfl⟩ := List.cons_eq_cons.1 hgap
      obtain ⟨code, hcode, hprefix⟩ := h before gap rfl
      exact ⟨code, hcode, hprefix.trans (List.prefix_append (marker :: gap) second)⟩

theorem flatMap {α : Type} {f : α → List Char} {xs : List α}
    (h : ∀ x ∈ xs, CodesComplete marker codes (f x)) :
    CodesComplete marker codes (xs.flatMap f) := by
  induction xs with
  | nil => exact of_not_mem (by simp)
  | cons x xs ih =>
    rw [List.flatMap_cons]
    exact (h x List.mem_cons_self).append (ih fun y hy => h y (List.mem_cons_of_mem _ hy))

end CodesComplete

/-- What is written for some characters. -/
abbrev CodeTable := List (Char × List Char)

namespace CodeTable

variable (table : CodeTable)

/-- The characters that have a code. -/
def keys : List Char :=
  table.map Prod.fst

/-- What is written for a character. -/
def codeOf (c : Char) : List Char :=
  (table.lookup c).getD [c]

/-- A text as it is written, every character by itself. -/
def encode (text : List Char) : List Char :=
  text.flatMap table.codeOf

/-- Reads a written text. -/
def decode : List Char → List Char
  | [] => []
  | c :: rest =>
    match table.find? fun entry => entry.2.isPrefixOf (c :: rest) with
    | some entry => entry.1 :: decode (rest.drop (entry.2.length - 1))
    | none => c :: decode rest
termination_by text => text.length
decreasing_by
  · simp only [List.length_drop, List.length_cons]
    omega
  · simp

/-- Every code is the marker with a name behind it. The marker has a code, in names there is no
character with a code, and no code is the beginning of another one. -/
structure Marked (marker : Char) : Prop where
  marker_mem : marker ∈ table.keys
  head_eq : ∀ entry ∈ table, entry.2.head? = some marker
  not_mem_name : ∀ entry ∈ table, ∀ c ∈ entry.2.tail, c ∉ table.keys
  eq_of_prefix : ∀ entry ∈ table, ∀ other ∈ table, entry.2 <+: other.2 → entry = other

variable {table} {marker : Char}

@[simp]
theorem codeOf_nil (c : Char) : codeOf [] c = [c] :=
  rfl

/-- The first entry of a character counts. -/
theorem codeOf_cons (key : Char) (code : List Char) (c : Char) :
    codeOf ((key, code) :: table) c = if c = key then code else table.codeOf c := by
  by_cases hkey : c = key
  · simp [codeOf, hkey]
  · simp [codeOf, List.lookup_cons, beq_eq_false_iff_ne.2 hkey, hkey]

/-- What is written for a character is its code, or the character itself if it has none. -/
theorem codeOf_cases (table : CodeTable) (c : Char) :
    (c, table.codeOf c) ∈ table ∨ (c ∉ table.keys ∧ table.codeOf c = [c]) := by
  induction table with
  | nil => simp [keys]
  | cons entry table ih =>
    obtain ⟨key, code⟩ := entry
    rw [codeOf_cons]
    by_cases hkey : c = key
    · simp [hkey]
    · rw [if_neg hkey]
      rcases ih with hmem | ⟨hnone, hself⟩
      · exact .inl (List.mem_cons_of_mem _ hmem)
      · exact .inr ⟨by simpa [keys, hkey] using hnone, hself⟩

theorem codeOf_of_not_mem {c : Char} (h : c ∉ table.keys) : table.codeOf c = [c] := by
  rcases table.codeOf_cases c with hentry | ⟨-, hself⟩
  · exact absurd (List.mem_map_of_mem hentry) h
  · exact hself

@[simp]
theorem encode_nil : table.encode [] = [] :=
  rfl

@[simp]
theorem encode_cons (c : Char) (text : List Char) :
    table.encode (c :: text) = table.codeOf c ++ table.encode text :=
  List.flatMap_cons

/-- A text without characters that have a code is written as it is. -/
theorem encode_eq_self {text : List Char} (h : ∀ c ∈ text, c ∉ table.keys) :
    table.encode text = text := by
  induction text with
  | nil => rfl
  | cons c text ih =>
    obtain ⟨hc, htext⟩ := List.forall_mem_cons.1 h
    rw [encode_cons, codeOf_of_not_mem hc, ih htext, List.singleton_append]

theorem encode_append (text other : List Char) :
    table.encode (text ++ other) = table.encode text ++ table.encode other :=
  List.flatMap_append

namespace Marked

variable (h : table.Marked marker)

include h

/-- A code is the marker with a name behind it. -/
theorem exists_name {c : Char} {code : List Char} (hentry : (c, code) ∈ table) :
    ∃ name, code = marker :: name ∧ ∀ d ∈ name, d ∉ table.keys := by
  obtain ⟨name, rfl⟩ := List.head?_eq_some_iff.1 (h.head_eq _ hentry)
  exact ⟨name, rfl, h.not_mem_name _ hentry⟩

/-- Of the characters with a code at most the marker is written. -/
theorem not_mem_encode {c : Char} (hc : c ∈ table.keys) (hmarker : c ≠ marker)
    (text : List Char) : c ∉ table.encode text := by
  simp only [encode, List.mem_flatMap, not_exists, not_and]
  intro d _ hwritten
  rcases table.codeOf_cases d with hentry | ⟨hnone, hself⟩
  · obtain ⟨name, hcode, hname⟩ := h.exists_name hentry
    rw [hcode, List.mem_cons] at hwritten
    exact hname c (hwritten.resolve_left hmarker) hc
  · rw [hself, List.mem_singleton] at hwritten
    exact hnone (hwritten ▸ hc)

/-- Every marker that is written begins a code. -/
theorem codesComplete_encode (text : List Char) :
    CodesComplete marker (table.map Prod.snd) (table.encode text) := by
  apply CodesComplete.flatMap
  intro c _
  rcases table.codeOf_cases c with hentry | ⟨hnone, hself⟩
  · obtain ⟨name, hcode, hname⟩ := h.exists_name hentry
    have hmem : marker :: name ∈ table.map Prod.snd := hcode ▸ List.mem_map_of_mem hentry
    rw [hcode]
    exact .of_mem hmem fun hmarker => hname marker hmarker h.marker_mem
  · apply CodesComplete.of_not_mem
    rw [hself, List.mem_singleton]
    intro hmarker
    exact hnone (hmarker ▸ h.marker_mem)

/-- At the beginning of a code no other entry is found. -/
theorem find?_append {c : Char} {code : List Char} (hentry : (c, code) ∈ table)
    (rest : List Char) :
    table.find? (fun other => other.2.isPrefixOf (code ++ rest)) = some (c, code) := by
  cases hfound : table.find? fun other => other.2.isPrefixOf (code ++ rest) with
  | none =>
    have hnone := List.find?_eq_none.1 hfound _ hentry
    simp at hnone
  | some other =>
    have hother : other ∈ table := List.mem_of_find?_eq_some hfound
    have hbegins : other.2 <+: code ++ rest := by
      simpa using List.find?_some hfound
    -- Two codes at the front of one text: the shorter one begins the longer one.
    rcases List.prefix_or_prefix_of_prefix hbegins (List.prefix_append code rest) with hle | hle
    · rw [h.eq_of_prefix other hother _ hentry hle]
    · rw [h.eq_of_prefix _ hentry other hother hle]

/-- What is written for a character is read as that character. -/
theorem decode_codeOf_append (c : Char) (rest : List Char) :
    table.decode (table.codeOf c ++ rest) = c :: table.decode rest := by
  rcases table.codeOf_cases c with hentry | ⟨hnone, hself⟩
  · have hfound := h.find?_append hentry rest
    obtain ⟨name, hcode, -⟩ := h.exists_name hentry
    rw [hcode, List.cons_append] at hfound ⊢
    rw [decode, hfound]
    simp
  · have hother : table.find? (fun other => other.2.isPrefixOf (c :: rest)) = none := by
      rw [List.find?_eq_none]
      intro other hmem
      obtain ⟨name, hcode, -⟩ := h.exists_name hmem
      have hne : marker ≠ c := by
        rintro rfl
        exact hnone h.marker_mem
      simp [hcode, hne]
    rw [hself, List.singleton_append, decode, hother]

/-- A written text is read back. -/
theorem decode_encode (text : List Char) : table.decode (table.encode text) = text := by
  induction text with
  | nil => simp [decode]
  | cons c text ih => rw [encode_cons, h.decode_codeOf_append, ih]

end Marked

end CodeTable

end Predictive.Text
