import Predictive.Proofs.Render.Tags
import Predictive.Service.Escape

/-!
# Messages are escaped at once

The service replaces one character after the other in the whole text. No replacement touches what an
earlier one has brought in, as the ampersand comes first. So the replacements come to writing every
character by itself (`foldl_replaceChar`), and what holds of texts written with a table of codes
holds of messages (`escapesAtOnce_escapeMessage`).
-/

namespace Predictive.Service

open Markup (entityTable escapeChar reserved)
open Text (CodeTable CodesComplete)

/-- Replacements come to writing every character by itself, if no character is replaced that stands
in the code of an earlier one. -/
theorem foldl_replaceChar {table : CodeTable}
    (h : table.Pairwise fun entry later => later.1 ∉ entry.2) (text : List Char) :
    table.foldl (fun done entry => replaceChar entry.1 entry.2 done) text = table.encode text := by
  induction table generalizing text with
  | nil => simp [CodeTable.encode_eq_self, CodeTable.keys]
  | cons entry table ih =>
    obtain ⟨key, code⟩ := entry
    obtain ⟨hlater, htable⟩ := List.pairwise_cons.1 h
    have hcode : CodeTable.encode table code = code := by
      apply CodeTable.encode_eq_self
      intro c hc hkey
      obtain ⟨later, hmem, rfl⟩ := List.mem_map.1 hkey
      exact hlater later hmem hc
    have hboth (c : Char) : CodeTable.encode table (if c = key then code else [c]) =
        CodeTable.codeOf ((key, code) :: table) c := by
      rw [CodeTable.codeOf_cons]
      split
      · exact hcode
      · simp
    calc ((key, code) :: table).foldl (fun done entry => replaceChar entry.1 entry.2 done) text
        = CodeTable.encode table (replaceChar key code text) := ih htable _
      _ = text.flatMap fun c => CodeTable.encode table (if c = key then code else [c]) :=
          List.flatMap_assoc
      _ = CodeTable.encode ((key, code) :: table) text := List.flatMap_congr fun c _ => hboth c

/-! The entities of messages. -/

/-- The entity of an apostrophe in messages, by its number in base ten. -/
def apostropheEntity : List Char := "&#039;".toList

theorem marked_entityTable_message : (entityTable apostropheEntity).Marked '&' :=
  Markup.marked_entityTable "039;".toList (by simp [reserved])

/-- Reads a message that was escaped. -/
def unescapeMessage (message : String) : String :=
  String.ofList ((entityTable apostropheEntity).decode message.toList)

theorem toList_escapeMessage (message : String) :
    (escapeMessage message).toList = (entityTable apostropheEntity).encode message.toList := by
  have hlater : replacements.Pairwise fun entry later => later.1 ∉ entry.2 := by decide
  rw [escapeMessage, String.toList_ofList, escapeChars, foldl_replaceChar hlater]
  rfl

/-- Escaping messages replaces all characters with a meaning in markup at once, and it can be
undone. -/
structure EscapesAtOnce (escaped : String → String) : Prop where
  eq_flatMap : ∀ message,
    (escaped message).toList = message.toList.flatMap (escapeChar apostropheEntity)
  not_mem : ∀ message, ∀ c ∈ reserved, c ≠ '&' → c ∉ (escaped message).toList
  /-- Every ampersand begins one of the five entities. -/
  complete : ∀ message, CodesComplete '&' ((entityTable apostropheEntity).map Prod.snd)
    (escaped message).toList
  append : ∀ message other, escaped (message ++ other) = escaped message ++ escaped other
  unescape : ∀ message, unescapeMessage (escaped message) = message
  injective : Function.Injective escaped

/-- The replacements one after the other escape messages at once. -/
theorem escapesAtOnce_escapeMessage : EscapesAtOnce escapeMessage := by
  have hread (message : String) : unescapeMessage (escapeMessage message) = message := by
    rw [unescapeMessage, toList_escapeMessage, marked_entityTable_message.decode_encode,
      String.ofList_toList]
  constructor
  case eq_flatMap =>
    intro message
    rw [toList_escapeMessage, CodeTable.encode]
    exact List.flatMap_congr fun c _ => (Markup.escapeChar_eq_codeOf apostropheEntity c).symm
  case not_mem =>
    intro message c hc hamp
    rw [toList_escapeMessage]
    apply marked_entityTable_message.not_mem_encode _ hamp
    exact Markup.mem_keys_entityTable.2 hc
  case complete =>
    intro message
    rw [toList_escapeMessage]
    exact marked_entityTable_message.codesComplete_encode message.toList
  case append =>
    intro message other
    rw [← String.toList_inj]
    simp [toList_escapeMessage, CodeTable.encode_append]
  case unescape => exact hread
  case injective => exact Function.LeftInverse.injective hread

/-- A text that looks like an entity is escaped like any other. -/
example : escapeMessage "&lt;" = "&amp;lt;" ∧ unescapeMessage "&amp;lt;" = "&lt;" := by
  decide +kernel

end Predictive.Service
