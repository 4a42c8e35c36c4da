import Predictive.Proofs.Analysis.Lookahead
import Predictive.Render.Sets

/-!
# What is printed of the sets

A listing is described here in the words that stand in it, line by line and apart from the functions
that write it: a heading for each kind of set, and below it a line for each variable or rule, in the
order of declaration (`ListsSets`). Of a grammar without left recursion this is what is printed
(`SetsPage.text_ensures`).
-/

namespace Predictive

open Analysis (Ensures)

/-- Lines in print, each with its end. -/
def printed (lines : List String) : String :=
  String.join (lines.map (· ++ "\n"))

theorem printed_append (front back : List String) :
    printed (front ++ back) = printed front ++ printed back := by
  simp [printed]

theorem printed_eq_unlines {lines : List String} (h : lines ≠ []) :
    printed lines = Text.unlines lines ++ "\n" := by
  induction lines with
  | nil => exact absurd rfl h
  | cons line rest ih =>
    cases rest with
    | nil => simp [printed, Text.unlines]
    | cons next rest =>
      have hrest := ih (by simp)
      rw [Text.unlines, String.intercalate_cons_cons, ← Text.unlines, String.append_assoc,
        String.append_assoc, ← hrest]
      simp [printed, String.append_assoc]

/-- A rule in print: its head, and the symbols of its body or a word for none. -/
def Rule.inPrint (r : Rule) : String :=
  r.head ++ " = " ++ if r.body = [] then "EMPTY" else " ".intercalate r.body

theorem Rule.text_eq_inPrint (r : Rule) : r.text = r.inPrint := by
  rw [Production.text, Production.bodyText, Rule.inPrint]
  cases r.body <;> rfl

/-- A set in print: its members between braces, in code point order. -/
inductive SetInPrint (members : Symbol → Prop) : String → Prop where
  | empty (none : ∀ t, ¬members t) : SetInPrint members "\x7b \x7d"
  | symbols {symbols : List Symbol} (ne_nil : symbols ≠ []) (sorted : symbols.Pairwise (· < ·))
      (mem_iff : ∀ t, t ∈ symbols ↔ members t) :
      SetInPrint members ("\x7b " ++ ", ".intercalate symbols ++ " \x7d")

/-- The lines list what every variable begins with, what can follow it and what selects every rule,
in the order of declaration. -/
def ListsSets (g : Grammar) (lines : List String) : Prop :=
  ∃ firsts follows lookaheads,
    lines = ["FIRST sets"] ++ firsts ++ ["", "FOLLOW sets"] ++ follows ++
      ["", "LOOKAHEAD sets"] ++ lookaheads ∧
    List.Forall₂ (fun v line => ∃ set, SetInPrint (g.Begins [v]) set ∧
      line = "  FIRST(" ++ v ++ ") = " ++ set) g.nonterminals firsts ∧
    List.Forall₂ (fun v line => ∃ set, SetInPrint (g.Follows v) set ∧
      line = "  FOLLOW(" ++ v ++ ") = " ++ set) g.nonterminals follows ∧
    List.Forall₂ (fun r line => ∃ set, SetInPrint (g.Selects r) set ∧
      line = "  LOOKAHEAD(" ++ r.inPrint ++ ") = " ++ set) g.rules lookaheads

namespace SetsPage

theorem setInPrint_setText {symbols : SymbolSet} {members : Symbol → Prop}
    (h : ∀ t, t ∈ symbols ↔ members t) : SetInPrint members (setText symbols) := by
  have hlist (t : Symbol) : t ∈ symbols.toList ↔ members t := by
    rw [Std.ExtTreeSet.mem_toList, h]
  rw [setText, ← Std.ExtTreeSet.isEmpty_toList]
  split
  · next hempty =>
    apply SetInPrint.empty
    intro t ht
    have hmem := (hlist t).2 ht
    rw [List.isEmpty_iff.1 hempty] at hmem
    cases hmem
  · next hne =>
    apply SetInPrint.symbols _ _ hlist
    · exact mt List.isEmpty_iff.2 hne
    · exact symbols.ordered_toList.imp compareOfLessAndEq_eq_lt.1

theorem listing_eq_printed (firsts follows : List (Symbol × SymbolSet))
    (lookaheads : List (Rule × SymbolSet)) :
    listing firsts follows lookaheads = printed (
      ["FIRST sets"] ++ firsts.map (fun entry => textLine "FIRST" entry.1 entry.2) ++
      ["", "FOLLOW sets"] ++ follows.map (fun entry => textLine "FOLLOW" entry.1 entry.2) ++
      ["", "LOOKAHEAD sets"] ++
        lookaheads.map (fun entry => textLine "LOOKAHEAD" entry.1.text entry.2)) := by
  rw [printed_eq_unlines (by simp), listing]
  simp

/-- The listing of a grammar is printed with exact sets, and the only error is a left-recursive
variable. -/
theorem text_ensures {g : Grammar} (wf : g.WellFormed) :
    Ensures (Memo.Exact g) (text g) (fun sets => ∃ lines, ListsSets g lines ∧ sets = printed lines)
      g.IsLeftRecursion := by
  refine wf.allFirst_ensures.bind fun firsts hfirsts => ?_
  refine wf.allFollow_ensures.bind fun follows hfollows => ?_
  refine wf.allLookahead_ensures.bind fun lookaheads hlookaheads => .pure ?_
  refine ⟨_, ⟨_, _, _, rfl, ?_, ?_, ?_⟩, listing_eq_printed firsts follows lookaheads⟩
  · rw [List.forall₂_map_right_iff]
    refine hfirsts.imp ?_
    rintro v ⟨_, symbols⟩ ⟨rfl, -, hmem⟩
    exact ⟨_, setInPrint_setText hmem, rfl⟩
  · rw [List.forall₂_map_right_iff]
    refine hfollows.imp ?_
    rintro v ⟨_, symbols⟩ ⟨rfl, hmem⟩
    exact ⟨_, setInPrint_setText hmem, rfl⟩
  · rw [List.forall₂_map_right_iff]
    refine hlookaheads.imp ?_
    rintro r ⟨_, symbols⟩ ⟨rfl, -, hmem⟩
    exact ⟨_, setInPrint_setText hmem, by rw [Rule.text_eq_inPrint]; rfl⟩

end SetsPage

end Predictive
