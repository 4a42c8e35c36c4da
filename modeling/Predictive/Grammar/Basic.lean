import Predictive.Text.Blank
import Predictive.Text.Quoted
import Std.Data.ExtTreeSet

/-!
# Context-free grammars

A production rewrites its head, a variable, to the symbols of its body. A grammar numbers its
productions in the order of declaration: a rule is a production with its number, and two equal
productions are two rules. Every symbol of a body that is not declared as a variable when the
grammar is made is a terminal.

Every rule is filed under the variable that it is an alternative of. The filing keeps the variables
in the order in which they first come and the alternatives of each in the order of declaration; what
is found under a variable are the rules that it owns (`Filing.found_ofRules`).

A rule may be added later. It is filed as an alternative of a variable of the caller's choice,
usually its head, and does not change what counts as a terminal.
-/

namespace Predictive

/-- Symbols are told apart by their spelling alone. -/
abbrev Symbol := String

/-- Finite sets of symbols, listed in code point order. -/
abbrev SymbolSet := Std.ExtTreeSet Symbol

/-- The reserved spelling: in a body it stands for no symbol at all, as a key of a table for the
end of the input. -/
def emptyMarker : Symbol := "EMPTY"

/-- A variable and the symbols that it may be rewritten to. -/
structure Production where
  head : Symbol
  body : List Symbol
deriving DecidableEq, Repr

namespace Production

/-- The production whose body is written as words; the reserved spelling is left out. -/
def ofText (head body : String) : Production where
  head := head
  body := (Text.words body).filter (· ≠ emptyMarker)

/-- The body as words, with the reserved spelling for an empty one. -/
def bodyText (p : Production) : String :=
  if p.body.isEmpty then emptyMarker else Text.unwords p.body

/-- The production as a line of a grammar. -/
def text (p : Production) : String :=
  p.head ++ " = " ++ p.bodyText

/-- The production as it is shown inside other values. -/
def shown (p : Production) : String :=
  "Rule(" ++ p.text ++ ")"

end Production

/-- A production of a grammar, with its number and the variable that it is an alternative of. -/
structure Rule extends Production where
  owner : Symbol
  index : Nat
deriving DecidableEq, Repr

namespace Rule

/-- The productions as rules of their heads, numbered from zero. -/
def number (productions : List Production) : List Rule :=
  productions.zipIdx.map fun (p, i) => { p with owner := p.head, index := i }

theorem map_index_number (productions : List Production) :
    (number productions).map (·.index) = List.range (number productions).length := by
  have h : (number productions).map (·.index) = productions.zipIdx.map Prod.snd := by
    simp [number, Function.comp_def]
  rw [h, List.zipIdx_map_snd, List.range_eq_range']
  simp [number]

end Rule

/-- Variables with their alternatives, in the order in which the variables first come. -/
abbrev Filing := List (Symbol × List Rule)

namespace Filing

/-- Files a rule behind the other alternatives of its owner; a new owner comes last. -/
def add (filing : Filing) (r : Rule) : Filing :=
  match filing with
  | [] => [(r.owner, [r])]
  | (v, rules) :: rest =>
    if v = r.owner then (v, rules ++ [r]) :: rest else (v, rules) :: add rest r

/-- The filing of rules that come one after the other. -/
def ofRules (rules : List Rule) : Filing :=
  rules.foldl add []

/-- The variables that rules are filed under. -/
def owners (filing : Filing) : List Symbol :=
  filing.map Prod.fst

/-- The rules that are filed under a variable. -/
def found (filing : Filing) (v : Symbol) : List Rule :=
  (filing.lookup v).getD []

theorem found_cons (w : Symbol) (rules : List Rule) (filing : Filing) (v : Symbol) :
    found ((w, rules) :: filing) v = if v = w then rules else filing.found v := by
  by_cases h : v = w
  · simp [found, h]
  · simp [found, List.lookup_cons, beq_eq_false_iff_ne.2 h, h]

theorem owners_cons (v : Symbol) (rules : List Rule) (filing : Filing) :
    owners ((v, rules) :: filing) = v :: filing.owners :=
  rfl

theorem owners_add (filing : Filing) (r : Rule) :
    (filing.add r).owners =
      if r.owner ∈ filing.owners then filing.owners else filing.owners ++ [r.owner] := by
  induction filing with
  | nil => simp [add, owners]
  | cons entry rest ih =>
    obtain ⟨v, rules⟩ := entry
    by_cases hv : v = r.owner
    · simp [add, owners_cons, hv]
    · rw [add, if_neg hv, owners_cons, owners_cons, ih]
      by_cases hmem : r.owner ∈ owners rest
      · simp [hmem]
      · simp [hmem, Ne.symm hv]

theorem found_add (filing : Filing) (r : Rule) (v : Symbol) :
    (filing.add r).found v = filing.found v ++ if v = r.owner then [r] else [] := by
  induction filing with
  | nil => rw [add, found_cons]; rfl
  | cons entry rest ih =>
    obtain ⟨w, rules⟩ := entry
    by_cases hw : w = r.owner
    · subst hw
      rw [add, if_pos rfl, found_cons, found_cons]
      split <;> simp
    · rw [add, if_neg hw, found_cons, found_cons, ih]
      by_cases hv : v = w
      · subst hv
        simp [hw]
      · rw [if_neg hv, if_neg hv]

/-- Rules that are filed on top of others are found behind them. -/
theorem found_foldl_add (filing : Filing) (rules : List Rule) (v : Symbol) :
    (rules.foldl add filing).found v = filing.found v ++ rules.filter (·.owner == v) := by
  induction rules generalizing filing with
  | nil => simp
  | cons r rules ih =>
    rw [List.foldl_cons, ih, found_add, List.append_assoc, List.filter_cons]
    by_cases hv : v = r.owner
    · simp [hv]
    · simp [hv, Ne.symm hv]

/-- Owners of rules that are filed on top of others come behind those that are there. -/
theorem owners_foldl_add (filing : Filing) (rules : List Rule) :
    (rules.foldl add filing).owners =
      filing.owners ++ ((rules.map (·.owner)).removeAll filing.owners).eraseDups := by
  induction rules generalizing filing with
  | nil => simp [List.removeAll]
  | cons r rules ih =>
    rw [List.foldl_cons, ih, owners_add, List.map_cons, List.cons_removeAll]
    by_cases hmem : r.owner ∈ filing.owners
    · simp [hmem]
    · -- The new owner is taken off the later ones, like those that are filed already.
      have hlater : (fun v => !decide (v ∈ filing.owners) && !decide (v = r.owner)) =
          fun v => !v == r.owner && !decide (v ∈ filing.owners) := by
        funext v
        rw [Bool.and_comm]
        rfl
      simp [hmem, List.eraseDups_cons, List.removeAll, List.filter_filter, hlater]

/-- Under a variable the rules that it owns are found, in the order of declaration. -/
theorem found_ofRules (rules : List Rule) (v : Symbol) :
    (ofRules rules).found v = rules.filter (·.owner == v) :=
  found_foldl_add [] rules v

/-- The owners stand in the order in which they first own a rule. -/
theorem owners_ofRules (rules : List Rule) :
    (ofRules rules).owners = (rules.map (·.owner)).eraseDups := by
  have hempty : owners [] = [] := rfl
  rw [ofRules, owners_foldl_add, hempty, List.nil_append, List.removeAll_nil]

end Filing

/-- Rules in the order of declaration and filed under their owners, the variable to begin with and
the terminals. -/
structure Grammar where
  rules : List Rule
  filing : Filing
  start : Symbol
  terminals : SymbolSet
  indexed : rules.map (·.index) = List.range rules.length
  filed : filing = .ofRules rules

namespace Grammar

/-- The symbols of the bodies that are no head. -/
def terminalsOf (productions : List Production) : SymbolSet :=
  let heads := productions.map (·.head)
  .ofList ((productions.flatMap (·.body)).filter fun s => !heads.contains s)

/-- The grammar of at least one production; the first head is the start symbol. -/
def ofProductions (first : Production) (others : List Production) : Grammar where
  rules := Rule.number (first :: others)
  filing := .ofRules (Rule.number (first :: others))
  start := first.head
  terminals := terminalsOf (first :: others)
  indexed := Rule.map_index_number _
  filed := rfl

/-- A further rule among the alternatives of `owner`. Start symbol and terminals stay. -/
def addRule (g : Grammar) (owner : Symbol) (p : Production) : Grammar where
  rules := g.rules ++ [{ p with owner := owner, index := g.rules.length }]
  filing := g.filing.add { p with owner := owner, index := g.rules.length }
  start := g.start
  terminals := g.terminals
  indexed := by simp [g.indexed, List.range_succ]
  filed := by rw [g.filed, Filing.ofRules, Filing.ofRules, List.foldl_append]; rfl

/-- Is the symbol a terminal of the grammar? -/
def isTerminal (g : Grammar) (s : Symbol) : Bool :=
  g.terminals.contains s

/-- The variables that own rules, in the order in which they first do. -/
def nonterminals (g : Grammar) : List Symbol :=
  g.filing.owners

/-- The rules that a variable owns, in the order of declaration. -/
def alternatives (g : Grammar) (v : Symbol) : List Rule :=
  g.filing.found v

/-- The heads of the rules, in the order of declaration. -/
def heads (g : Grammar) : List Symbol :=
  g.rules.map (·.head)

/-- The rule with a number. -/
def rule? (g : Grammar) (index : Nat) : Option Rule :=
  g.rules[index]?

/-- The grammar as a listing of its parts. -/
def text (g : Grammar) : String :=
  Text.unlines ([
    "Start Symbol: " ++ g.start,
    "Terminals: " ++ Text.quotedList g.terminals.toList,
    "Non-terminals: " ++ Text.quotedList g.nonterminals,
    "Rules:"] ++ g.rules.map fun r => "  " ++ r.text)

theorem nonterminals_eq_eraseDups (g : Grammar) :
    g.nonterminals = (g.rules.map (·.owner)).eraseDups := by
  rw [nonterminals, g.filed, Filing.owners_ofRules]

theorem alternatives_eq_filter (g : Grammar) (v : Symbol) :
    g.alternatives v = g.rules.filter (·.owner == v) := by
  rw [alternatives, g.filed, Filing.found_ofRules]

theorem mem_nonterminals {g : Grammar} {v : Symbol} :
    v ∈ g.nonterminals ↔ ∃ r ∈ g.rules, r.owner = v := by
  simp [nonterminals_eq_eraseDups]

theorem mem_alternatives {g : Grammar} {v : Symbol} {r : Rule} :
    r ∈ g.alternatives v ↔ r ∈ g.rules ∧ r.owner = v := by
  simp [alternatives_eq_filter]

/-- The alternatives of a variable are rules of the grammar. -/
theorem rules_of_alternatives {g : Grammar} (v : Symbol) : ∀ r ∈ g.alternatives v, r ∈ g.rules :=
  fun _ hr => (mem_alternatives.1 hr).1

/-- A variable is declared as soon as it owns a rule. -/
theorem mem_nonterminals_of_alternatives_ne_nil {g : Grammar} {v : Symbol}
    (h : g.alternatives v ≠ []) : v ∈ g.nonterminals := by
  obtain ⟨r, hr⟩ := List.exists_mem_of_ne_nil _ h
  exact mem_nonterminals.2 ⟨r, mem_alternatives.1 hr⟩

theorem mem_heads {g : Grammar} {r : Rule} (h : r ∈ g.rules) : r.head ∈ g.heads :=
  List.mem_map_of_mem h

/-- A rule stands at the place that its number says. -/
theorem rule?_index {g : Grammar} {r : Rule} (h : r ∈ g.rules) : g.rule? r.index = some r := by
  obtain ⟨i, hi, rfl⟩ := List.getElem_of_mem h
  have hindex : (g.rules.map (·.index))[i]? = (List.range g.rules.length)[i]? := by rw [g.indexed]
  simp [hi] at hindex
  simp [rule?, hindex, hi]

/-- Two rules of a grammar with the same number are the same rule. -/
theorem eq_of_index_eq {g : Grammar} {r s : Rule} (hr : r ∈ g.rules) (hs : s ∈ g.rules)
    (h : r.index = s.index) : r = s := by
  have hr' := rule?_index hr
  rw [h, rule?_index hs] at hr'
  exact (Option.some.inj hr').symm

end Grammar

end Predictive
