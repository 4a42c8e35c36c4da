import Predictive.Parsing.Trace
import Predictive.Analysis.Prediction

/-!
# Parsing with a predictive table

The parser keeps a stack of symbols, at first the start symbol alone. The symbol on top is matched
against the next token, or expanded by the rule that the table has for it. The input is accepted
when stack and input are used up together.

`Parser.move` says what is done in a configuration and `Parser.runFrom` repeats it. An expansion
reads nothing, so a table could in principle expand for ever. But what is done with a symbol
depends on the symbol and the next token alone: a variable that comes up inside its own expansion
before a token is read comes up there again and again. An expansion that ends therefore has the
shape of a tree no deeper than the table has rows. Between two tokens the parser has an allowance
of that many expansions for each symbol on the stack; it has no result if it would never end.
-/

namespace Predictive

/-- The terminals of a grammar and a table for it. -/
structure Parser where
  terminals : SymbolSet
  table : Table

/-- The number of tokens read, the symbols still to be derived and the tokens still to be read. -/
structure Config where
  consumed : Nat
  stack : List Symbol
  rest : List Symbol
deriving DecidableEq, Repr

namespace Config

/-- The configuration after the symbol on top has been matched. -/
def afterMatch (c : Config) : Config where
  consumed := c.consumed + 1
  stack := c.stack.tail
  rest := c.rest.tail

/-- The configuration after the symbol on top has been replaced by the body of a rule. -/
def afterExpansion (c : Config) (r : Rule) : Config where
  consumed := c.consumed
  stack := r.body ++ c.stack.tail
  rest := c.rest

/-- The step of a trace at this configuration. -/
def step (c : Config) (number : Nat) (action : Action) (rule : Option Rule) : Step where
  number := number
  stack := c.stack
  input := c.rest
  action := action
  rule := rule

/-- The result of an input that is accepted here. -/
def accepted (c : Config) (number : Nat) : ParseOutcome where
  success := true
  trace := [c.step number .accepted none]

/-- The result of an input that is refused here. -/
def refused (c : Config) (number : Nat) (failure : Failure) : ParseOutcome where
  success := false
  errorMessage := failure.message
  errorPosition := c.consumed
  trace := [c.step number .failed none]

end Config

/-- What is to be done in a configuration. -/
inductive Move where
  | readToken
  | expand (r : Rule)
  | accept
  | refuse (failure : Failure)
deriving DecidableEq, Repr

namespace Parser

variable (p : Parser)

/-- What to do with a symbol on top of the stack that is not the next token. -/
def moveAt (top : Symbol) (next : Option Symbol) : Move :=
  if p.terminals.contains top then
    match next with
    | none => .refuse (.endBeforeTerminal top)
    | some token => .refuse (.wrongTerminal token top)
  else
    match p.table.rule? top next with
    | none => .refuse (.noRule next top (p.table.expected top))
    | some r => .expand r

/-- What to do in a configuration. The reserved spelling is refused as soon as it comes next,
unless the stack is used up. -/
def move (c : Config) : Move :=
  match c.stack, c.rest with
  | [], [] => .accept
  | [], token :: _ => .refuse (.inputLeft token)
  | top :: _, [] => p.moveAt top none
  | top :: _, token :: _ =>
    if token = emptyMarker then .refuse .reservedToken
    else if top = token then .readToken
    else p.moveAt top (some token)

variable {p} in
theorem moveAt_ne_readToken (top : Symbol) (next : Option Symbol) :
    p.moveAt top next ≠ .readToken := by
  unfold moveAt
  split <;> split <;> simp

variable {p} in
/-- A token is read only where there is one. -/
theorem rest_ne_nil_of_move_eq_readToken {c : Config} (h : p.move c = .readToken) :
    c.rest ≠ [] := by
  obtain ⟨consumed, stack, rest⟩ := c
  cases rest with
  | cons token rest => simp
  | nil => cases stack with
    | nil => simp [move] at h
    | cons top stack => exact absurd h (moveAt_ne_readToken top none)

/-- The length of the longest body in the table. -/
def longestBody : Nat :=
  (p.table.rows.flatMap fun row => row.2.values.map (·.body.length)).foldl max 0

/-- Bounds the expansions below one symbol: a tree as deep as the table has rows, in which every
node has one more branch than the longest body is long. -/
def expansionBound : Nat :=
  Nat.pow (p.longestBody + 1) p.table.rows.length

/-- The expansions that are allowed before the next token is read. -/
def allowance (stack : List Symbol) : Nat :=
  stack.length * p.expansionBound

/-- Runs the parser from a configuration; the steps are numbered from `number` on. There is no
result if the allowance of expansions is used up before a token is read. -/
def runFrom (number allowed : Nat) (c : Config) : Option ParseOutcome :=
  match _hmove : p.move c with
  | .accept => some (c.accepted number)
  | .refuse failure => some (c.refused number failure)
  | .readToken =>
    let result? := runFrom (number + 1) (p.allowance c.afterMatch.stack) c.afterMatch
    result?.map fun result => result.after (c.step number .matched none)
  | .expand r =>
    match _hallowed : allowed with
    | 0 => none
    | left + 1 =>
      let result? := runFrom (number + 1) left (c.afterExpansion r)
      result?.map fun result => result.after (c.step number .expanded (some r))
termination_by (c.rest.length, allowed)
decreasing_by
  · have := List.length_pos_iff.2 (rest_ne_nil_of_move_eq_readToken _hmove)
    refine Prod.Lex.left _ _ ?_
    simp only [Config.afterMatch, List.length_tail]
    omega
  · exact Prod.Lex.right _ (Nat.lt_succ_self left)

/-- Parses tokens from a start symbol. -/
def run (start : Symbol) (tokens : List Symbol) : Option ParseOutcome :=
  p.runFrom 1 (p.allowance [start]) { consumed := 0, stack := [start], rest := tokens }

end Parser

namespace Grammar

variable (g : Grammar)

/-- Parses tokens with the table of the grammar, collisions or not. -/
def runTokens (tokens : List Symbol) : Analysis ParseOutcome := do
  let parser : Parser := { terminals := g.terminals, table := ← g.table }
  match parser.run g.start tokens with
  | some result => pure result
  | none => throw .endlessExpansion

/-- Parses the words of a text; the grammar must be deterministic. -/
def parseText (text : String) : Analysis ParseOutcome := do
  g.requireDeterministic
  g.runTokens (Text.words text)

/-- Does a text belong to the language of the grammar? -/
def accepts (text : String) : Analysis Bool := do
  return (← g.parseText text).success

end Grammar

end Predictive
