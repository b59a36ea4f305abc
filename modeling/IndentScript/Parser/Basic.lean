import IndentScript.Parser.Error
import IndentScript.Parser.Stream

/-!
# Parsers

A parser reads from a stream and answers with a value or an error, and in either case with the
stream as it leaves it: after an error reading can go on from where the error arose.

Repetition and recursion are bounded by the tokens ahead. Rules that pass at least one token per
round, or before they refer to themselves, never meet the bound.
-/

namespace IndentScript

abbrev Parser (α : Type) := ExceptT ParseError (StateM Stream) α

namespace Parser

/-- What a parser makes of a stream, and what it leaves of it. -/
def outcome {α : Type} (p : Parser α) (s : Stream) : Except ParseError α × Stream :=
  p.run s

/-- The current token, which is not passed. -/
def peek : Parser Token :=
  return (← get).current

/-- Passes the current token. -/
def advance : Parser Unit :=
  modify Stream.next

/-- Fails with the current token. -/
def unexpected {α : Type} : Parser α := do
  let t ← peek
  throw (.unexpectedToken t.kind t.text t.location)

/-- Passes the current token if it is of the given kind, and says whether it was. -/
def accept (kind : Kind) : Parser Bool := do
  if (← peek).kind = kind then
    advance
    return true
  else
    return false

/-- Passes a token of the given kind, or fails. -/
def expect (kind : Kind) : Parser Token := do
  let t ← peek
  if t.kind = kind then
    advance
    return t
  else
    throw (.expectedToken kind t.kind t.location)

/-- Passes the current token if its kind stands for an operator of the given family. -/
def operator? {ω : Type} (ofKind? : Kind → Option ω) : Parser (Option ω) := do
  match ofKind? (← peek).kind with
  | some op =>
    advance
    return some op
  | none => return none

/-- The items found one after the other, in at most the given number of rounds. -/
def manyUpTo {α : Type} (item : Parser (Option α)) : Nat → Parser (List α)
  | 0 => return []
  | rounds + 1 => do
    match ← item with
    | some a => return a :: (← manyUpTo item rounds)
    | none => return []

/-- The items found one after the other, until there is none. -/
def many {α : Type} (item : Parser (Option α)) : Parser (List α) := do
  manyUpTo item ((← get).ahead.length + 1)

/-- A rule that refers to itself, taken apart to the given depth. -/
def unroll {α : Type} (rule : Parser α → Parser α) (depth : Nat) (s : Stream) :
    Except ParseError α × Stream :=
  match depth with
  | 0 => unexpected.outcome s
  | depth + 1 => (rule (unroll rule depth)).outcome s

/-- The parser of a rule that refers to itself. -/
def fix {α : Type} (rule : Parser α → Parser α) : Parser α := fun s =>
  unroll rule (s.ahead.length + 1) s

end Parser

end IndentScript
