import IndentScript.Parser.Error
import IndentScript.Parser.Stream

/-!
# Cursors

A list of tokens and a place in it. The list is given an end token unless it ends in one, and the
place moves forward by one until it is that of the last token: there is always a token to look at.
The tokens that were passed stay in the list, and the place is counted from its start.
-/

namespace IndentScript

/-- The list, with an end token at its end. -/
def completed (tokens : List Token) : List Token :=
  if tokens.getLast?.map Token.kind = some .eof then tokens
  else tokens ++ [Stream.missingEnd tokens]

theorem completed_of_last {tokens : List Token}
    (h : tokens.getLast?.map Token.kind = some .eof) : completed tokens = tokens :=
  if_pos h

theorem last_completed (tokens : List Token) :
    (completed tokens).getLast?.map Token.kind = some .eof := by
  rw [completed]
  split
  · assumption
  · simp [Stream.missingEnd]

theorem length_completed_pos (tokens : List Token) : 0 < (completed tokens).length := by
  have hlast := last_completed tokens
  rw [List.length_pos_iff]
  intro hnil
  simp [hnil] at hlast

structure Cursor where
  tokens : List Token
  position : Nat
  position_lt : position < tokens.length
  last_kind : tokens.getLast?.map Token.kind = some .eof

namespace Cursor

/-- The cursor at the first token of the list. -/
def start (tokens : List Token) : Cursor where
  tokens := completed tokens
  position := 0
  position_lt := length_completed_pos tokens
  last_kind := last_completed tokens

def current (c : Cursor) : Token :=
  c.tokens.get ⟨c.position, c.position_lt⟩

def atEnd (c : Cursor) : Bool :=
  c.tokens.length ≤ c.position + 1

/-- The cursor at the next token; the last one is not passed. -/
def next (c : Cursor) : Cursor :=
  if h : c.atEnd = true then c
  else
    { c with
      position := c.position + 1
      position_lt := by simpa [atEnd] using h }

/-- How many tokens there are from the current one on. -/
def remaining (c : Cursor) : Nat :=
  c.tokens.length - c.position

end Cursor

/-- What is done with a cursor: it ends in a value or an error, and leaves a cursor in either case. -/
abbrev Routine (α : Type) := ExceptT ParseError (StateM Cursor) α

namespace Routine

variable {α β : Type}

def outcome (q : Routine α) (c : Cursor) : Except ParseError α × Cursor :=
  q.run c

def peek : Routine Token :=
  return (← get).current

/-- Passes the current token, and answers with it. -/
def advance : Routine Token := do
  let t ← peek
  modify Cursor.next
  return t

def check (kind : Kind) : Routine Bool :=
  return (← peek).kind = kind

/-- Passes the current token if it is of the given kind, and says whether it was. -/
def accept (kind : Kind) : Routine Bool := do
  if ← check kind then
    let _ ← advance
    return true
  else
    return false

/-- Passes a token of the given kind, or fails. -/
def expect (kind : Kind) : Routine Token := do
  if ← check kind then
    advance
  else
    let t ← peek
    throw (.expectedToken kind t.kind t.location)

/-- Fails with the current token. -/
def unexpected : Routine α := do
  let t ← peek
  throw (.unexpectedToken t.kind t.text t.location)

/-- At most so many rounds of a loop that goes on with a new value as long as there is one. -/
def loopUpTo (round : β → Routine (Option β)) : Nat → β → Routine β
  | 0, b => return b
  | rounds + 1, b => do
    match ← round b with
    | some b' => loopUpTo round rounds b'
    | none => return b

/-- A loop, each round of which passes a token at least. -/
def loop (round : β → Routine (Option β)) (b : β) : Routine β := do
  loopUpTo round (← get).remaining b

/-- A routine that calls itself, taken apart to the given depth. -/
def unroll (rule : Routine α → Routine α) : Nat → Routine α
  | 0 => unexpected
  | depth + 1 => rule (unroll rule depth)

/-- A routine that calls itself, but not before it has passed a token. -/
def fix (rule : Routine α → Routine α) : Routine α := do
  unroll rule (← get).remaining

end Routine

end IndentScript
