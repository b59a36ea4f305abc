import IndentScript.Token.Basic

/-!
# Parse errors

The reasons for which a list of tokens is not a program. Each names the token it blames by place.
-/

namespace IndentScript

inductive ParseError where
  /-- No rule goes on with this token. -/
  | unexpectedToken (found : Kind) (text : String) (location : Location)
  /-- A rule can go on with one kind only, and this token has another. -/
  | expectedToken (expected found : Kind) (location : Location)
  /-- What stands before this assignment operator is not a name. -/
  | invalidAssignmentTarget (location : Location)
  /-- The text of this number token has no value. -/
  | invalidNumberLiteral (literal : String) (location : Location)
deriving DecidableEq, Repr

namespace ParseError

/-- The place of the token that is blamed. -/
def location : ParseError → Location
  | unexpectedToken _ _ l => l
  | expectedToken _ _ l => l
  | invalidAssignmentTarget l => l
  | invalidNumberLiteral _ l => l

/-- The message without the place. -/
def description : ParseError → String
  | unexpectedToken found text _ =>
    "Unexpected token: " ++ found.name ++ (if text = "" then "" else " '" ++ text ++ "'")
  | expectedToken expected found _ => "Expected " ++ expected.name ++ ", but got " ++ found.name
  | invalidAssignmentTarget _ => "Invalid left-hand side in assignment expression"
  | invalidNumberLiteral literal _ => "Invalid number literal: " ++ literal

/-- The message for a user: the place in brackets and the description. -/
def message (e : ParseError) : String :=
  "[" ++ e.location.render ++ "] " ++ e.description

end ParseError

end IndentScript
