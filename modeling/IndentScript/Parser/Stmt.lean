import IndentScript.Parser.Expr

/-!
# Statements

A statement is known by its first token: an indent opens a block, which the matching dedent
closes, `let` a list of declarations, and `if` a conditional. Anything else is an expression.
-/

namespace IndentScript.Parser

/-- A name, with an initializer if `=` follows it. -/
def declaration : Parser Declaration := do
  let name ← expect .ident
  if ← accept .assign then
    return ⟨name.text, some (← expression)⟩
  else
    return ⟨name.text, none⟩

/-- What repeats in a declaration list: a comma and a declaration, or nothing. -/
def further : Parser (Option Declaration) := do
  if ← accept .comma then
    return some (← declaration)
  else
    return none

/-- Declarations with commas between them. -/
def declarations : Parser (List Declaration) := do
  let first ← declaration
  let rest ← many further
  return first :: rest

/-- What repeats in a list of statements: a statement, unless the list ends here. -/
def statementBefore (stop : Kind) (nested : Parser Stmt) : Parser (Option Stmt) := do
  if (← peek).kind = stop then
    return none
  else
    return some (← nested)

/-- Statements up to a token of the given kind, which is not passed. -/
def statementsUntil (stop : Kind) (nested : Parser Stmt) : Parser (List Stmt) :=
  many (statementBefore stop nested)

/-- The statements of a block, after the indent. -/
def block (nested : Parser Stmt) : Parser Stmt := do
  let body ← statementsUntil .dedent nested
  let _ ← expect .dedent
  return .block body

/-- A conditional, after the word `if`. An alternate goes with the nearest one that lacks it. -/
def conditional (nested : Parser Stmt) : Parser Stmt := do
  let condition ← expression
  let _ ← expect .thenWord
  let consequent ← nested
  if ← accept .elseWord then
    return .conditional condition consequent (some (← nested))
  else
    return .conditional condition consequent none

/-- A statement, where `nested` reads the statements inside it. -/
def statementOf (nested : Parser Stmt) : Parser Stmt := do
  match (← peek).kind with
  | .indent =>
    advance
    block nested
  | .letWord =>
    advance
    return .declare (← declarations)
  | .ifWord =>
    advance
    conditional nested
  | _ => return .expression (← expression)

def statement : Parser Stmt :=
  fix statementOf

/-- The statements up to the first end token. -/
def program : Parser Program :=
  return ⟨← statementsUntil .eof statement⟩

end IndentScript.Parser
