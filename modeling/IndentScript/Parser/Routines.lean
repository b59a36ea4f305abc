import IndentScript.Parser.Cursor
import IndentScript.Parser.Expr

/-!
# Reading with a cursor

The rules of the language once more, as procedures that move a cursor: each looks at the current
token, passes tokens one by one, and collects what it finds in loops. A session calls for a program
as often as it likes, and each call starts where the one before left the cursor.
-/

namespace IndentScript

namespace Routine

/-! ## Expressions -/

/-- Passes the current token if it is of one of the given kinds and stands for an operator. -/
def operator? (kinds : List Kind) : Routine (Option BinaryOp) := do
  let t ← peek
  if kinds.contains t.kind then
    match BinaryOp.ofKind? t.kind with
    | some op =>
      let _ ← advance
      return some op
    | none => return none
  else
    return none

/-- One operand, or two with an operator between them. -/
def single (kinds : List Kind) (operand : Routine Expr) : Routine Expr := do
  let left ← operand
  match ← operator? kinds with
  | some op => return .binary op left (← operand)
  | none => return left

/-- What is made of the left operand if an operator and a right operand follow it. -/
def operation? (kinds : List Kind) (operand : Routine Expr) (left : Expr) :
    Routine (Option Expr) := do
  match ← operator? kinds with
  | some op => return some (.binary op left (← operand))
  | none => return none

/-- Operands as long as there are operators between them, grouped from the left. -/
def chain (kinds : List Kind) (operand : Routine Expr) : Routine Expr := do
  let left ← operand
  loop (operation? kinds operand) left

/-- One operand, or two with the operator between them that the kind stands for. -/
def logical (op : LogicalOp) (kind : Kind) (operand : Routine Expr) : Routine Expr := do
  let left ← operand
  if ← accept kind then
    return .logical op left (← operand)
  else
    return left

/-- The token is passed before it is judged. -/
def literal : Routine Expr := do
  let t ← advance
  match t.operand? with
  | some (.ok e) => return e
  | some (.error e) => throw e
  | none => throw (.unexpectedToken t.kind t.text t.location)

def identifier : Routine String :=
  return (← expect .ident).text

def group (nested : Routine Expr) : Routine Expr := do
  let _ ← expect .leftParen
  let inner ← nested
  let _ ← expect .rightParen
  return .group inner

def primary (nested : Routine Expr) : Routine Expr := do
  match (← peek).kind with
  | .int | .float | .string | .trueWord | .falseWord | .nilWord => literal
  | .leftParen => group nested
  | .ident => return .ident (← identifier)
  | _ => unexpected

def multiplicative (nested : Routine Expr) : Routine Expr :=
  chain [.star, .slash, .percent] (primary nested)

def additive (nested : Routine Expr) : Routine Expr :=
  chain [.plus, .minus] (multiplicative nested)

def relational (nested : Routine Expr) : Routine Expr :=
  single [.less, .lessEqual, .greater, .greaterEqual] (additive nested)

def equality (nested : Routine Expr) : Routine Expr :=
  single [.equal, .notEqual, .is, .not] (relational nested)

def conjunction (nested : Routine Expr) : Routine Expr :=
  logical .and .and (equality nested)

def disjunction (nested : Routine Expr) : Routine Expr :=
  logical .or .or (conjunction nested)

def assignment (nested : Routine Expr) : Routine Expr := do
  let left ← disjunction nested
  match AssignOp.ofKind? (← peek).kind with
  | none => return left
  | some op =>
    match left with
    | .ident name =>
      let _ ← advance
      return .assign op name (← nested)
    | _ => throw (.invalidAssignmentTarget (← peek).location)

def expression : Routine Expr :=
  fix assignment

/-! ## Statements -/

def declaration : Routine Declaration := do
  let name ← identifier
  if ← accept .assign then
    return ⟨name, some (← expression)⟩
  else
    return ⟨name, none⟩

/-- The declarations that were found and the next one, if a comma follows. -/
def further (found : List Declaration) : Routine (Option (List Declaration)) := do
  if ← accept .comma then
    return some (found ++ [← declaration])
  else
    return none

def declarationStatement : Routine Stmt := do
  let _ ← expect .letWord
  let first ← declaration
  let declarations ← loop further [first]
  return .declare declarations

/-- The statements that were found and the next one, unless the list ends here. -/
def statementBefore (stop : Kind) (nested : Routine Stmt) (found : List Stmt) :
    Routine (Option (List Stmt)) := do
  if ← check stop then
    return none
  else
    return some (found ++ [← nested])

/-- Statements up to a token of the given kind, which is not passed. -/
def statementsUntil (stop : Kind) (nested : Routine Stmt) : Routine (List Stmt) :=
  loop (statementBefore stop nested) []

def block (nested : Routine Stmt) : Routine Stmt := do
  let _ ← expect .indent
  let body ← statementsUntil .dedent nested
  let _ ← expect .dedent
  return .block body

def conditional (nested : Routine Stmt) : Routine Stmt := do
  let _ ← expect .ifWord
  let condition ← expression
  let _ ← expect .thenWord
  let consequent ← nested
  if ← accept .elseWord then
    return .conditional condition consequent (some (← nested))
  else
    return .conditional condition consequent none

def statementOf (nested : Routine Stmt) : Routine Stmt := do
  match (← peek).kind with
  | .indent => block nested
  | .letWord => declarationStatement
  | .ifWord => conditional nested
  | _ => return .expression (← expression)

def statement : Routine Stmt :=
  fix statementOf

def program : Routine Program :=
  return ⟨← statementsUntil .eof statement⟩

end Routine

namespace Cursor

/-- The outcome of a call for a program, and the cursor after it. -/
def readProgram (c : Cursor) : Except ParseError Program × Cursor :=
  Routine.program.outcome c

/-- The cursor after the given number of calls. -/
def after (c : Cursor) : Nat → Cursor
  | 0 => c
  | calls + 1 => c.readProgram.2.after calls

end Cursor

end IndentScript
