import IndentScript.Numeral.Decimal
import IndentScript.Parser.Basic
import IndentScript.Tree.Basic

/-!
# Expressions

The levels of expressions, from the loosest to the tightest:

* an assignment is a name, an assignment operator and an assignment, or just what follows;
* `or`, `and`, equality and relations: one operand, or two with an operator between them;
* sums and products: operands in a chain that is grouped from the left;
* a literal, a name, or an expression in parentheses.

Each level takes the parser for the expressions nested inside, and `expression` ties the knot.
-/

namespace IndentScript

/-- The contents of a string literal: its text without the quotes, if it has them at both ends. -/
def unquote (text : String) : String :=
  match text.toList with
  | '"' :: rest =>
    if rest.getLast? = some '"' then String.ofList rest.dropLast else text
  | _ => text

/-- The expression that a token is by itself, or the error that its text makes it. Numbers have to
have a value: an integer of 64 bits, or a finite floating point number. -/
def Token.operand? (t : Token) : Option (Except ParseError Expr) :=
  match t.kind with
  | .int =>
    match Numeral.int64? t.text with
    | some v => some (.ok (.int v))
    | none => some (.error (.invalidNumberLiteral t.text t.location))
  | .float =>
    match Numeral.binary64? t.text with
    | some v =>
      if v.isFinite then some (.ok (.float v))
      else some (.error (.invalidNumberLiteral t.text t.location))
    | none => some (.error (.invalidNumberLiteral t.text t.location))
  | .string => some (.ok (.string (unquote t.text)))
  | .trueWord => some (.ok (.bool true))
  | .falseWord => some (.ok (.bool false))
  | .nilWord => some (.ok .nil)
  | .ident => some (.ok (.ident t.text))
  | _ => none

namespace Parser

/-- An operator and its right operand, if an operator comes next. -/
def tail? {ω : Type} (ofKind? : Kind → Option ω) (operand : Parser Expr) :
    Parser (Option (ω × Expr)) := do
  match ← operator? ofKind? with
  | some op => return some (op, ← operand)
  | none => return none

/-- One operand, or two with an operator between them. -/
def single {ω : Type} (ofKind? : Kind → Option ω) (node : ω → Expr → Expr → Expr)
    (operand : Parser Expr) : Parser Expr := do
  let left ← operand
  match ← tail? ofKind? operand with
  | some (op, right) => return node op left right
  | none => return left

/-- Operands with operators between them, grouped from the left. -/
def chain {ω : Type} (ofKind? : Kind → Option ω) (node : ω → Expr → Expr → Expr)
    (operand : Parser Expr) : Parser Expr := do
  let first ← operand
  let tails ← many (tail? ofKind? operand)
  return tails.foldl (fun left t => node t.1 left t.2) first

/-- A token that is an expression, or an expression in parentheses. -/
def primary (nested : Parser Expr) : Parser Expr := do
  let t ← peek
  match t.operand? with
  | some value =>
    advance
    value
  | none =>
    if ← accept .leftParen then
      let inner ← nested
      let _ ← expect .rightParen
      return .group inner
    else unexpected

def multiplicative (nested : Parser Expr) : Parser Expr :=
  chain (BinaryOp.ofKindAt? .multiplicative) Expr.binary (primary nested)

def additive (nested : Parser Expr) : Parser Expr :=
  chain (BinaryOp.ofKindAt? .additive) Expr.binary (multiplicative nested)

def relational (nested : Parser Expr) : Parser Expr :=
  single (BinaryOp.ofKindAt? .relational) Expr.binary (additive nested)

def equality (nested : Parser Expr) : Parser Expr :=
  single (BinaryOp.ofKindAt? .equality) Expr.binary (relational nested)

def conjunction (nested : Parser Expr) : Parser Expr :=
  single (LogicalOp.ofKindAt? .and) Expr.logical (equality nested)

def disjunction (nested : Parser Expr) : Parser Expr :=
  single (LogicalOp.ofKindAt? .or) Expr.logical (conjunction nested)

/-- The target of an assignment is judged before its value is read, and the operator is blamed. -/
def assignment (nested : Parser Expr) : Parser Expr := do
  let left ← disjunction nested
  let t ← peek
  match AssignOp.ofKind? t.kind, left with
  | none, _ => return left
  | some op, .ident name =>
    advance
    return .assign op name (← nested)
  | some _, _ => throw (.invalidAssignmentTarget t.location)

def expression : Parser Expr :=
  fix assignment

end Parser

end IndentScript
