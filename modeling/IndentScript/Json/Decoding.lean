import IndentScript.Json.Basic
import IndentScript.Numeral.Integer
import IndentScript.Tree.Basic

/-!
# Trees from JSON

The trees that JSON nodes stand for. A node is read only in the form in which trees are written:
with the parts of its type, in order of their keys. Numbers that were written as `null` are lost.
-/

namespace IndentScript

namespace Json

/-- The name that a node stands for. -/
def ident? : Json → Option String
  | .obj [("data", .obj [("name", .str name)]), ("type", .str "Identifier")] => some name
  | _ => none

end Json

namespace Expr

/-- The literal of the given type with the given value. -/
def literalOfJson? (type : String) (value : Json) : Option Expr :=
  match type, value with
  | "IntegerLiteral", .int value => (Numeral.toInt64? value).map .int
  | "FloatLiteral", .float value => some (.float value)
  | "StringLiteral", .str value => some (.string value)
  | "BoolLiteral", .bool value => some (.bool value)
  | _, _ => none

/-- The expression that a node stands for. -/
def ofJson? : Json → Option Expr
  | .obj [("data", .obj []), ("type", .str "NullLiteral")] => some .nil
  | .obj [("data", .obj [("name", .str name)]), ("type", .str "Identifier")] => some (.ident name)
  | .obj [("data", .obj [("value", value)]), ("type", .str type)] => literalOfJson? type value
  | .obj [("data", .obj [("inner", inner)]), ("type", .str "GroupedExpression")] => do
    return .group (← ofJson? inner)
  | .obj [("data", .obj [("operator", .str op), ("target", target), ("value", value)]),
      ("type", .str "AssignmentExpression")] => do
    return .assign (← AssignOp.ofSymbol? op) (← target.ident?) (← ofJson? value)
  | .obj [("data", .obj [("left", left), ("operator", .str op), ("right", right)]),
      ("type", .str type)] =>
    match type with
    | "LogicalExpression" => do
      return .logical (← LogicalOp.ofSymbol? op) (← ofJson? left) (← ofJson? right)
    | "BinaryExpression" => do
      return .binary (← BinaryOp.ofSymbol? op) (← ofJson? left) (← ofJson? right)
    | _ => none
  | _ => none

end Expr

namespace Declaration

/-- The declaration that a node stands for. -/
def ofJson? : Json → Option Declaration
  | .obj [("data", .obj [("identifier", name), ("initializer", .null)]),
      ("type", .str "VariableDeclaration")] => do
    return ⟨← name.ident?, none⟩
  | .obj [("data", .obj [("identifier", name), ("initializer", value)]),
      ("type", .str "VariableDeclaration")] => do
    return ⟨← name.ident?, some (← Expr.ofJson? value)⟩
  | _ => none

end Declaration

namespace Stmt

mutual

/-- The statement that a node stands for. -/
def ofJson? : Json → Option Stmt
  | .obj [("data", .obj [("statements", .arr body)]), ("type", .str "BlockStatement")] => do
    return .block (← ofJsonAll? body)
  | .obj [("data", .obj [("declarations", .arr ds)]), ("type", .str "VariableStatement")] => do
    return .declare (← ds.mapM Declaration.ofJson?)
  | .obj [("data", .obj [("alternate", .null), ("condition", c), ("consequent", s)]),
      ("type", .str "IfStatement")] => do
    return .conditional (← Expr.ofJson? c) (← ofJson? s) none
  | .obj [("data", .obj [("alternate", a), ("condition", c), ("consequent", s)]),
      ("type", .str "IfStatement")] => do
    return .conditional (← Expr.ofJson? c) (← ofJson? s) (some (← ofJson? a))
  | .obj [("data", .obj [("expression", e)]), ("type", .str "ExpressionStatement")] => do
    return .expression (← Expr.ofJson? e)
  | _ => none

/-- The statements that a list of nodes stands for. -/
def ofJsonAll? : List Json → Option (List Stmt)
  | [] => some []
  | j :: rest => do
    return (← ofJson? j) :: (← ofJsonAll? rest)

end

end Stmt

/-- The program that a node stands for. -/
def Program.ofJson? : Json → Option Program
  | .obj [("data", .obj [("statements", .arr body)]), ("type", .str "Program")] => do
    return ⟨← Stmt.ofJsonAll? body⟩
  | _ => none

end IndentScript
