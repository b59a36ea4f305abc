import IndentScript.Json.Basic
import IndentScript.Token.Basic
import IndentScript.Tree.Basic

/-!
# Trees and tokens as JSON

Every node of a tree becomes a JSON node with its type and its parts. Operators are given by their
spelling, and a missing part is `null`. A token becomes a flat object.
-/

namespace IndentScript

def Token.toJson (t : Token) : Json :=
  .obj [("column", .int t.location.column), ("kind", .str t.kind.name),
    ("line", .int t.location.line), ("text", .str t.text)]

/-- A name as a node. -/
def Json.ident (name : String) : Json :=
  node "Identifier" [("name", .str name)]

namespace Expr

def toJson : Expr → Json
  | assign op target value =>
    .node "AssignmentExpression"
      [("operator", .str op.symbol), ("target", .ident target), ("value", value.toJson)]
  | logical op left right =>
    .node "LogicalExpression"
      [("left", left.toJson), ("operator", .str op.symbol), ("right", right.toJson)]
  | binary op left right =>
    .node "BinaryExpression"
      [("left", left.toJson), ("operator", .str op.symbol), ("right", right.toJson)]
  | group inner => .node "GroupedExpression" [("inner", inner.toJson)]
  | ident name => .ident name
  | int value => .node "IntegerLiteral" [("value", .int value.toInt)]
  | float value => .node "FloatLiteral" [("value", .ofBinary64 value)]
  | string value => .node "StringLiteral" [("value", .str value)]
  | bool value => .node "BoolLiteral" [("value", .bool value)]
  | nil => .node "NullLiteral" []

end Expr

def Declaration.toJson (d : Declaration) : Json :=
  .node "VariableDeclaration"
    [("identifier", .ident d.name), ("initializer", (d.initializer.map Expr.toJson).getD .null)]

namespace Stmt

mutual

def toJson : Stmt → Json
  | block body => .node "BlockStatement" [("statements", .arr (toJsonAll body))]
  | declare ds => .node "VariableStatement" [("declarations", .arr (ds.map Declaration.toJson))]
  | conditional c s none =>
    .node "IfStatement" [("alternate", .null), ("condition", c.toJson), ("consequent", s.toJson)]
  | conditional c s (some a) =>
    .node "IfStatement"
      [("alternate", a.toJson), ("condition", c.toJson), ("consequent", s.toJson)]
  | expression e => .node "ExpressionStatement" [("expression", e.toJson)]

def toJsonAll : List Stmt → List Json
  | [] => []
  | s :: rest => s.toJson :: toJsonAll rest

end

end Stmt

def Program.toJson (p : Program) : Json :=
  .node "Program" [("statements", .arr (Stmt.toJsonAll p.statements))]

end IndentScript
