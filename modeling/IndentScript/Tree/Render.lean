import IndentScript.Numeral.Format
import IndentScript.Tree.Basic

/-!
# Trees on one line

A node is written as its name with its parts in parentheses, a list in brackets, and a missing
part as `None`. The contents of a string are written as they are, between quotes.
-/

namespace IndentScript

/-- A node with the given name and parts. -/
def renderNode (name : String) (parts : List String) : String :=
  name ++ "(" ++ ", ".intercalate parts ++ ")"

/-- A list of written items. -/
def renderList (items : List String) : String :=
  "[" ++ ", ".intercalate items ++ "]"

/-- Numbers in a written tree: of two equally near decimals the upper one is taken, and `1e-4` and
`1e16` are where the exponent comes in, without a plus. -/
def treeNumbers : NumberFormat where
  tie := .up
  plainFrom := -4
  plainBelow := 16
  plus := ""

def Binary64.render : Binary64 → String
  | .nan => "NaN"
  | .infinite negative => if negative then "-inf" else "inf"
  | .finite negative rank => treeNumbers.write negative rank

namespace Expr

def render : Expr → String
  | assign op target value => renderNode "AssignmentExpression" [op.symbol, target, value.render]
  | logical op left right => renderNode "LogicalExpression" [op.symbol, left.render, right.render]
  | binary op left right => renderNode "BinaryExpression" [op.symbol, left.render, right.render]
  | group inner => renderNode "GroupedExpression" [inner.render]
  | ident name => name
  | int value => toString value.toInt
  | float value => value.render
  | string value => "\"" ++ value ++ "\""
  | bool value => if value then "true" else "false"
  | nil => "nil"

end Expr

def Declaration.render (d : Declaration) : String :=
  let initializer := match d.initializer with
    | some e => e.render
    | none => "None"
  renderNode "VariableDeclaration" [d.name, initializer]

namespace Stmt

mutual

def render : Stmt → String
  | block body => renderNode "Block" [renderList (renderAll body)]
  | declare ds => renderNode "VariableStatement" [renderList (ds.map Declaration.render)]
  | conditional c s none => renderNode "If" [c.render, s.render, "None"]
  | conditional c s (some a) => renderNode "If" [c.render, s.render, a.render]
  | expression e => renderNode "ExprStmt" [e.render]

def renderAll : List Stmt → List String
  | [] => []
  | s :: rest => s.render :: renderAll rest

end

end Stmt

def Program.render (p : Program) : String :=
  renderNode "Program" [renderList (Stmt.renderAll p.statements)]

end IndentScript
