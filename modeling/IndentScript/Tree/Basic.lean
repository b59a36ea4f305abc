import IndentScript.Numeral.Binary64
import IndentScript.Tree.Operator

/-!
# Syntax trees

A program is a list of statements. A statement is an indented block, a list of declarations, a
conditional or an expression by itself. Parentheses are kept as nodes of their own.
-/

namespace IndentScript

inductive Expr where
  | assign (op : AssignOp) (target : String) (value : Expr)
  | logical (op : LogicalOp) (left right : Expr)
  | binary (op : BinaryOp) (left right : Expr)
  /-- An expression in parentheses. -/
  | group (inner : Expr)
  | ident (name : String)
  | int (value : Int64)
  | float (value : Binary64)
  | string (value : String)
  | bool (value : Bool)
  | nil
deriving DecidableEq, Repr

/-- One name of a declaration list, with its first value if one is given. -/
structure Declaration where
  name : String
  initializer : Option Expr
deriving DecidableEq, Repr

inductive Stmt where
  | block (body : List Stmt)
  | declare (declarations : List Declaration)
  | conditional (condition : Expr) (consequent : Stmt) (alternate : Option Stmt)
  | expression (value : Expr)
deriving Repr

structure Program where
  statements : List Stmt
deriving Repr

end IndentScript
