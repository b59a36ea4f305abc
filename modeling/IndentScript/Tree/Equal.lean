import IndentScript.Tree.Basic

/-!
# Equality of trees

Trees are compared node by node, and the numbers in them by value: two zeros of different sign are
equal, and what is not a number is equal to nothing, so a tree that holds it differs from itself.
-/

namespace IndentScript

namespace Expr

def equal : Expr → Expr → Bool
  | assign op target value, assign op₂ target₂ value₂ =>
    op = op₂ && target = target₂ && value.equal value₂
  | logical op left right, logical op₂ left₂ right₂ =>
    op = op₂ && left.equal left₂ && right.equal right₂
  | binary op left right, binary op₂ left₂ right₂ =>
    op = op₂ && left.equal left₂ && right.equal right₂
  | group inner, group inner₂ => inner.equal inner₂
  | ident name, ident name₂ => name = name₂
  | int value, int value₂ => value = value₂
  | float value, float value₂ => value.equal value₂
  | string value, string value₂ => value = value₂
  | bool value, bool value₂ => value = value₂
  | nil, nil => true
  | _, _ => false

end Expr

namespace Declaration

def equal (d e : Declaration) : Bool :=
  d.name = e.name &&
    match d.initializer, e.initializer with
    | some x, some y => x.equal y
    | none, none => true
    | _, _ => false

def equalAll : List Declaration → List Declaration → Bool
  | [], [] => true
  | d :: ds, e :: es => d.equal e && equalAll ds es
  | _, _ => false

end Declaration

namespace Stmt

mutual

def equal : Stmt → Stmt → Bool
  | block body, block body₂ => equalAll body body₂
  | declare ds, declare ds₂ => Declaration.equalAll ds ds₂
  | conditional c s none, conditional c₂ s₂ none => c.equal c₂ && s.equal s₂
  | conditional c s (some a), conditional c₂ s₂ (some a₂) =>
    c.equal c₂ && s.equal s₂ && a.equal a₂
  | expression e, expression e₂ => e.equal e₂
  | _, _ => false

def equalAll : List Stmt → List Stmt → Bool
  | [], [] => true
  | s :: ss, t :: ts => s.equal t && equalAll ss ts
  | _, _ => false

end

end Stmt

def Program.equal (p q : Program) : Bool :=
  Stmt.equalAll p.statements q.statements

end IndentScript
