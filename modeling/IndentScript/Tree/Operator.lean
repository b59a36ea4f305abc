import IndentScript.Token.Kind

/-!
# Operators

The operators of the three families of expressions, their spelling in a tree, and the token kinds
that stand for them. `is` and `not` are other spellings of `==` and `!=`; the tree keeps one.
-/

namespace IndentScript

/-- The operators of an assignment. -/
inductive AssignOp where
  | assign | add | sub | mul | div
deriving DecidableEq, Repr

/-- The operators that may leave their right operand unevaluated. -/
inductive LogicalOp where
  | and | or
deriving DecidableEq, Repr

/-- The operators of arithmetic and comparison. -/
inductive BinaryOp where
  | add | sub | mul | div | mod
  | equal | notEqual | less | lessEqual | greater | greaterEqual
deriving DecidableEq, Repr

namespace AssignOp

def symbol : AssignOp → String
  | assign => "="
  | add => "+="
  | sub => "-="
  | mul => "*="
  | div => "/="

/-- The operator that a token of the given kind stands for. -/
def ofKind? : Kind → Option AssignOp
  | .assign => some assign
  | .plusAssign => some add
  | .minusAssign => some sub
  | .starAssign => some mul
  | .slashAssign => some div
  | _ => none

/-- The operator with the given spelling. -/
def ofSymbol? (s : String) : Option AssignOp :=
  [assign, add, sub, mul, div].find? fun op => op.symbol == s

theorem ofSymbol?_symbol (op : AssignOp) : ofSymbol? op.symbol = some op := by
  cases op <;> decide

end AssignOp

namespace LogicalOp

def symbol : LogicalOp → String
  | and => "and"
  | or => "or"

/-- The operator that a token of the given kind stands for. -/
def ofKind? : Kind → Option LogicalOp
  | .and => some and
  | .or => some or
  | _ => none

/-- The given operator, if a token of the given kind stands for it. -/
def ofKindAt? (op : LogicalOp) (kind : Kind) : Option LogicalOp :=
  (ofKind? kind).filter fun o => o = op

/-- The operator with the given spelling. -/
def ofSymbol? (s : String) : Option LogicalOp :=
  [and, or].find? fun op => op.symbol == s

theorem ofSymbol?_symbol (op : LogicalOp) : ofSymbol? op.symbol = some op := by
  cases op <;> decide

end LogicalOp

namespace BinaryOp

def symbol : BinaryOp → String
  | add => "+"
  | sub => "-"
  | mul => "*"
  | div => "/"
  | mod => "%"
  | equal => "=="
  | notEqual => "!="
  | less => "<"
  | lessEqual => "<="
  | greater => ">"
  | greaterEqual => ">="

/-- The operator that a token of the given kind stands for. -/
def ofKind? : Kind → Option BinaryOp
  | .plus => some add
  | .minus => some sub
  | .star => some mul
  | .slash => some div
  | .percent => some mod
  | .equal => some equal
  | .is => some equal
  | .notEqual => some notEqual
  | .not => some notEqual
  | .less => some less
  | .lessEqual => some lessEqual
  | .greater => some greater
  | .greaterEqual => some greaterEqual
  | _ => none

/-- The operator with the given spelling. -/
def ofSymbol? (s : String) : Option BinaryOp :=
  [add, sub, mul, div, mod, equal, notEqual, less, lessEqual, greater, greaterEqual].find?
    fun op => op.symbol == s

theorem ofSymbol?_symbol (op : BinaryOp) : ofSymbol? op.symbol = some op := by
  cases op <;> decide

/-- How tightly an operator binds. Operators of one level share the rule by which they combine. -/
inductive Level where
  | equality | relational | additive | multiplicative
deriving DecidableEq, Repr

def level : BinaryOp → Level
  | equal | notEqual => .equality
  | less | lessEqual | greater | greaterEqual => .relational
  | add | sub => .additive
  | mul | div | mod => .multiplicative

/-- The operator of the given level that a token of the given kind stands for. -/
def ofKindAt? (level : Level) (kind : Kind) : Option BinaryOp :=
  (ofKind? kind).filter fun op => op.level = level

end BinaryOp

end IndentScript
