/-!
# Token kinds

The lexical classes of the language, each with the name under which dumps and messages show it.
The name of an operator or a punctuation mark is its spelling, except that `&&` and `||` share
their kinds with the words `and` and `or`.
-/

namespace IndentScript

/-- The lexical class of a token. -/
inductive Kind where
  | eof | indent | dedent
  | ident | int | float | string
  | trueWord | falseWord | nilWord
  | fnWord | moduleWord | importWord | letWord | ifWord | thenWord | elseWord | returnWord
  | and | or | is | not
  | assign | plusAssign | minusAssign | starAssign | slashAssign
  | plus | minus | star | slash | percent | bang
  | equal | notEqual | less | lessEqual | greater | greaterEqual
  | comma | semicolon | colon
  | leftParen | rightParen | leftBrace | rightBrace | leftBracket | rightBracket
  | illegal
deriving DecidableEq, Repr, Inhabited

namespace Kind

/-- The name of a kind in dumps and messages. -/
def name : Kind → String
  | eof => "EOF"
  | indent => "INDENT"
  | dedent => "DEDENT"
  | ident => "IDENT"
  | int => "INT"
  | float => "FLOAT"
  | string => "STRING"
  | trueWord => "TRUE"
  | falseWord => "FALSE"
  | nilWord => "NIL"
  | fnWord => "FUNCTION"
  | moduleWord => "MODULE"
  | importWord => "IMPORT"
  | letWord => "LET"
  | ifWord => "IF"
  | thenWord => "THEN"
  | elseWord => "ELSE"
  | returnWord => "RETURN"
  | and => "AND"
  | or => "OR"
  | is => "IS"
  | not => "NOT"
  | assign => "="
  | plusAssign => "+="
  | minusAssign => "-="
  | starAssign => "*="
  | slashAssign => "/="
  | plus => "+"
  | minus => "-"
  | star => "*"
  | slash => "/"
  | percent => "%"
  | bang => "!"
  | equal => "=="
  | notEqual => "!="
  | less => "<"
  | lessEqual => "<="
  | greater => ">"
  | greaterEqual => ">="
  | comma => ","
  | semicolon => ";"
  | colon => ":"
  | leftParen => "("
  | rightParen => ")"
  | leftBrace => "\x7b"
  | rightBrace => "\x7d"
  | leftBracket => "["
  | rightBracket => "]"
  | illegal => "ILLEGAL"

/-- Every kind, once. -/
def all : List Kind :=
  [eof, indent, dedent, ident, int, float, string, trueWord, falseWord, nilWord,
    fnWord, moduleWord, importWord, letWord, ifWord, thenWord, elseWord, returnWord,
    and, or, is, not, assign, plusAssign, minusAssign, starAssign, slashAssign,
    plus, minus, star, slash, percent, bang,
    equal, notEqual, less, lessEqual, greater, greaterEqual, comma, semicolon, colon,
    leftParen, rightParen, leftBrace, rightBrace, leftBracket, rightBracket, illegal]

/-- The kind with the given name, if there is one. -/
def ofName? (s : String) : Option Kind :=
  all.find? fun k => k.name == s

/-- The words that are no identifiers, with their kinds. -/
def keywords : List (String × Kind) :=
  [("and", and), ("else", elseWord), ("false", falseWord), ("fn", fnWord), ("if", ifWord),
    ("is", is), ("import", importWord), ("let", letWord), ("module", moduleWord),
    ("nil", nilWord), ("not", not), ("or", or), ("return", returnWord), ("then", thenWord),
    ("true", trueWord)]

/-- The kind of a word: its own if the word is a keyword, and an identifier's otherwise. -/
def ofWord (word : String) : Kind :=
  (keywords.lookup word).getD ident

/-- A kind is found by its name. -/
theorem ofName?_name (k : Kind) : ofName? k.name = some k := by
  cases k <;> decide

/-- Different kinds have different names. -/
theorem name_injective {k l : Kind} (h : k.name = l.name) : k = l :=
  Option.some.inj (by rw [← ofName?_name k, h, ofName?_name l])

end Kind

end IndentScript
