import IndentScript.Token.Kind

/-!
# Lexemes

The rules that say how far the token at the front of a text reaches. `Lexeme.read` is given the
first character and what follows it on the line; it answers with the kind of the token and the
number of further characters that belong to it. Each rule takes as much as it can.
-/

namespace IndentScript

/-- The reach of a token: its kind and the number of characters after its first one. -/
structure Lexeme where
  kind : Kind
  more : Nat
deriving DecidableEq, Repr

namespace Lexeme

/-- The characters that start a word. -/
def startsWord (c : Char) : Bool :=
  c.isAlpha || c = '_'

/-- The characters that continue a word. -/
def continuesWord (c : Char) : Bool :=
  c.isAlphanum || c = '_'

/-- A word is as long as its letters, digits and underscores go on. -/
def word (c : Char) (rest : List Char) : Lexeme :=
  let tail := rest.takeWhile continuesWord
  ⟨Kind.ofWord (String.ofList (c :: tail)), tail.length⟩

/-- A number is a run of digits, and with a point and at least one more digit a fraction. -/
def number (rest : List Char) : Lexeme :=
  let whole := (rest.takeWhile Char.isDigit).length
  match rest.dropWhile Char.isDigit with
  | '.' :: fraction =>
    match (fraction.takeWhile Char.isDigit).length with
    | 0 => ⟨.int, whole⟩
    | digits + 1 => ⟨.float, whole + 1 + (digits + 1)⟩
  | _ => ⟨.int, whole⟩

/-- A string ends at the next quote; without one the opening quote is illegal. -/
def string (rest : List Char) : Lexeme :=
  match rest.idxOf? '"' with
  | some i => ⟨.string, i + 1⟩
  | none => ⟨.illegal, 0⟩

/-- The operators of two characters. -/
def pair? : Char → Char → Option Kind
  | '=', '=' => some .equal
  | '!', '=' => some .notEqual
  | '<', '=' => some .lessEqual
  | '>', '=' => some .greaterEqual
  | '+', '=' => some .plusAssign
  | '-', '=' => some .minusAssign
  | '*', '=' => some .starAssign
  | '/', '=' => some .slashAssign
  | '&', '&' => some .and
  | '|', '|' => some .or
  | _, _ => none

/-- The operators and punctuation marks of one character. -/
def single? : Char → Option Kind
  | '=' => some .assign
  | '!' => some .bang
  | '<' => some .less
  | '>' => some .greater
  | '+' => some .plus
  | '-' => some .minus
  | '*' => some .star
  | '/' => some .slash
  | '%' => some .percent
  | ',' => some .comma
  | ';' => some .semicolon
  | ':' => some .colon
  | '(' => some .leftParen
  | ')' => some .rightParen
  | '\x7b' => some .leftBrace
  | '\x7d' => some .rightBrace
  | '[' => some .leftBracket
  | ']' => some .rightBracket
  | _ => none

/-- An operator takes two characters if it can. What no rule accepts is illegal by itself. -/
def symbol (c : Char) (rest : List Char) : Lexeme :=
  match rest.head?.bind (pair? c) with
  | some kind => ⟨kind, 1⟩
  | none => ⟨(single? c).getD .illegal, 0⟩

/-- The token that starts with `c`, where `rest` follows `c` on its line. -/
def read (c : Char) (rest : List Char) : Lexeme :=
  if startsWord c then word c rest
  else if c.isDigit then number rest
  else if c = '"' then string rest
  else symbol c rest

end Lexeme

end IndentScript
