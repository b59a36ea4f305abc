import IndentScript.Token.Kind
import IndentScript.Text.Quoted

/-!
# Tokens

A token is a kind, the text it was read from and the place of its first character. Lines and
columns count from one, and a column counts characters.
-/

namespace IndentScript

/-- A place in a source. -/
structure Location where
  line : Nat
  column : Nat
deriving DecidableEq, Repr, Inhabited

/-- A place is written as its line and its column. -/
def Location.render (l : Location) : String :=
  toString l.line ++ ":" ++ toString l.column

/-- A lexical unit of a source. -/
structure Token where
  kind : Kind
  text : String
  location : Location
deriving DecidableEq, Repr, Inhabited

namespace Token

/-- Whether the token stands for characters that no lexical rule accepts. -/
def isIllegal (t : Token) : Bool :=
  t.kind = .illegal

/-- A dump line: the place in brackets, the kind and, unless it is empty, the quoted text. -/
def render (t : Token) : String :=
  "[" ++ t.location.render ++ "] " ++ t.kind.name ++
    (if t.text = "" then "" else " " ++ Text.quote t.text)

end Token

end IndentScript
