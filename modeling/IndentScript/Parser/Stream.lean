import IndentScript.Token.Basic

/-!
# Token streams

A stream is what a parser has still to read. It always ends in an end token, which is looked at but
never passed, so there is a current token at every moment. End tokens may also stand in the middle.
-/

namespace IndentScript

structure Stream where
  /-- The tokens to read before the last one. -/
  ahead : List Token
  /-- The last token. -/
  last : Token
  last_kind : last.kind = .eof

namespace Stream

/-- The end token for a list that lacks one: it stands at the place of the last token. -/
def missingEnd (tokens : List Token) : Token :=
  ⟨.eof, "", (tokens.getLast?.map Token.location).getD ⟨1, 1⟩⟩

/-- The stream of a list of tokens, which is given an end token unless it ends in one. -/
def ofTokens (tokens : List Token) : Stream :=
  match tokens.getLast? with
  | none => ⟨[], missingEnd tokens, rfl⟩
  | some t =>
    if h : t.kind = .eof then ⟨tokens.dropLast, t, h⟩ else ⟨tokens, missingEnd tokens, rfl⟩

/-- All tokens of the stream, the last one included. -/
def toList (s : Stream) : List Token :=
  s.ahead ++ [s.last]

/-- The current token. -/
def current (s : Stream) : Token :=
  s.ahead.headD s.last

/-- The stream after the current token; the last token stays. -/
def next (s : Stream) : Stream :=
  { s with ahead := s.ahead.tail }

end Stream

end IndentScript
