import IndentScript.Parser.Stmt
import IndentScript.Token.Source
import IndentScript.Tree.Equal

/-!
# Reading programs

A program is read from tokens or from a source. A stream can be read more than once: each reading
goes on where the one before stopped, be it at an end token or at an error.
-/

namespace IndentScript

namespace Program

/-- The program that a list of tokens makes, or the first error in it. -/
def ofTokens (tokens : List Token) : Except ParseError Program :=
  (Parser.program.outcome (Stream.ofTokens tokens)).1

/-- The program that a source makes, or the first error in it. -/
def ofSource (source : String) : Except ParseError Program :=
  ofTokens (tokenize source)

/-- Whether two readings ended alike: in equal programs, or in the same error. -/
def sameOutcome : Except ParseError Program → Except ParseError Program → Bool
  | .ok p, .ok q => p.equal q
  | .error e, .error f => e = f
  | _, _ => false

end Program

namespace Stream

/-- The outcome of reading a program from a stream, and the stream after it. -/
def readProgram (s : Stream) : Except ParseError Program × Stream :=
  Parser.program.outcome s

/-- The stream after the given number of readings. -/
def after (s : Stream) : Nat → Stream
  | 0 => s
  | calls + 1 => s.readProgram.2.after calls

/-- How many tokens the given number of readings pass: the place of the cursor after them. -/
def passed (s : Stream) (calls : Nat) : Nat :=
  s.ahead.length - (s.after calls).ahead.length

/-- The outcomes of the given number of readings in a row. -/
def readings (s : Stream) : Nat → List (Except ParseError Program)
  | 0 => []
  | calls + 1 => s.readProgram.1 :: s.readProgram.2.readings calls

end Stream

end IndentScript
