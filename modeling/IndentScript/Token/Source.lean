import IndentScript.Text.Line
import IndentScript.Token.Basic
import IndentScript.Token.Indentation
import IndentScript.Token.Lexeme

/-!
# The tokens of a source

A source is read line by line. A line yields the tokens of its indentation and then the tokens it
holds; blanks separate tokens, and a comment runs from its mark to the end of the line. Blank lines
and comment lines are measured like all others. After the last line the open blocks are closed,
and the end of the source is a token of its own on the line after.
-/

namespace IndentScript

/-- The tokens of a line from the given column on. -/
def tokensFrom (line column : Nat) : List Char → List Token
  | [] => []
  | c :: rest =>
    if Text.isBlank c then tokensFrom line (column + 1) rest
    else if c = '#' then []
    else
      let lexeme := Lexeme.read c rest
      ⟨lexeme.kind, String.ofList (c :: rest.take lexeme.more), ⟨line, column⟩⟩ ::
        tokensFrom line (column + 1 + lexeme.more) (rest.drop lexeme.more)
termination_by cs => cs.length
decreasing_by
  · exact Nat.lt_succ_self _
  · simp only [List.length_drop, List.length_cons]
    omega

/-- The tokens that close the given number of blocks at the start of a line. -/
def closings (line count : Nat) : List Token :=
  List.replicate count ⟨.dedent, "", ⟨line, 1⟩⟩

/-- The tokens for a change of indentation at the start of a line. -/
def Indentation.Change.tokens (line : Nat) : Change → List Token
  | .opened => [⟨.indent, "", ⟨line, 1⟩⟩]
  | .closed count => closings line count

/-- The tokens of the lines from the given number on, where `blocks` are open before them. -/
def tokensOfLines (line : Nat) (blocks : Indentation) : List (List Char) → List Token
  | [] => closings line blocks.length ++ [⟨.eof, "", ⟨line, 1⟩⟩]
  | chars :: rest =>
    let width := Text.indentWidth chars
    (blocks.change width).tokens line ++ tokensFrom line 1 chars ++
      tokensOfLines (line + 1) (blocks.afterLine width) rest

/-- The tokens of a source. -/
def tokenize (source : String) : List Token :=
  tokensOfLines 1 [] (Text.lines source)

end IndentScript
