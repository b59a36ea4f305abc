import IndentScript.Json.Basic
import IndentScript.Json.Decoding
import IndentScript.Json.Encoding
import IndentScript.Numeral.Binary64
import IndentScript.Numeral.Decimal
import IndentScript.Numeral.Format
import IndentScript.Numeral.Integer
import IndentScript.Numeral.Shortest
import IndentScript.Parser.Basic
import IndentScript.Parser.Cursor
import IndentScript.Parser.Error
import IndentScript.Parser.Expr
import IndentScript.Parser.Lemmas
import IndentScript.Parser.Recursion
import IndentScript.Parser.Routines
import IndentScript.Parser.Session
import IndentScript.Parser.Stmt
import IndentScript.Parser.Stream
import IndentScript.Parser.Walks
import IndentScript.Proofs.Acceptance
import IndentScript.Proofs.Completeness
import IndentScript.Proofs.Determined
import IndentScript.Proofs.Grammar
import IndentScript.Proofs.Layout
import IndentScript.Proofs.Lookahead
import IndentScript.Proofs.Phrases
import IndentScript.Proofs.Rounds
import IndentScript.Proofs.Runs
import IndentScript.Proofs.Soundness
import IndentScript.Proofs.Spelling
import IndentScript.Proofs.WellFormed
import IndentScript.Text.Line
import IndentScript.Text.Quoted
import IndentScript.Text.Unprintable
import IndentScript.Token.Basic
import IndentScript.Token.Indentation
import IndentScript.Token.Kind
import IndentScript.Token.Lexeme
import IndentScript.Token.Source
import IndentScript.Tree.Basic
import IndentScript.Tree.Equal
import IndentScript.Tree.Operator
import IndentScript.Tree.Render
import IndentScript.Proofs.Blocks
import IndentScript.Proofs.Offside
import IndentScript.Proofs.Positions
import IndentScript.Proofs.LexicalRules
import IndentScript.Proofs.Writing
import IndentScript.Proofs.JsonRoundTrip
import IndentScript.Proofs.Rounding
import IndentScript.Proofs.Numerals
import IndentScript.Proofs.Terms
import IndentScript.Proofs.Rendering
import IndentScript.Proofs.Collisions
import IndentScript.Proofs.Concatenation
import IndentScript.Proofs.Indenting
import IndentScript.Proofs.Margins
import IndentScript.Proofs.Sessions
import IndentScript.Proofs.Blame
import IndentScript.Proofs.Steps
import IndentScript.Proofs.LineEnds
import IndentScript.Proofs.Integers
import IndentScript.Proofs.Messages
import IndentScript.Proofs.Dumps
import IndentScript.Proofs.Simulation
