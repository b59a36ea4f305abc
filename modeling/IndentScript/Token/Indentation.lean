/-!
# Indentation

The open blocks of a source are known by the widths that opened them. A line that is deeper than
the innermost open block opens one more; any other line closes the blocks that are deeper than
itself. A line that falls back to a width between two open blocks opens nothing.
-/

namespace IndentScript

/-- The widths of the open blocks, innermost first. -/
abbrev Indentation := List Nat

namespace Indentation

/-- What a line does to the open blocks. -/
inductive Change where
  /-- One block is opened. -/
  | opened
  /-- As many blocks are closed as the number says. -/
  | closed (count : Nat)
deriving DecidableEq, Repr

/-- What a line of the given width does to the open blocks. -/
def change (blocks : Indentation) (width : Nat) : Change :=
  if blocks.headD 0 < width then .opened
  else .closed (blocks.takeWhile fun w => width < w).length

/-- The blocks that are open after a line of the given width. -/
def afterLine (blocks : Indentation) (width : Nat) : Indentation :=
  if blocks.headD 0 < width then width :: blocks
  else blocks.dropWhile fun w => width < w

end Indentation

end IndentScript
