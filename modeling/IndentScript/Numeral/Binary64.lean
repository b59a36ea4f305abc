/-!
# Binary floating point numbers of 64 bits

The non-negative finite numbers of this format are numbered in ascending order from zero on: the
number at a place of this order is its `rank`. The ranks up to `2 ^ 53` are the values themselves,
counted in units of `2 ^ -1074`, and every further run of `2 ^ 52` ranks doubles the step. So each
finite number is a whole number of units, and comparing numbers is comparing ranks.
-/

namespace IndentScript

/-- The number of ranks: eleven exponent bits but the last pattern, and 52 fraction bits. -/
abbrev Binary64.rankBound : Nat := 2047 * Nat.pow 2 52

/-- A number of the format. Zero has two signs, and there is one value that is not a number. -/
inductive Binary64 where
  | nan
  | infinite (negative : Bool)
  | finite (negative : Bool) (rank : Fin Binary64.rankBound)
deriving DecidableEq, Repr

namespace Binary64

/-- The units of which there are `2 ^ 1074` in the number one. -/
abbrev unitsPerOne : Nat := Nat.pow 2 1074

/-- The number of ranks over which the step stays the same. -/
abbrev ranksPerStep : Nat := Nat.pow 2 52

/-- The value at a rank, in units. -/
def unitsAt (rank : Nat) : Nat :=
  if rank < ranksPerStep then rank
  else (ranksPerStep + rank % ranksPerStep) * Nat.pow 2 (rank / ranksPerStep - 1)

/-- The quotient of two numbers rounded to the nearest whole number, a half to the even one. -/
def divHalfEven (num den : Nat) : Nat :=
  let quotient := num / den
  let rest := num % den
  if 2 * rest < den then quotient
  else if den < 2 * rest then quotient + 1
  else quotient + quotient % 2

/-- The rank of the number nearest to `num / den` units, a half going to the even rank. Ranks from
`rankBound` on belong to values that are too large for the format. -/
def rankNear (num den : Nat) : Nat :=
  let doublings := (num / den).log2 - 52
  doublings * ranksPerStep + divHalfEven num (den * Nat.pow 2 doublings)

/-- The number with the given sign and rank; ranks that are too large give an infinity. -/
def ofRank (negative : Bool) (rank : Nat) : Binary64 :=
  if h : rank < rankBound then .finite negative ⟨rank, h⟩ else .infinite negative

/-- Whether the value is a number at all, and not an infinity. -/
def isFinite : Binary64 → Bool
  | .finite _ _ => true
  | _ => false

/-- Equality of values: the two zeros are equal, and what is not a number equals nothing. -/
def equal : Binary64 → Binary64 → Bool
  | .finite n r, .finite m s => r = s && (n = m || r.val = 0)
  | .infinite n, .infinite m => n = m
  | _, _ => false

end Binary64

end IndentScript
