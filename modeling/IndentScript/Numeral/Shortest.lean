import IndentScript.Numeral.Decimal

/-!
# Shortest decimals

Among the decimals that round to a given number, `Decimal.shortest` selects one with the fewest
digits and, of those, the nearest. It looks at the grids of one, two, … seventeen digits in turn.
On each grid only the two neighbours of the number can be the nearest, and a neighbour is tested
by reading it back. Two neighbours may be equally near; the rule for that tie is a parameter.
-/

namespace IndentScript

/-- Which of two equally near decimals is taken: the one above, or the one with an even digit. -/
inductive Tie where
  | up
  | even
deriving DecidableEq, Repr

namespace Decimal

/-- The least `k` with `units < 10 ^ k` ones, for a number of units that is not zero. -/
def magnitude (units : Nat) : Int :=
  let ones := units / Binary64.unitsPerOne
  if ones = 0 then 1 - ((Nat.toDigits 10 ((Binary64.unitsPerOne - 1) / units)).length : Int)
  else (Nat.toDigits 10 ones).length

/-- The nearer of two neighbours on a grid, of those that may be taken at all. The number stands
`rest / den` of a step above the lower one. -/
def nearer? (tie : Tie) (rest den : Nat) (below above : Decimal) : Bool → Bool → Option Decimal
  | true, true =>
    if 2 * rest < den then some below
    else if den < 2 * rest then some above
    else match tie with
      | .up => some above
      | .even => some (if below.digits % 2 = 0 then below else above)
  | true, false => some below
  | false, true => some above
  | false, false => none

/-- The nearest of the decimals with the given exponent that read back to the rank. -/
def nearestOn? (tie : Tie) (rank : Nat) (exponent : Int) : Option Decimal :=
  let num := Binary64.unitsAt rank * Nat.pow 10 (-exponent).toNat
  let den := Binary64.unitsPerOne * Nat.pow 10 exponent.toNat
  let below : Decimal := ⟨num / den, exponent⟩
  let above : Decimal := ⟨num / den + 1, exponent⟩
  nearer? tie (num % den) den below above (below.rank = rank) (above.rank = rank)

/-- The number at a rank, digit by digit. -/
def exact (rank : Nat) : Decimal :=
  ⟨Binary64.unitsAt rank * Nat.pow 5 1074, -1074⟩

/-- The same decimal without zeros at the end of its digits. -/
def trim (d : Decimal) : Decimal :=
  if d.digits ≠ 0 ∧ d.digits % 10 = 0 then trim ⟨d.digits / 10, d.exponent + 1⟩ else d
termination_by d.digits
decreasing_by omega

/-- The shortest decimal that reads back to the rank, and of the shortest the nearest. -/
def shortest (tie : Tie) (rank : Nat) : Decimal :=
  let k := magnitude (Binary64.unitsAt rank)
  let found := (List.range' 1 17).findSome? fun (n : Nat) => nearestOn? tie rank (k - n)
  trim (found.getD (exact rank))

end Decimal

end IndentScript
