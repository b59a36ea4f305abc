import IndentScript.Numeral.Shortest

/-!
# Written numbers

A finite number is written with its shortest digits. Numbers of middling size are written
positionally, with at least one digit on either side of the point; all others with an exponent.
Where the one form gives way to the other, and the sign of a positive exponent, are decisions of
the output and stand in a `NumberFormat`.
-/

namespace IndentScript

/-- The decisions of an output on how it writes numbers. -/
structure NumberFormat where
  tie : Tie
  /-- The least exponent of a leading digit that is written positionally. -/
  plainFrom : Int
  /-- The least exponent of a leading digit above `plainFrom` that is not. -/
  plainBelow : Int
  /-- What stands before the digits of an exponent that is not negative. -/
  plus : String

namespace NumberFormat

/-- Digits in positional form, where the first of them has the given exponent. -/
def plain (digits : List Char) (lead : Int) : String :=
  if lead < 0 then
    "0." ++ String.ofList (List.replicate (-lead - 1).toNat '0' ++ digits)
  else
    let places := lead.toNat + 1
    let whole := digits.take places ++ List.replicate (places - digits.length) '0'
    let rest := digits.drop places
    String.ofList whole ++ "." ++ (if rest = [] then "0" else String.ofList rest)

/-- Digits with an exponent, where the first of them has the given exponent. -/
def scientific (f : NumberFormat) (digits : List Char) (lead : Int) : String :=
  let rest := digits.drop 1
  String.ofList (digits.take 1) ++ (if rest = [] then "" else "." ++ String.ofList rest) ++ "e" ++
    (if lead < 0 then toString lead else f.plus ++ toString lead)

/-- The number at a rank. -/
def magnitude (f : NumberFormat) (rank : Nat) : String :=
  if rank = 0 then "0.0"
  else
    let d := Decimal.shortest f.tie rank
    let digits := Nat.toDigits 10 d.digits
    let lead := d.exponent + digits.length - 1
    if f.plainFrom ≤ lead ∧ lead < f.plainBelow then plain digits lead
    else f.scientific digits lead

/-- A finite number with the given sign and rank. -/
def write (f : NumberFormat) (negative : Bool) (rank : Nat) : String :=
  (if negative then "-" else "") ++ f.magnitude rank

end NumberFormat

end IndentScript
