import IndentScript.Numeral.Binary64
import IndentScript.Numeral.Integer

/-!
# Decimal numerals

A decimal numeral is an optional sign, digits with at most one point among or around them, and an
optional exponent. It stands for the number nearest to its value, a half going to the even
neighbour. The words for infinity and for no number are read in any case.
-/

namespace IndentScript

/-- The number `digits * 10 ^ exponent`. -/
structure Decimal where
  digits : Nat
  exponent : Int
deriving DecidableEq, Repr

/-- The rank of the number nearest to a decimal. -/
def Decimal.rank (d : Decimal) : Nat :=
  Binary64.rankNear (d.digits * Nat.pow 10 d.exponent.toNat * Binary64.unitsPerOne)
    (Nat.pow 10 (-d.exponent).toNat)

namespace Numeral

/-- The value of the digits of an exponent. Once it has reached 65536 further digits are dropped, so
that the powers of ten stay of a reasonable size. -/
def exponentDigits (text : List Char) : Nat :=
  text.foldl (fun n c => if n < 65536 then 10 * n + (c.toNat - '0'.toNat) else n) 0

/-- The exponent at the end of a numeral: nothing, or its letter, an optional sign and digits. -/
def exponent? : List Char → Option Int
  | [] => some 0
  | c :: rest =>
    let (negative, digits) := splitSign rest
    if (c = 'e' || c = 'E') && digits ≠ [] && digits.all Char.isDigit then
      let n := exponentDigits digits
      some (if negative then -(n : Int) else n)
    else none

/-- The digits after the point, and what follows them; a text without a point has none. -/
def fraction : List Char → List Char × List Char
  | '.' :: rest => (rest.takeWhile Char.isDigit, rest.dropWhile Char.isDigit)
  | rest => ([], rest)

/-- The value of an unsigned decimal numeral. A digit has to stand on one side of the point. -/
def decimal? (text : List Char) : Option Decimal :=
  let whole := text.takeWhile Char.isDigit
  let (places, rest) := fraction (text.dropWhile Char.isDigit)
  if whole ++ places = [] then none
  else (exponent? rest).map fun e => ⟨Nat.ofDigitChars 10 (whole ++ places) 0, e - places.length⟩

/-- The number that a numeral or a word for a special value stands for. -/
def binary64? (text : String) : Option Binary64 :=
  let (negative, body) := splitSign text.toList
  let word := String.ofList (body.map Char.toLower)
  if word = "inf" || word = "infinity" then some (.infinite negative)
  else if word = "nan" then some .nan
  else (decimal? body).map fun d => .ofRank negative d.rank

end Numeral

end IndentScript
