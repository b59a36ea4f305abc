/-!
# Integer numerals

An integer numeral is an optional sign and at least one decimal digit. Its value has to fit into
64 bits with sign; leading zeros do not count.
-/

namespace IndentScript.Numeral

/-- Splits off a sign: whether it was a minus, and what follows it. -/
def splitSign : List Char → Bool × List Char
  | '-' :: rest => (true, rest)
  | '+' :: rest => (false, rest)
  | text => (false, text)

/-- The value of a run of decimal digits, or `none` if there is no digit or another character. -/
def digits? (text : List Char) : Option Nat :=
  if text ≠ [] ∧ text.all Char.isDigit then some (Nat.ofDigitChars 10 text 0) else none

/-- The value of an integer numeral of any size. -/
def int? (text : List Char) : Option Int :=
  (digits? (splitSign text).2).map fun n : Nat => if (splitSign text).1 then -(n : Int) else n

/-- The integer in 64 bits, if it fits into them. -/
def toInt64? (v : Int) : Option Int64 :=
  if Int64.minValue.toInt ≤ v ∧ v ≤ Int64.maxValue.toInt then some (Int64.ofInt v) else none

/-- The value of an integer numeral, if it fits into 64 bits with sign. -/
def int64? (text : String) : Option Int64 :=
  (int? text.toList).bind toInt64?

end IndentScript.Numeral
