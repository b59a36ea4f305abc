import IndentScript.Numeral.Format

/-!
# JSON values

A value and its compact text. An object is the list of its fields; those who build one list the
fields in ascending order of their keys, so that a value has one text.
-/

namespace IndentScript

inductive Json where
  | null
  | bool (value : Bool)
  | int (value : Int)
  | float (value : Binary64)
  | str (value : String)
  | arr (items : List Json)
  | obj (fields : List (String × Json))
deriving Repr

namespace Json

/-- Numbers in a text: a half goes to the even digit, and `1e-5` and `1e16` are where the exponent
comes in, always with its sign. -/
def numbers : NumberFormat where
  tie := .even
  plainFrom := -5
  plainBelow := 16
  plus := "+"

/-- The form of a character in a string. -/
def escape (c : Char) : List Char :=
  match c with
  | '"' => ['\\', '"']
  | '\\' => ['\\', '\\']
  | '\x08' => ['\\', 'b']
  | '\t' => ['\\', 't']
  | '\n' => ['\\', 'n']
  | '\x0c' => ['\\', 'f']
  | '\r' => ['\\', 'r']
  | c =>
    if c.toNat < 32 then
      ['\\', 'u', '0', '0', Nat.digitChar (c.toNat / 16), Nat.digitChar (c.toNat % 16)]
    else [c]

def quote (s : String) : String :=
  String.ofList ('"' :: (s.toList.flatMap escape ++ ['"']))

/-- A number. There is no text for infinities and for what is not a number. -/
def numberText : Binary64 → String
  | .finite negative rank => numbers.write negative rank
  | _ => "null"

mutual

/-- The text of a value, without blanks. -/
def text : Json → String
  | null => "null"
  | bool value => if value then "true" else "false"
  | int value => toString value
  | float value => numberText value
  | str value => quote value
  | arr items => "[" ++ ",".intercalate (itemTexts items) ++ "]"
  | obj fields => "\x7b" ++ ",".intercalate (fieldTexts fields) ++ "\x7d"

def itemTexts : List Json → List String
  | [] => []
  | item :: rest => item.text :: itemTexts rest

def fieldTexts : List (String × Json) → List String
  | [] => []
  | (key, value) :: rest => (quote key ++ ":" ++ value.text) :: fieldTexts rest

end

/-- The number, or `null` if it is none or infinite. -/
def ofBinary64 (value : Binary64) : Json :=
  if value.isFinite then .float value else .null

/-- A node of a tree: its type and its parts. -/
def node (type : String) (parts : List (String × Json)) : Json :=
  .obj [("data", .obj parts), ("type", .str type)]

end Json

end IndentScript
