import IndentScript.Proofs.Acceptance
import IndentScript.Proofs.Layout
import Mathlib.Data.Nat.Digits.Defs

/-!
# Integers

The digits of an integer stand for powers of ten. An integer token is read exactly, if its text is
a numeral whose value fits into 64 bits with sign, and is blamed for any other text; a run of digits
is one token, however long it is.
-/

namespace IndentScript

open Grammar IndentScript.Parser

/-! ## The value of a numeral -/

namespace Numeral

/-- The value of decimal digits: the last one counts ones, the one before it tens, and so on. -/
def value (digits : List Char) : Nat :=
  Nat.ofDigits 10 (digits.map fun c => c.toNat - '0'.toNat).reverse

/-- The text is digits, with a sign in front of them or without, and stands for the integer. -/
inductive Denotes : List Char → Int → Prop
  | unsigned {digits : List Char} (h : AreDigits digits) : Denotes digits (value digits)
  | plus {digits : List Char} (h : AreDigits digits) : Denotes ('+' :: digits) (value digits)
  | minus {digits : List Char} (h : AreDigits digits) : Denotes ('-' :: digits) (-value digits)

theorem ofDigitChars_eq_value (digits : List Char) :
    Nat.ofDigitChars 10 digits 0 = value digits := by
  induction digits with
  | nil => rfl
  | cons c digits ih =>
      rw [Nat.ofDigitChars_cons, Nat.mul_zero, Nat.zero_add, Nat.ofDigitChars_eq_ofDigitChars_zero,
        ih, value, value, List.map_cons, Nat.ofDigits_reverse_cons, List.length_map, Nat.add_comm]

theorem digits?_eq_some_iff {text : List Char} {n : Nat} :
    digits? text = some n ↔ AreDigits text ∧ n = value text := by
  rw [digits?]
  constructor
  · intro h
    split at h
    · next hdigits =>
      cases h
      exact ⟨⟨hdigits.1, List.all_eq_true.1 hdigits.2⟩, ofDigitChars_eq_value text⟩
    · cases h
  · rintro ⟨h, rfl⟩
    rw [if_pos ⟨h.ne_nil, List.all_eq_true.2 h.isDigit⟩, ofDigitChars_eq_value]

theorem int?_eq_some_iff {text : List Char} {v : Int} : int? text = some v ↔ Denotes text v := by
  rw [int?, Option.map_eq_some_iff]
  constructor
  · rintro ⟨n, hn, rfl⟩
    obtain ⟨hdigits, rfl⟩ := digits?_eq_some_iff.1 hn
    revert hdigits
    unfold splitSign
    split
    · exact .minus
    · exact .plus
    · exact .unsigned
  · intro h
    cases h with
    | unsigned h =>
        rw [splitSign_of_areDigits h]
        exact ⟨_, digits?_eq_some_iff.2 ⟨h, rfl⟩, rfl⟩
    | plus h => exact ⟨_, digits?_eq_some_iff.2 ⟨h, rfl⟩, rfl⟩
    | minus h => exact ⟨_, digits?_eq_some_iff.2 ⟨h, rfl⟩, rfl⟩

theorem int64?_eq_some_iff {text : String} {n : Int64} :
    int64? text = some n ↔ Denotes text.toList n.toInt := by
  rw [int64?, Option.bind_eq_some_iff]
  simp only [int?_eq_some_iff, toInt64?_eq_some_iff]
  constructor
  · rintro ⟨v, hv, rfl⟩
    exact hv
  · exact fun h => ⟨_, h, rfl⟩

theorem Denotes.unique {text : List Char} {v w : Int} (hv : Denotes text v) (hw : Denotes text w) :
    v = w := by
  rw [← int?_eq_some_iff] at hv hw
  exact Option.some.inj (hv.symm.trans hw)

theorem exists_toInt_eq_iff {v : Int} : (∃ n : Int64, n.toInt = v) ↔ -2 ^ 63 ≤ v ∧ v < 2 ^ 63 := by
  constructor
  · rintro ⟨n, rfl⟩
    exact ⟨n.le_toInt, n.toInt_lt⟩
  · exact fun h => ⟨Int64.ofInt v, Int64.toInt_ofInt_of_le h.1 h.2⟩

theorem int64?_eq_none_iff {text : String} :
    int64? text = none ↔ ∀ v, Denotes text.toList v → ¬(-2 ^ 63 ≤ v ∧ v < 2 ^ 63) := by
  rw [Option.eq_none_iff_forall_ne_some]
  simp only [← exists_toInt_eq_iff, ne_eq, int64?_eq_some_iff]
  constructor
  · rintro h v hv ⟨n, rfl⟩
    exact h n hv
  · exact fun h n hn => h _ hn ⟨n, rfl⟩

end Numeral

/-! ## Numbers without a value -/

namespace Parser

variable {s : Stream} {e : ParseError} (h : s.current.operand? = some (.error e))
include h

theorem outcome_primary_of_error (nested : Parser Expr) :
    (primary nested).outcome s = (.error e, s.next) := by
  rw [primary, outcome_peek_bind, h, outcome_advance_bind]
  rfl

/-- Each level reads its first operand first. -/
theorem outcome_expression_of_error : expression.outcome s = (.error e, s.next) := by
  have hprimary := fun nested => outcome_primary_of_error h nested
  have hmultiplicative : ∀ nested, (multiplicative nested).outcome s = (.error e, s.next) :=
    fun nested => outcome_bind_error (hprimary nested)
  have hadditive : ∀ nested, (additive nested).outcome s = (.error e, s.next) :=
    fun nested => outcome_bind_error (hmultiplicative nested)
  have hrelational : ∀ nested, (relational nested).outcome s = (.error e, s.next) :=
    fun nested => outcome_bind_error (hadditive nested)
  have hequality : ∀ nested, (equality nested).outcome s = (.error e, s.next) :=
    fun nested => outcome_bind_error (hrelational nested)
  have hconjunction : ∀ nested, (conjunction nested).outcome s = (.error e, s.next) :=
    fun nested => outcome_bind_error (hequality nested)
  have hdisjunction : ∀ nested, (disjunction nested).outcome s = (.error e, s.next) :=
    fun nested => outcome_bind_error (hconjunction nested)
  rw [expression, outcome_fix]
  exact outcome_bind_error (hdisjunction _)

theorem outcome_statement_of_error : statement.outcome s = (.error e, s.next) := by
  rw [statement, outcome_fix]
  change (statementOf _).outcome s = _
  rw [statementOf, outcome_peek_bind]
  split
  · next hk => simp [Token.operand?, hk] at h
  · next hk => simp [Token.operand?, hk] at h
  · next hk => simp [Token.operand?, hk] at h
  · exact outcome_bind_error (outcome_expression_of_error h)

theorem outcome_program_of_error : program.outcome s = (.error e, s.next) := by
  have hbody : (statementsUntil .eof statement).outcome s = (.error e, s.next) := by
    rw [statementsUntil, outcome_many, outcome_manyUpTo_succ, statementBefore, outcome_peek_bind,
      if_neg (Token.kind_ne_eof_of_operand? h), outcome_bind_error (outcome_statement_of_error h)]
  exact outcome_bind_error hbody

end Parser

namespace Program

/-- A first token that has no value is blamed for that, whatever follows it. -/
theorem ofTokens_of_operand?_error {x : Token} {e : ParseError} (h : x.operand? = some (.error e))
    (rest : List Token) : ofTokens (x :: rest) = .error e := by
  have hcurrent : (Stream.ofTokens (x :: rest)).current = x := by
    obtain ⟨v, hv, -⟩ := Stream.toList_ofTokens (x :: rest)
    obtain ⟨after, hafter⟩ := (Stream.ofTokens (x :: rest)).toList_eq_current_cons
    exact (List.cons.inj (hafter.symm.trans hv)).1
  rw [ofTokens, outcome_program_of_error (by rwa [hcurrent])]

/-- What a single token makes a program of, with end tokens behind it or without. -/
theorem ofTokens_terminal {x : Token} {e : Expr} (h : Terminal x e) {v : List Token}
    (hv : ∀ t ∈ v, t.kind = .eof) : ofTokens (x :: v) = .ok ⟨[.expression e]⟩ := by
  have hphrase : Phrase .assignment [x] e := (Phrase.terminal h).widen (by decide)
  have hend : ∀ t ∈ [x], t.kind ≠ .eof := hphrase.ne_eof
  exact (ofTokens_append_eq_ok_iff hend hv _).2 (.cons (.expression hphrase) .nil)

/-- A single integer token is read as the value of its text, or it is blamed for having none. -/
theorem ofTokens_int (text : String) (place : Location) {v : List Token}
    (hv : ∀ t ∈ v, t.kind = .eof) :
    ofTokens (⟨.int, text, place⟩ :: v) =
      match Numeral.int64? text with
      | some n => .ok ⟨[.expression (.int n)]⟩
      | none => .error (.invalidNumberLiteral text place) := by
  split
  · next n hn =>
    have hterminal : Terminal ⟨.int, text, place⟩ (.int n) := .int rfl hn
    exact ofTokens_terminal hterminal hv
  · next hn =>
    have hop : (⟨.int, text, place⟩ : Token).operand? =
        some (.error (.invalidNumberLiteral text place)) := by simp [Token.operand?, hn]
    exact ofTokens_of_operand?_error hop v

end Program

/-! ## A token alone in a source -/

theorem tokenize_writable {t : Token} (ht : t.Writable) :
    tokenize t.text = [⟨t.kind, t.text, ⟨1, 1⟩⟩, ⟨.eof, "", ⟨2, 1⟩⟩] := by
  obtain ⟨c, rest, htext, -, hblank, -, hline, hreturn⟩ := Token.writable_iff.1 ht
  have hlines : Text.lines t.text = [t.text.toList] := by
    rw [Text.lines_of_not_mem (htext ▸ hline), Text.dropReturn, if_neg (htext ▸ hreturn)]
  have hwidth : Text.indentWidth t.text.toList = 0 := by
    rw [htext, Text.indentWidth, List.takeWhile_cons_of_neg (by simp [hblank])]
    rfl
  have hheld := tokensFrom_writable ht 1 0
  rw [show blanks 0 = [] from rfl, List.nil_append] at hheld
  simp only [tokenize, hlines, tokensOfLines, hwidth, hheld]
  rfl

/-! ## Integers in programs -/

namespace Program

theorem ofSource_digits {d : String} (hd : AreDigits d.toList) :
    (Numeral.value d.toList < 2 ^ 63 → ∃ n : Int64, n.toInt = Numeral.value d.toList ∧
      ofSource d = .ok ⟨[.expression (.int n)]⟩) ∧
    (2 ^ 63 ≤ Numeral.value d.toList → ofSource d = .error (.invalidNumberLiteral d ⟨1, 1⟩)) := by
  have hdenotes : Numeral.Denotes d.toList (Numeral.value d.toList) := .unsigned hd
  have hsource : ofSource d = ofTokens [⟨.int, d, ⟨1, 1⟩⟩, ⟨.eof, "", ⟨2, 1⟩⟩] := by
    rw [ofSource, tokenize_writable (Token.writable_int hd ⟨1, 1⟩)]
  rw [hsource, ofTokens_int d ⟨1, 1⟩ (by simp)]
  constructor
  · intro hlt
    have hfits : -2 ^ 63 ≤ (Numeral.value d.toList : Int) ∧
        (Numeral.value d.toList : Int) < 2 ^ 63 := by omega
    obtain ⟨n, hn⟩ := Numeral.exists_toInt_eq_iff.2 hfits
    rw [Numeral.int64?_eq_some_iff.2 (hn ▸ hdenotes)]
    exact ⟨n, hn, rfl⟩
  · intro hle
    have hnone : Numeral.int64? d = none := by
      rw [Numeral.int64?_eq_none_iff]
      intro v hv
      rw [hv.unique hdenotes]
      omega
    rw [hnone]

theorem ofTokens_numeral (t : String) (place : Location) :
    ((∃ p, ofTokens [⟨.int, t, place⟩] = .ok p) ↔
      ∃ v, Numeral.Denotes t.toList v ∧ -2 ^ 63 ≤ v ∧ v < 2 ^ 63) ∧
    (∀ v, Numeral.Denotes t.toList v → ∀ p, ofTokens [⟨.int, t, place⟩] = .ok p →
      ∃ n : Int64, n.toInt = v ∧ p = ⟨[.expression (.int n)]⟩) ∧
    ∀ e, ofTokens [⟨.int, t, place⟩] = .error e → e = .invalidNumberLiteral t place := by
  rw [ofTokens_int t place (by simp)]
  cases hn : Numeral.int64? t with
  | some n =>
      rw [Numeral.int64?_eq_some_iff] at hn
      have hfits := Numeral.exists_toInt_eq_iff.1 ⟨n, rfl⟩
      refine ⟨⟨fun _ => ⟨n.toInt, hn, hfits⟩, fun _ => ⟨_, rfl⟩⟩, ?_, ?_⟩
      · rintro v hv p ⟨⟩
        exact ⟨n, hn.unique hv, rfl⟩
      · rintro e ⟨⟩
  | none =>
      rw [Numeral.int64?_eq_none_iff] at hn
      refine ⟨⟨?_, ?_⟩, ?_, ?_⟩
      · rintro ⟨p, ⟨⟩⟩
      · rintro ⟨v, hv, hfits⟩
        exact absurd hfits (hn v hv)
      · rintro v - p ⟨⟩
      · rintro e ⟨⟩
        rfl

/-- A source of digits is one integer, if its value is below `2 ^ 63`. An integer token is read just
if its text is a numeral with a value that fits into 64 bits, and then it is read as that value. -/
theorem read_integer :
    (∀ d : String, AreDigits d.toList →
      (Numeral.value d.toList < 2 ^ 63 → ∃ n : Int64, n.toInt = Numeral.value d.toList ∧
        ofSource d = .ok ⟨[.expression (.int n)]⟩) ∧
      (2 ^ 63 ≤ Numeral.value d.toList → ofSource d = .error (.invalidNumberLiteral d ⟨1, 1⟩))) ∧
    ∀ (t : String) (place : Location),
      ((∃ p, ofTokens [⟨.int, t, place⟩] = .ok p) ↔
        ∃ v, Numeral.Denotes t.toList v ∧ -2 ^ 63 ≤ v ∧ v < 2 ^ 63) ∧
      (∀ v, Numeral.Denotes t.toList v → ∀ p, ofTokens [⟨.int, t, place⟩] = .ok p →
        ∃ n : Int64, n.toInt = v ∧ p = ⟨[.expression (.int n)]⟩) ∧
      ∀ e, ofTokens [⟨.int, t, place⟩] = .error e → e = .invalidNumberLiteral t place :=
  ⟨fun _ hd => ofSource_digits hd, ofTokens_numeral⟩

/-- Leading zeros do not count, and the value after the greatest one is blamed. The least value has
a sign, which only the text of a token can have. -/
theorem read_integer_limits :
    AreDigits "009223372036854775807".toList ∧ AreDigits "9223372036854775808".toList ∧
      Numeral.Denotes "-9223372036854775808".toList (-9223372036854775808) ∧
      ofSource "009223372036854775807" = .ok ⟨[.expression (.int 9223372036854775807)]⟩ ∧
      ofSource "9223372036854775808" =
        .error (.invalidNumberLiteral "9223372036854775808" ⟨1, 1⟩) ∧
      ∃ p, ofTokens [⟨.int, "-9223372036854775808", ⟨1, 1⟩⟩] = .ok p := by
  have hgreatest : AreDigits "009223372036854775807".toList := ⟨by simp, by simp⟩
  have hbeyond : AreDigits "9223372036854775808".toList := ⟨by simp, by simp⟩
  have hvalue : Numeral.value "009223372036854775807".toList = 9223372036854775807 := by
    decide +kernel
  have hvalue' : Numeral.value "9223372036854775808".toList = 9223372036854775808 := by
    decide +kernel
  have hleast : Numeral.Denotes "-9223372036854775808".toList (-9223372036854775808) := by
    have hminus := Numeral.Denotes.minus hbeyond
    rwa [hvalue'] at hminus
  refine ⟨hgreatest, hbeyond, hleast, ?_, ?_, ?_⟩
  · obtain ⟨n, hn, hread⟩ := (read_integer.1 _ hgreatest).1 (by rw [hvalue]; decide)
    have hmax : n = 9223372036854775807 := by
      rw [← Int64.toInt_inj, hn, hvalue]
      rfl
    rw [hread, hmax]
  · exact (read_integer.1 _ hbeyond).2 (by rw [hvalue']; decide)
  · exact (read_integer.2 _ ⟨1, 1⟩).1.2 ⟨_, hleast, by decide, by decide⟩

end Program

end IndentScript
