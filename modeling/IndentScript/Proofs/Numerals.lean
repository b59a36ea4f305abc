import IndentScript.Proofs.Rounding
import IndentScript.Proofs.WellFormed
import IndentScript.Tree.Render

/-!
# Written numbers are read back

A finite number is written as digits with a point or an exponent, or with both. The text is that of
a decimal which rounds to the number, so reading it gives the number back.
-/

namespace IndentScript

namespace Numeral

/-! ## Exponents -/

theorem exponentDigits_eq {text : List Char} (h : Nat.ofDigitChars 10 text 0 < 65536) :
    exponentDigits text = Nat.ofDigitChars 10 text 0 := by
  have hfrom : ∀ n, Nat.ofDigitChars 10 text n < 65536 →
      text.foldl (fun n c => if n < 65536 then 10 * n + (c.toNat - '0'.toNat) else n) n =
        Nat.ofDigitChars 10 text n := by
    clear h
    induction text with
    | nil => exact fun n _ => rfl
    | cons c text ih =>
        intro n hn
        have hle : n ≤ Nat.ofDigitChars 10 (c :: text) n := by
          rw [Nat.ofDigitChars_eq_ofDigitChars_zero]
          exact Nat.le_add_right_of_le (Nat.le_mul_of_pos_left n (Nat.pow_pos (by decide)))
        rw [Nat.ofDigitChars_cons] at hn ⊢
        rw [List.foldl_cons, if_pos (by rw [Nat.ofDigitChars_cons] at hle; omega)]
        exact ih _ hn
  exact hfrom 0 h

theorem exponent?_toDigits {n : Nat} (hn : n < 65536) {negative : Bool} {rest : List Char}
    (hrest : splitSign rest = (negative, Nat.toDigits 10 n)) :
    exponent? ('e' :: rest) = some (if negative then -(n : Int) else n) := by
  have hall : (Nat.toDigits 10 n).all Char.isDigit = true :=
    List.all_eq_true.2 (areDigits_toDigits n).isDigit
  have hvalue : exponentDigits (Nat.toDigits 10 n) = n := by
    rw [exponentDigits_eq (by rwa [Nat.ofDigitChars_ten_toDigits]), Nat.ofDigitChars_ten_toDigits]
  rw [exponent?, hrest]
  simp [hall, hvalue, Nat.toDigits_ne_nil]

theorem exponent?_toString {e : Int} (he : e.natAbs < 65536) :
    exponent? ('e' :: (toString e).toList) = some e := by
  rw [Int.toString_eq_repr, Int.repr_eq_if]
  split
  · next hpos =>
    have hsign := splitSign_of_areDigits (areDigits_toDigits e.toNat)
    rw [Nat.toList_repr, exponent?_toDigits (by omega) hsign]
    simp [Int.toNat_of_nonneg hpos]
  · next hneg =>
    have hsign : splitSign ('-' :: Nat.toDigits 10 (-e).toNat) =
        (true, Nat.toDigits 10 (-e).toNat) := rfl
    have hread := exponent?_toDigits (by omega) hsign
    rw [String.toList_append, Nat.toList_repr]
    refine hread.trans ?_
    rw [if_pos rfl, Int.toNat_of_nonneg (by omega), Int.neg_neg]

/-! ## Texts of numbers -/

/-- Digits, a point, digits, and an exponent or nothing. -/
theorem decimal?_pointed {whole places rest : List Char} {e : Int} (hwhole : AreDigits whole)
    (hplaces : ∀ c ∈ places, c.isDigit = true) (hrest : rest.takeWhile Char.isDigit = [])
    (he : exponent? rest = some e) :
    decimal? (whole ++ '.' :: (places ++ rest)) =
      some ⟨Nat.ofDigitChars 10 (whole ++ places) 0, e - places.length⟩ := by
  obtain ⟨htake, hdrop⟩ := takeWhile_append_stop hwhole.isDigit ('.' :: (places ++ rest)) rfl
  obtain ⟨htake', hdrop'⟩ := takeWhile_append_stop hplaces rest hrest
  simp [decimal?, htake, hdrop, fraction, htake', hdrop', hwhole.ne_nil, he]

/-- Digits and an exponent. -/
theorem decimal?_whole {whole rest : List Char} {e : Int} (hwhole : AreDigits whole)
    (he : exponent? ('e' :: rest) = some e) :
    decimal? (whole ++ 'e' :: rest) = some ⟨Nat.ofDigitChars 10 whole 0, e⟩ := by
  obtain ⟨htake, hdrop⟩ := takeWhile_append_stop hwhole.isDigit ('e' :: rest) rfl
  simp [decimal?, htake, hdrop, fraction, hwhole.ne_nil, he]

/-- The text starts with a digit, has only the characters of a number without a sign, is more than
digits, and stands for the decimal. -/
structure Reads (text : List Char) (d : Decimal) : Prop where
  decimal : decimal? text = some d
  starts : ∃ c rest, text = c :: rest ∧ c.isDigit = true
  chars : ∀ c ∈ text, c.isDigit = true ∨ c = '.' ∨ c = 'e' ∨ c = '-'
  marked : '.' ∈ text ∨ 'e' ∈ text

theorem toString_chars (e : Int) : ∀ c ∈ (toString e).toList, c.isDigit = true ∨ c = '-' := by
  have hdigits : ∀ n : Nat, ∀ c ∈ Nat.toDigits 10 n, c.isDigit = true ∨ c = '-' :=
    fun n c hc => .inl ((areDigits_toDigits n).isDigit c hc)
  rw [Int.toString_eq_repr, Int.repr_eq_if]
  split
  · rw [Nat.toList_repr]
    exact hdigits _
  · rw [String.toList_append, Nat.toList_repr]
    exact List.forall_mem_cons.2 ⟨.inr rfl, hdigits _⟩

theorem starts_append {digits : List Char} (h : AreDigits digits) (rest : List Char) :
    ∃ c tail, digits ++ rest = c :: tail ∧ c.isDigit = true := by
  obtain ⟨c, tail, rfl⟩ := List.exists_cons_of_ne_nil h.ne_nil
  exact ⟨c, tail ++ rest, rfl, h.isDigit c List.mem_cons_self⟩

theorem reads_point {whole places : List Char} (hwhole : AreDigits whole)
    (hplaces : AreDigits places) :
    Reads (whole ++ '.' :: places) ⟨Nat.ofDigitChars 10 (whole ++ places) 0, -places.length⟩ where
  decimal := by
    have hnone : exponent? [] = some 0 := rfl
    have := decimal?_pointed hwhole hplaces.isDigit rfl hnone
    simpa using this
  starts := starts_append hwhole _
  chars := by
    intro c hc
    simp only [List.mem_append, List.mem_cons] at hc
    rcases hc with hc | rfl | hc
    · exact .inl (hwhole.isDigit c hc)
    · exact .inr (.inl rfl)
    · exact .inl (hplaces.isDigit c hc)
  marked := .inl (by simp)

theorem reads_exponent {whole : List Char} (hwhole : AreDigits whole) {e : Int}
    (he : e.natAbs < 65536) :
    Reads (whole ++ 'e' :: (toString e).toList) ⟨Nat.ofDigitChars 10 whole 0, e⟩ where
  decimal := decimal?_whole hwhole (exponent?_toString he)
  starts := starts_append hwhole _
  chars := by
    intro c hc
    simp only [List.mem_append, List.mem_cons] at hc
    rcases hc with hc | rfl | hc
    · exact .inl (hwhole.isDigit c hc)
    · exact .inr (.inr (.inl rfl))
    · exact (toString_chars e c hc).imp_right fun h => .inr (.inr h)
  marked := .inr (by simp)

theorem reads_point_exponent {whole places : List Char} (hwhole : AreDigits whole)
    (hplaces : AreDigits places) {e : Int} (he : e.natAbs < 65536) :
    Reads (whole ++ '.' :: (places ++ 'e' :: (toString e).toList))
      ⟨Nat.ofDigitChars 10 (whole ++ places) 0, e - places.length⟩ where
  decimal := decimal?_pointed hwhole hplaces.isDigit rfl (exponent?_toString he)
  starts := starts_append hwhole _
  chars := by
    intro c hc
    simp only [List.mem_append, List.mem_cons] at hc
    rcases hc with hc | rfl | hc | rfl | hc
    · exact .inl (hwhole.isDigit c hc)
    · exact .inr (.inl rfl)
    · exact .inl (hplaces.isDigit c hc)
    · exact .inr (.inr (.inl rfl))
    · exact (toString_chars e c hc).imp_right fun h => .inr (.inr h)
  marked := .inl (by simp)

end Numeral

/-! ## The two forms -/

namespace NumberFormat

open Numeral

theorem reads_scientific {f : NumberFormat} (hplus : f.plus = "") {digits : List Char}
    (h : AreDigits digits) {lead : Int} (hlead : lead.natAbs < 65536) :
    Reads (f.scientific digits lead).toList
      ⟨Nat.ofDigitChars 10 digits 0, lead - (digits.length - 1 : Nat)⟩ := by
  obtain ⟨c, places, rfl⟩ := List.exists_cons_of_ne_nil h.ne_nil
  have hwhole : AreDigits [c] :=
    ⟨List.cons_ne_nil _ _, fun d hd => h.isDigit d (List.mem_singleton.1 hd ▸ List.mem_cons_self)⟩
  rw [scientific, hplus]
  cases places with
  | nil => simpa using reads_exponent hwhole hlead
  | cons d places =>
      have hplaces : AreDigits (d :: places) :=
        ⟨List.cons_ne_nil _ _, fun x hx => h.isDigit x (List.mem_cons_of_mem c hx)⟩
      simpa using reads_point_exponent hwhole hplaces hlead

theorem areDigits_zero : AreDigits ['0'] :=
  areDigits_toDigits 0

/-- Below one, the digits stand after zeros. -/
theorem reads_plain_of_neg {digits : List Char} (h : AreDigits digits) {lead : Int}
    (hlead : lead < 0) :
    Reads (plain digits lead).toList
      ⟨Nat.ofDigitChars 10 digits 0, lead - (digits.length - 1 : Nat)⟩ := by
  have hplaces : AreDigits (List.replicate (-lead - 1).toNat '0' ++ digits) := by
    refine ⟨by simp [h.ne_nil], List.forall_mem_append.2 ⟨?_, h.isDigit⟩⟩
    intro c hc
    rw [List.eq_of_mem_replicate hc]
    rfl
  have hpos := List.length_pos_iff.2 h.ne_nil
  have hvalue : Nat.ofDigitChars 10 (['0'] ++ (List.replicate (-lead - 1).toNat '0' ++ digits)) 0 =
      Nat.ofDigitChars 10 digits 0 := by
    rw [← List.append_assoc, show ['0'] = List.replicate 1 '0' from rfl,
      ← List.replicate_add, Nat.ofDigitChars_append, Nat.ofDigitChars_replicate_zero, Nat.mul_zero]
  have hread := reads_point areDigits_zero hplaces
  rw [hvalue] at hread
  have hexponent : -((List.replicate (-lead - 1).toNat '0' ++ digits).length : Int) =
      lead - (digits.length - 1 : Nat) := by
    rw [List.length_append, List.length_replicate]
    omega
  rw [hexponent] at hread
  rw [plain, if_pos hlead]
  simpa using hread

/-- The digits reach beyond the point. -/
theorem reads_plain_of_lt {digits : List Char} (h : AreDigits digits) {lead : Nat}
    (hlead : lead + 1 < digits.length) :
    Reads (plain digits lead).toList
      ⟨Nat.ofDigitChars 10 digits 0, lead - (digits.length - 1 : Nat)⟩ := by
  have hwhole : AreDigits (digits.take (lead + 1)) := by
    refine ⟨?_, fun c hc => h.isDigit c (List.mem_of_mem_take hc)⟩
    rw [Ne, List.take_eq_nil_iff]
    simp [h.ne_nil]
  have hplaces : AreDigits (digits.drop (lead + 1)) :=
    ⟨by rw [Ne, List.drop_eq_nil_iff]; omega, fun c hc => h.isDigit c (List.mem_of_mem_drop hc)⟩
  have hread := reads_point hwhole hplaces
  have hexponent : -((digits.drop (lead + 1)).length : Int) = lead - (digits.length - 1 : Nat) := by
    rw [List.length_drop]
    omega
  rw [List.take_append_drop, hexponent] at hread
  rw [plain, if_neg (by omega)]
  simpa [hplaces.ne_nil, Nat.sub_eq_zero_of_le (Nat.le_of_lt hlead)] using hread

/-- The digits do not reach the point, or just do, and a zero stands after it. -/
theorem reads_plain_of_le {digits : List Char} (h : AreDigits digits) {lead : Nat}
    (hlead : digits.length ≤ lead + 1) :
    Reads (plain digits lead).toList
      ⟨Nat.ofDigitChars 10 digits 0 * 10 ^ (lead + 1 - digits.length + 1), -1⟩ := by
  have hwhole : AreDigits (digits ++ List.replicate (lead + 1 - digits.length) '0') := by
    refine ⟨by simp [h.ne_nil], List.forall_mem_append.2 ⟨h.isDigit, ?_⟩⟩
    intro c hc
    rw [List.eq_of_mem_replicate hc]
    rfl
  have hvalue : Nat.ofDigitChars 10
      (digits ++ List.replicate (lead + 1 - digits.length) '0' ++ ['0']) 0 =
        Nat.ofDigitChars 10 digits 0 * 10 ^ (lead + 1 - digits.length + 1) := by
    rw [show ['0'] = List.replicate 1 '0' from rfl, List.append_assoc, ← List.replicate_add,
      Nat.ofDigitChars_append, Nat.ofDigitChars_replicate_zero, Nat.mul_comm]
  have hread := reads_point hwhole areDigits_zero
  rw [hvalue] at hread
  rw [plain, if_neg (by omega)]
  simpa [List.take_of_length_le hlead, List.drop_of_length_le hlead] using hread

/-- A positional text is read as a decimal of the same value. -/
theorem reads_plain {digits : List Char} (h : AreDigits digits) (lead : Int) :
    ∃ d, Reads (plain digits lead).toList d ∧
      d.rank = Decimal.rank ⟨Nat.ofDigitChars 10 digits 0, lead - (digits.length - 1 : Nat)⟩ := by
  rcases Int.lt_or_le lead 0 with hneg | hpos
  · exact ⟨_, reads_plain_of_neg h hneg, rfl⟩
  · obtain ⟨lead, rfl⟩ := Int.eq_ofNat_of_zero_le hpos
    rcases Nat.lt_or_ge (lead + 1) digits.length with hlt | hge
    · exact ⟨_, reads_plain_of_lt h hlt, rfl⟩
    · refine ⟨_, reads_plain_of_le h hge, ?_⟩
      have hlength := List.length_pos_iff.2 h.ne_nil
      rw [Decimal.rank_mul_pow]
      congr 2
      omega

/-- A finite number is written as a decimal that rounds to it. -/
theorem reads_magnitude {f : NumberFormat} (hplus : f.plus = "") (rank : Fin Binary64.rankBound) :
    ∃ d, Reads (f.magnitude rank).toList d ∧ d.rank = rank := by
  rw [magnitude]
  split
  · next hzero =>
    refine ⟨⟨0, -1⟩, reads_point areDigits_zero areDigits_zero, ?_⟩
    rw [hzero, Decimal.rank_zero]
  · have hrank := Decimal.rank_shortest f.tie rank
    have hpoint := Decimal.point_shortest f.tie rank
    generalize Decimal.shortest f.tie rank = d at hrank hpoint
    obtain ⟨n, e⟩ := d
    have hdigits := areDigits_toDigits n
    have hlength := List.length_pos_iff.2 hdigits.ne_nil
    have hexponent : e + (Nat.toDigits 10 n).length - 1 -
        ((Nat.toDigits 10 n).length - 1 : Nat) = e := by
      omega
    have hlead : (e + (Nat.toDigits 10 n).length - 1).natAbs < 65536 := by
      simp only [Decimal.point] at hpoint
      omega
    dsimp only
    split
    · obtain ⟨d, hread, hd⟩ := reads_plain hdigits (e + (Nat.toDigits 10 n).length - 1)
      rw [hexponent, Nat.ofDigitChars_ten_toDigits] at hd
      exact ⟨d, hread, hd.trans hrank⟩
    · have hread := reads_scientific hplus hdigits hlead
      rw [hexponent, Nat.ofDigitChars_ten_toDigits] at hread
      exact ⟨_, hread, hrank⟩

end NumberFormat

/-! ## Reading a written number -/

namespace Numeral

/-- A text that starts with a digit is none of the words for special values. -/
theorem ofList_toLower_ne {c : Char} (hc : c.isDigit = true) (rest : List Char) (word : String)
    (hword : ∀ d ∈ word.toList, d.isDigit = false) :
    String.ofList ((c :: rest).map Char.toLower) ≠ word := by
  rintro rfl
  have hlower : c.toLower = c := by
    refine dif_neg ?_
    rintro ⟨hle, -⟩
    simp only [Char.isDigit, Bool.and_eq_true, decide_eq_true_eq] at hc
    exact absurd (UInt32.le_trans hle hc.2) (by decide)
  have := hword c.toLower (by simp)
  rw [hlower, hc] at this
  cases this

/-- A text with or without a minus before it stands for the number of the same sign. -/
theorem binary64?_of_reads {text : String} {body : List Char} {negative : Bool} {d : Decimal}
    (htext : splitSign text.toList = (negative, body)) (h : Reads body d) :
    binary64? text = some (.ofRank negative d.rank) := by
  obtain ⟨c, rest, rfl, hc⟩ := h.starts
  have hinf := ofList_toLower_ne hc rest "inf" (by simp)
  have hinfinity := ofList_toLower_ne hc rest "infinity" (by simp)
  have hnan := ofList_toLower_ne hc rest "nan" (by simp)
  rw [binary64?, htext]
  dsimp only
  generalize String.ofList ((c :: rest).map Char.toLower) = word at hinf hinfinity hnan ⊢
  simp [hinf, hinfinity, hnan, h.decimal]

/-- Digits on both sides of a point stand for a number without a sign. -/
theorem exists_rank_of_isFraction {s : String} (hs : IsFraction s) {v : Binary64}
    (hv : binary64? s = some v) (hfinite : v.isFinite = true) : ∃ rank, v = .finite false rank := by
  obtain ⟨whole, places, htext, hwhole, hplaces⟩ := hs
  have hread := reads_point hwhole hplaces
  rw [← htext] at hread
  obtain ⟨c, rest, hcons, hc⟩ := hread.starts
  have hsign : splitSign s.toList = (false, s.toList) := by
    rw [hcons]
    exact splitSign_of_isDigit hc rest
  rw [binary64?_of_reads hsign hread] at hv
  cases hv
  rw [Binary64.ofRank] at hfinite ⊢
  split at hfinite
  · next hrank => exact ⟨_, dif_pos hrank⟩
  · cases hfinite

theorem Reads.int64?_eq_none {text : String} {d : Decimal} (h : Reads text.toList d) :
    int64? text = none := by
  obtain ⟨c, rest, hcons, hc⟩ := h.starts
  have hsign : splitSign text.toList = (false, text.toList) := by
    rw [hcons]
    exact splitSign_of_isDigit hc rest
  have hall : ¬text.toList.all Char.isDigit = true := by
    rw [List.all_eq_true]
    intro hall
    rcases h.marked with hmem | hmem <;> exact absurd (hall _ hmem) (by decide)
  have hdigits : digits? text.toList = none := if_neg fun h => hall h.2
  rw [int64?, int?, hsign, hdigits]
  rfl

end Numeral

namespace Binary64

theorem reads_render (rank : Fin rankBound) :
    ∃ d, Numeral.Reads (render (.finite false rank)).toList d ∧ d.rank = rank := by
  obtain ⟨d, hread, hrank⟩ := NumberFormat.reads_magnitude (f := treeNumbers) rfl rank
  exact ⟨d, by simpa [render, NumberFormat.write] using hread, hrank⟩

theorem binary64?_render {x : Binary64} (hx : x.isFinite = true) :
    Numeral.binary64? x.render = some x := by
  cases x with
  | nan => cases hx
  | infinite negative => cases hx
  | finite negative rank =>
      obtain ⟨d, hread, hrank⟩ := NumberFormat.reads_magnitude (f := treeNumbers) rfl rank
      have hsign : Numeral.splitSign (render (.finite negative rank)).toList =
          (negative, (treeNumbers.magnitude rank).toList) := by
        cases negative with
        | true => simp [render, NumberFormat.write, Numeral.splitSign]
        | false =>
            obtain ⟨c, rest, htext, hc⟩ := hread.starts
            simpa [render, NumberFormat.write, htext] using Numeral.splitSign_of_isDigit hc rest
      rw [Numeral.binary64?_of_reads hsign hread, hrank, ofRank, dif_pos rank.isLt]

end Binary64

end IndentScript
