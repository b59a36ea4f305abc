import IndentScript.Proofs.Spelling

/-!
# Lexical rules

The rules that say which texts are lexemes, and of which kind, without saying how lexemes are found.
What is read at the front of a text is the longest lexeme that stands there, and of its kind; where
no lexeme stands, it is one illegal character.
-/

namespace IndentScript

namespace Lexeme

/-! ## The lexical rules -/

/-- The text is a lexeme of the kind. -/
inductive Rule : Kind → String → Prop
  | name {s : String} (h : IsName s) : Rule .ident s
  | keyword {s : String} {k : Kind} (h : (s, k) ∈ words) : Rule k s
  | int {s : String} (h : AreDigits s.toList) : Rule .int s
  | float {s : String} (h : IsFraction s) : Rule .float s
  | string {s : String} {body : List Char} (h : s.toList = '"' :: (body ++ ['"']))
      (hbody : '"' ∉ body) : Rule .string s
  | operator {s : String} {k : Kind} (h : (s, k) ∈ operators) : Rule k s

theorem Rule.isLayout {k : Kind} {s : String} (h : Rule k s) : k.isLayout = false := by
  have hwords : ∀ p ∈ words, p.2.isLayout = false := by decide
  have hoperators : ∀ p ∈ operators, p.2.isLayout = false := by decide
  cases h with
  | keyword h => exact hwords _ h
  | operator h => exact hoperators _ h
  | _ => rfl

/-! ## At a lexeme -/

/-- The lexeme has at least as many characters after its first one as it says, and if it has not
more, then it is of the kind. -/
structure Reaches (k : Kind) (more : Nat) (l : Lexeme) : Prop where
  le_more : more ≤ l.more
  legal : l.kind ≠ .illegal
  kind_eq : l.more = more → l.kind = k

/-- Whether a character can only start an operator. -/
def startsSymbol (c : Char) : Bool :=
  !startsWord c && !c.isDigit && c ≠ '"'

/-- Whether the characters are read as a word. -/
def isWord : List Char → Bool
  | [] => false
  | c :: tail => startsWord c && tail.all continuesWord

/-- Whether the characters are read as an operator of the kind. -/
def isOperator (k : Kind) : List Char → Bool
  | [c] => startsSymbol c && single? c = some k
  | [c, d] => startsSymbol c && pair? c d = some k
  | _ => false

theorem isOperator_of_mem_operators : ∀ p ∈ operators, isOperator p.2 p.1.toList = true := by
  decide

theorem operators_legal : ∀ p ∈ operators, p.2 ≠ .illegal := by
  decide

theorem read_of_startsSymbol {c : Char} (h : startsSymbol c = true) (rest : List Char) :
    read c rest = symbol c rest := by
  simp only [startsSymbol, Bool.and_eq_true, Bool.not_eq_true', decide_eq_true_eq] at h
  obtain ⟨⟨hword, hdigit⟩, hquote⟩ := h
  rw [read, if_neg (by simp [hword]), if_neg (by simp [hdigit]), if_neg hquote]

theorem ofWord_eq_ident_or_mem (s : String) :
    Kind.ofWord s = .ident ∨ (s, Kind.ofWord s) ∈ words := by
  rw [Kind.ofWord, words_perm_keywords.mem_iff]
  cases hs : Kind.keywords.lookup s with
  | none => exact .inl rfl
  | some k =>
      obtain ⟨front, back, heq, -⟩ := List.lookup_eq_some_iff.1 hs
      exact .inr (by simp [heq])

section

variable {c : Char} {tail : List Char} {k : Kind}

theorem reaches_word (hc : startsWord c = true) (htail : ∀ d ∈ tail, continuesWord d = true)
    (hk : Kind.ofWord (String.ofList (c :: tail)) = k) (after : List Char) :
    Reaches k tail.length (read c (tail ++ after)) := by
  have hwords : ∀ p ∈ words, p.2 ≠ .illegal := by decide
  rw [read, if_pos hc, word, List.takeWhile_append_of_pos htail]
  constructor
  · simp
  · rcases ofWord_eq_ident_or_mem (String.ofList (c :: (tail ++ after.takeWhile continuesWord)))
      with h | h
    · rw [h]
      exact Kind.noConfusion
    · exact hwords _ h
  · intro hmore
    have hnil : after.takeWhile continuesWord = [] := by
      simpa using hmore
    simpa [hnil] using hk

theorem reaches_int (hc : c.isDigit = true) (htail : ∀ d ∈ tail, d.isDigit = true)
    (after : List Char) : Reaches .int tail.length (read c (tail ++ after)) := by
  rw [Token.read_of_isDigit hc, number, List.takeWhile_append_of_pos htail, List.length_append]
  split
  · split
    · exact ⟨Nat.le_add_right _ _, by simp, fun _ => rfl⟩
    · refine ⟨by simp only; omega, by simp, fun hmore => ?_⟩
      simp only at hmore
      omega
  · exact ⟨Nat.le_add_right _ _, by simp, fun _ => rfl⟩

theorem reaches_float {whole places : List Char} (hc : c.isDigit = true)
    (hwhole : ∀ d ∈ whole, d.isDigit = true) (hplaces : AreDigits places) (after : List Char) :
    Reaches .float (whole ++ '.' :: places).length (read c (whole ++ '.' :: places ++ after)) := by
  have hpoint : ¬('.'.isDigit = true) := by decide
  rw [Token.read_of_isDigit hc, number, List.append_assoc, List.cons_append,
    List.takeWhile_append_of_pos hwhole, List.dropWhile_append_of_pos hwhole,
    List.takeWhile_cons_of_neg hpoint, List.dropWhile_cons_of_neg hpoint, List.append_nil]
  simp only [List.takeWhile_append_of_pos hplaces.isDigit, List.length_append]
  have hpos := List.length_pos_iff.2 hplaces.ne_nil
  split
  · omega
  · next digits hdigits =>
    refine ⟨?_, by simp, fun _ => rfl⟩
    simp only [List.length_cons]
    omega

theorem reaches_string {body : List Char} (hbody : '"' ∉ body) (after : List Char) :
    Reaches .string (body ++ ['"']).length (read '"' (body ++ ['"'] ++ after)) := by
  have hread : ∀ rest, read '"' rest = string rest := fun _ => rfl
  rw [hread, string, List.append_assoc, List.singleton_append, idxOf?_quote hbody]
  exact ⟨by simp, by simp, fun _ => rfl⟩

theorem reaches_operator (h : isOperator k (c :: tail) = true) (hk : k ≠ .illegal)
    (after : List Char) : Reaches k tail.length (read c (tail ++ after)) := by
  match tail with
  | [] =>
      simp only [isOperator, Bool.and_eq_true, decide_eq_true_eq] at h
      rw [read_of_startsSymbol h.1, symbol]
      split
      · next l hl =>
        obtain ⟨d, -, hd⟩ := Option.bind_eq_some_iff.1 hl
        refine ⟨Nat.zero_le 1, ?_, fun hmore => absurd hmore Nat.one_ne_zero⟩
        exact operators_legal _ (mem_operators_of_pair? hd)
      · rw [h.2]
        exact ⟨Nat.le_refl 0, hk, fun _ => rfl⟩
  | [d] =>
      simp only [isOperator, Bool.and_eq_true, decide_eq_true_eq] at h
      have hpair : ([d] ++ after).head?.bind (pair? c) = some k := h.2
      rw [read_of_startsSymbol h.1, symbol, hpair]
      exact ⟨Nat.le_refl 1, hk, fun _ => rfl⟩
  | _ :: _ :: _ => cases h

end

theorem Rule.exists_reaches {k : Kind} {s : String} (h : Rule k s) :
    ∃ c tail, s.toList = c :: tail ∧ ∀ after, Reaches k tail.length (read c (tail ++ after)) := by
  cases h with
  | name h =>
      obtain ⟨c, tail, hs, hc, htail⟩ := h.shape
      refine ⟨c, tail, hs, reaches_word hc htail ?_⟩
      rw [← hs, String.ofList_toList, Kind.ofWord_of_not_reserved h.not_reserved]
  | keyword h =>
      have hwords : ∀ p ∈ words, Kind.ofWord p.1 = p.2 ∧ isWord p.1.toList = true := by
        decide
      obtain ⟨hk, hword⟩ := hwords _ h
      cases hs : s.toList with
      | nil => simp [hs, isWord] at hword
      | cons c tail =>
          simp only [hs, isWord, Bool.and_eq_true, List.all_eq_true] at hword
          refine ⟨c, tail, rfl, reaches_word hword.1 hword.2 ?_⟩
          rwa [← hs, String.ofList_toList]
  | int h =>
      obtain ⟨c, tail, hs⟩ := List.exists_cons_of_ne_nil h.ne_nil
      have hdigit := h.isDigit
      rw [hs, List.forall_mem_cons] at hdigit
      exact ⟨c, tail, hs, reaches_int hdigit.1 hdigit.2⟩
  | float h =>
      obtain ⟨whole, places, hs, hwhole, hplaces⟩ := h
      obtain ⟨c, tail, rfl⟩ := List.exists_cons_of_ne_nil hwhole.ne_nil
      have hdigit := List.forall_mem_cons.1 hwhole.isDigit
      exact ⟨c, tail ++ '.' :: places, hs, reaches_float hdigit.1 hdigit.2 hplaces⟩
  | string h hbody => exact ⟨_, _, h, reaches_string hbody⟩
  | operator h =>
      have hoperator := isOperator_of_mem_operators _ h
      have hlegal := operators_legal _ h
      cases hs : s.toList with
      | nil => simp [hs, isOperator] at hoperator
      | cons c tail =>
          rw [hs] at hoperator
          exact ⟨c, tail, rfl, reaches_operator hoperator hlegal⟩

/-! ## The lexeme that is read -/

theorem number_kind (rest : List Char) :
    (number rest).kind = .int ∨ (number rest).kind = .float := by
  rw [number]
  split
  · split
    · exact .inl rfl
    · exact .inr rfl
  · exact .inl rfl

theorem number_more_le (rest : List Char) : (number rest).more ≤ rest.length := by
  have hwhole := (List.takeWhile_prefix (p := Char.isDigit) (l := rest)).length_le
  rw [number]
  split
  · next fraction hrest =>
    split
    · exact hwhole
    · next digits hdigits =>
      have hfraction := (List.takeWhile_prefix (p := Char.isDigit) (l := fraction)).length_le
      have hlength := congrArg List.length
        (List.takeWhile_append_dropWhile (p := Char.isDigit) (l := rest))
      rw [hrest, List.length_append, List.length_cons] at hlength
      simp only
      omega
  · exact hwhole

theorem more_le_length (c : Char) (rest : List Char) : (read c rest).more ≤ rest.length := by
  rw [read]
  split
  · exact (List.takeWhile_prefix _).length_le
  · split
    · exact number_more_le rest
    · split
      · rw [string]
        split
        · next i hi => exact (List.idxOf?_eq_some_iff.1 hi).1
        · exact Nat.zero_le _
      · rw [symbol]
        split
        · next k hk =>
          obtain ⟨d, hd, -⟩ := Option.bind_eq_some_iff.1 hk
          exact List.length_pos_iff.2 (by rintro rfl; cases hd)
        · exact Nat.zero_le _

/-- A text is read as a lexeme, or its first character is illegal by itself. -/
theorem rule_or_illegal (c : Char) (rest : List Char) :
    Rule (read c rest).kind (String.ofList (c :: rest.take (read c rest).more)) ∨
      read c rest = ⟨.illegal, 0⟩ := by
  rw [read]
  split
  · next hc =>
    have hspells := word_spells hc rest
    have hkind : (word c rest).kind =
        Kind.ofWord (String.ofList (c :: rest.take (word c rest).more)) := by
      rw [word, take_length_takeWhile]
    refine .inl ?_
    rcases ofWord_eq_ident_or_mem (String.ofList (c :: rest.take (word c rest).more)) with h | h
    · rw [hkind, h] at hspells ⊢
      exact .name hspells
    · rw [hkind]
      exact .keyword h
  · split
    · next hc =>
      have hspells := number_spells hc rest
      rcases number_kind rest with hk | hk <;> rw [hk] at hspells ⊢
      · exact .inl (.int hspells)
      · exact .inl (.float hspells)
    · split
      · next hc =>
        subst hc
        rw [string]
        cases hi : rest.idxOf? '"' with
        | none => exact .inr rfl
        | some i =>
            obtain ⟨htake, hbody⟩ := take_quote hi
            exact .inl (.string (by rw [String.toList_ofList, htake]) hbody)
      · rw [symbol]
        split
        · next k hk =>
          obtain ⟨d, hd, hpair⟩ := Option.bind_eq_some_iff.1 hk
          obtain ⟨after, rfl⟩ := List.head?_eq_some_iff.1 hd
          exact .inl (.operator (mem_operators_of_pair? hpair))
        · cases hk : single? c with
          | none => exact .inr rfl
          | some k => exact .inl (.operator (mem_operators_of_single? hk))

/-- No rule makes a token of layout. -/
theorem isLayout_read (c : Char) (rest : List Char) : (read c rest).kind.isLayout = false := by
  rcases rule_or_illegal c rest with h | h
  · exact h.isLayout
  · rw [h]
    rfl

/-! ## The longest lexeme -/

/-- Some lexeme stands at the front of the text. -/
def StartsLexeme (text : List Char) : Prop :=
  ∃ k s, Rule k s ∧ s.toList <+: text

/-- The lexeme stands at the front of the text, no longer one does, and it is of no other kind. -/
structure Longest (text : List Char) (k : Kind) (s : String) : Prop where
  rule : Rule k s
  front : s.toList <+: text
  longest : ∀ l r, Rule l r → r.toList <+: text → r.length ≤ s.length
  kind_eq : ∀ l, Rule l s → l = k

theorem Rule.reaches {k : Kind} {s : String} {c : Char} {rest : List Char} (h : Rule k s)
    (hs : s.toList <+: c :: rest) : Reaches k (s.length - 1) (read c rest) := by
  obtain ⟨d, tail, htail, hreaches⟩ := h.exists_reaches
  rw [htail] at hs
  obtain ⟨rfl, after, rfl⟩ := List.cons_prefix_cons.1 hs
  rw [← String.length_toList, htail]
  exact hreaches after

theorem longest_read {c : Char} {rest : List Char}
    (h : StartsLexeme (c :: rest)) : Longest (c :: rest) (read c rest).kind
      (String.ofList (c :: rest.take (read c rest).more)) := by
  have hlegal : read c rest ≠ ⟨.illegal, 0⟩ := by
    obtain ⟨k, s, hrule, hs⟩ := h
    intro hread
    exact (hrule.reaches hs).legal (by rw [hread])
  have hfront : c :: rest.take (read c rest).more <+: c :: rest :=
    List.cons_prefix_cons.2 ⟨rfl, List.take_prefix _ rest⟩
  have hlength : (String.ofList (c :: rest.take (read c rest).more)).length =
      (read c rest).more + 1 := by
    rw [← String.length_toList, String.toList_ofList, List.length_cons, List.length_take,
      Nat.min_eq_left (more_le_length c rest)]
  refine ⟨(rule_or_illegal c rest).resolve_right hlegal, by rwa [String.toList_ofList],
    fun l r hr hfirst => ?_, fun l hl => ?_⟩
  · have hle := (hr.reaches hfirst).le_more
    omega
  · have hreaches : Reaches l _ (read c rest) :=
      hl.reaches (by rwa [String.toList_ofList])
    refine (hreaches.kind_eq ?_).symm
    omega

/-- Where no lexeme starts, one character is read as illegal. -/
theorem read_eq_illegal {c : Char} {rest : List Char}
    (h : ¬StartsLexeme (c :: rest)) : read c rest = ⟨.illegal, 0⟩ := by
  refine (rule_or_illegal c rest).resolve_left fun hrule => h ⟨_, _, hrule, ?_⟩
  rw [String.toList_ofList]
  exact List.cons_prefix_cons.2 ⟨rfl, List.take_prefix _ rest⟩

end Lexeme

end IndentScript
