import IndentScript.Proofs.Lines

/-!
# Where tokens stand

A token says where in the source its text stands, tokens stand side by side in their order, and
what no token covers is a blank or lies in a comment. So nothing of a source is lost but blanks,
comments and the kind of its line breaks.
-/

namespace IndentScript

namespace Token

/-- The column after the last character of the token. -/
def stop (t : Token) : Nat :=
  t.location.column + t.text.length

/-- What stands on the line of the token from its column on. -/
def rest (source : String) (t : Token) : List Char :=
  (Text.lineAt source t.location.line).drop (t.location.column - 1)

/-- The token stands before the other, and they share no character. -/
def Before (t u : Token) : Prop :=
  t.location.line < u.location.line ∨ t.location.line = u.location.line ∧
    t.location.column < u.location.column ∧ t.stop ≤ u.location.column

end Token

namespace Lexeme

variable (place : Location) (c : Char) (rest : List Char)

theorem toList_text_token : (token place c rest).text.toList = c :: rest.take (read c rest).more :=
  String.toList_ofList

theorem stop_token :
    (token place c rest).stop = place.column + (min (read c rest).more rest.length + 1) := by
  rw [Token.stop, ← String.length_toList, toList_text_token, List.length_cons, List.length_take]
  rfl

end Lexeme

/-! ## The tokens that a line holds -/

section

variable {line column : Nat} {cs : List Char} {t : Token}

theorem column_le_of_mem_tokensFrom (h : t ∈ tokensFrom line column cs) :
    column ≤ t.location.column := by
  obtain ⟨front, c, rest, -, rfl⟩ := exists_of_mem_tokensFrom h
  exact Nat.le_add_right column front.length

/-- The text of a token is a part of the line, and the part starts at the column of the token. -/
theorem text_prefix_drop (h : t ∈ tokensFrom line 1 cs) :
    t.text ≠ "" ∧ t.text.toList <+: cs.drop (t.location.column - 1) := by
  obtain ⟨c, rest, hdrop, ht⟩ := exists_drop_eq_cons h
  have htext : t.text.toList = c :: rest.take (Lexeme.read c rest).more := by
    rw [ht, Lexeme.toList_text_token]
  constructor
  · rintro hempty
    simp [hempty] at htext
  · rw [htext, hdrop]
    exact List.cons_prefix_cons.2 ⟨rfl, List.take_prefix _ rest⟩

theorem pairwise_before_tokensFrom (line column : Nat) (cs : List Char) :
    (tokensFrom line column cs).Pairwise Token.Before := by
  induction column, cs using tokensFrom.induct with
  | case1 => simp [tokensFrom]
  | case2 column c rest hblank ih => rwa [tokensFrom, if_pos hblank]
  | case3 column rest hblank => simp [tokensFrom, hblank]
  | case4 column c rest hblank hmark lexeme ih =>
      rw [tokensFrom_cons hblank hmark]
      refine List.pairwise_cons.2 ⟨fun u hu => .inr ⟨(line_of_mem_tokensFrom hu).symm, ?_, ?_⟩, ih⟩
      · have hcolumn := column_le_of_mem_tokensFrom hu
        change column < u.location.column
        omega
      · have hcolumn := column_le_of_mem_tokensFrom hu
        rw [Lexeme.stop_token]
        have hlength := Nat.min_le_left (Lexeme.read c rest).more rest.length
        change column + (min (Lexeme.read c rest).more rest.length + 1) ≤ u.location.column
        omega

/-- A character of a line is a blank, or a token covers it, or it lies in a comment. -/
theorem covered_or_skipped (line column : Nat) (cs : List Char) :
    ∀ m d, cs[m]? = some d → Text.isBlank d = true ∨
      (∃ t ∈ tokensFrom line column cs, t.location.column ≤ column + m ∧ column + m < t.stop) ∨
      ∃ k ≤ m, cs[k]? = some '#' ∧ ∀ t ∈ tokensFrom line column cs, t.stop ≤ column + k := by
  induction column, cs using tokensFrom.induct with
  | case1 =>
      intro m d h
      cases h
  | case2 column c rest hblank ih =>
      intro m d h
      rw [tokensFrom, if_pos hblank]
      cases m with
      | zero =>
          cases h
          exact .inl hblank
      | succ m =>
          rcases ih m d h with hd | ⟨t, ht, hstart, hstop⟩ | ⟨k, hk, hmark, hbefore⟩
          · exact .inl hd
          · exact .inr (.inl ⟨t, ht, by omega, by omega⟩)
          · refine .inr (.inr ⟨k + 1, Nat.succ_le_succ hk, hmark, fun t ht => ?_⟩)
            have := hbefore t ht
            omega
  | case3 column rest hblank =>
      intro m d h
      refine .inr (.inr ⟨0, Nat.zero_le m, rfl, fun t ht => ?_⟩)
      simp [tokensFrom, hblank] at ht
  | case4 column c rest hblank hmark lexeme ih =>
      intro m d h
      rw [tokensFrom_cons hblank hmark]
      have hstop : (Lexeme.token ⟨line, column⟩ c rest).stop =
          column + (min lexeme.more rest.length + 1) := Lexeme.stop_token _ _ _
      have hlength := (List.getElem?_eq_some_iff.1 h).1
      rw [List.length_cons] at hlength
      rcases Nat.lt_or_ge lexeme.more m with hm | hm
      · obtain ⟨n, rfl⟩ := Nat.exists_eq_add_of_lt hm
        have hrest : (rest.drop lexeme.more)[n]? = some d := by
          rw [List.getElem?_drop, ← List.getElem?_cons_succ (a := c)]
          exact h
        rcases ih n d hrest with hd | ⟨t, ht, hstart, hend⟩ | ⟨k, hk, hmark', hbefore⟩
        · exact .inl hd
        · exact .inr (.inl ⟨t, List.mem_cons_of_mem _ ht, by omega, by omega⟩)
        · rw [List.getElem?_drop, ← List.getElem?_cons_succ (a := c)] at hmark'
          refine .inr (.inr ⟨lexeme.more + k + 1, by omega, hmark', fun t ht => ?_⟩)
          cases ht with
          | head => omega
          | tail _ ht =>
              have := hbefore t ht
              omega
      · refine .inr (.inl ⟨_, List.mem_cons_self, Nat.le_add_right column m, ?_⟩)
        omega

end

/-- Nothing of a source is lost: the tokens say what stands where, and the rest is blanks and
comments. -/
theorem tokenize_lossless (source : String) :
    (∀ t ∈ tokenize source, t.kind.isLayout = false →
      t.text ≠ "" ∧ 1 ≤ t.location.column ∧ t.text.toList <+: t.rest source) ∧
    ((tokenize source).filter fun t => !t.kind.isLayout).Pairwise Token.Before ∧
    (∀ i m c, (Text.lineAt source i)[m]? = some c → (c = ' ' ∨ c = '\t') ∨
      (∃ t ∈ tokenize source, t.location.line = i ∧
        t.location.column ≤ m + 1 ∧ m + 1 < t.stop) ∨
      ∃ k ≤ m, (Text.lineAt source i)[k]? = some '#' ∧
        ∀ t ∈ tokenize source, t.location.line = i → t.stop ≤ k + 1) ∧
    ∀ t ∈ tokenize source, t.kind.isLayout = true → t.text = "" ∧ t.location.column = 1 := by
  refine ⟨fun t ht hk => ?_, ?_, fun i m c hc => ?_, fun t ht hk => layout_of_mem_tokenize ht hk⟩
  · have hline := (mem_tokenize_iff_of_not_layout hk).1 ht
    obtain ⟨htext, hprefix⟩ := text_prefix_drop hline
    exact ⟨htext, column_le_of_mem_tokensFrom hline, hprefix⟩
  · rw [List.pairwise_filter]
    refine pairwise_tokenize (fun i => ?_) (fun t u hlt _ _ => .inl hlt) fun t _ _ hend => ?_
    · rw [tokensAt, List.pairwise_append]
      refine ⟨List.pairwise_of_forall_mem_list fun t ht u _ hk _ => ?_,
        (pairwise_before_tokensFrom i 1 _).imp fun h _ _ => h, fun t ht u _ hk _ => ?_⟩ <;>
        simp [(Indentation.Change.of_mem_tokens ht).1] at hk
    · cases hend
  · rcases covered_or_skipped i 1 _ m c hc with h | ⟨t, ht, hstart, hend⟩ |
      ⟨k, hk, hmark, hbefore⟩
    · exact .inl (by simpa [Text.isBlank] using h)
    · have hline := line_of_mem_tokensFrom ht
      subst hline
      exact .inr (.inl ⟨t, (mem_tokenize_iff_of_not_layout (isLayout_of_mem_tokensFrom ht)).2 ht,
        rfl, by omega, by omega⟩)
    · refine .inr (.inr ⟨k, hk, hmark, fun t ht hline => ?_⟩)
      subst hline
      cases hk : t.kind.isLayout with
      | true =>
          obtain ⟨htext, hcolumn⟩ := layout_of_mem_tokenize ht hk
          simp [Token.stop, htext, hcolumn]
      | false =>
          have := hbefore t ((mem_tokenize_iff_of_not_layout hk).1 ht)
          omega

/-! ## Which lexeme stands where -/

/-- A token is the longest lexeme that starts at its place, or one illegal character if none does. -/
theorem tokenize_longest_match {source : String} {t : Token} (ht : t ∈ tokenize source)
    (hk : t.kind.isLayout = false) :
    (Lexeme.StartsLexeme (t.rest source) → Lexeme.Longest (t.rest source) t.kind t.text) ∧
      (¬Lexeme.StartsLexeme (t.rest source) →
        t.kind = .illegal ∧ ∃ c, t.text.toList = [c] ∧ [c] <+: t.rest source) := by
  obtain ⟨c, after, hdrop, hplace⟩ :=
    exists_drop_eq_cons ((mem_tokenize_iff_of_not_layout hk).1 ht)
  rw [Token.rest, hdrop]
  constructor
  · intro h
    rw [hplace]
    exact Lexeme.longest_read h
  · intro h
    have hread := Lexeme.read_eq_illegal h
    rw [hplace, Lexeme.token, hread]
    exact ⟨rfl, c, String.toList_ofList, List.cons_prefix_cons.2 ⟨rfl, List.nil_prefix⟩⟩

/-- The number takes the point and one digit, and leaves the second point. -/
theorem longest_match_number :
    (⟨.float, "1.5", ⟨1, 2⟩⟩ : Token) ∈ tokenize "(1.5.2" ∧
      Lexeme.Longest "1.5.2".toList .float "1.5" := by
  have hmem : (⟨.float, "1.5", ⟨1, 2⟩⟩ : Token) ∈ tokenize "(1.5.2" := by
    have hline : Text.lineAt "(1.5.2" 1 = ['(', '1', '.', '5', '.', '2'] := by decide
    have htoken : Lexeme.token ⟨1, 2⟩ '1' ['.', '5', '.', '2'] = ⟨.float, "1.5", ⟨1, 2⟩⟩ := by
      decide
    rw [mem_tokenize_iff_of_not_layout rfl, hline, tokensFrom_cons (by decide) (by decide),
      ← htoken]
    refine List.mem_cons_of_mem _ ?_
    have hopen : Lexeme.read '(' ['1', '.', '5', '.', '2'] = ⟨.leftParen, 0⟩ := by decide
    rw [hopen, List.drop_zero, tokensFrom_cons (by decide) (by decide)]
    exact List.mem_cons_self
  have hdigits : AreDigits "1".toList := ⟨by simp, by simp⟩
  have hstarts : Lexeme.StartsLexeme "1.5.2".toList := ⟨.int, "1", .int hdigits, by decide⟩
  exact ⟨hmem, (tokenize_longest_match hmem rfl).1 hstarts⟩

end IndentScript
