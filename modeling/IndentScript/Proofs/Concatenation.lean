import IndentScript.Proofs.Acceptance
import IndentScript.Proofs.Lines

/-!
# Programs and sources one after the other

The end of a statement is not marked, but no token that can start a statement goes on with the one
before it. So programs that stand one after the other are read one after the other, and the second
is read as if it stood alone. Sources are read by lines, and a line without blanks closes every
block: what follows it does not depend on the lines before.
-/

namespace IndentScript

open Grammar IndentScript.Parser

/-! ## Tokens behind a program -/

namespace Stream

theorem ofTokens_prepend (front : List Token) {back : List Token} (h : back ≠ []) :
    ofTokens (front ++ back) = (ofTokens back).prepend front := by
  obtain ⟨init, t, rfl⟩ := (List.eq_nil_or_concat' back).resolve_left h
  rw [ofTokens, ofTokens, ← List.append_assoc]
  simp only [List.getLast?_concat]
  split
  · simp [prepend]
  · simp [prepend, missingEnd, ← List.append_assoc]

/-- The first token of a list is the current one, unless it is an end token that the list lacks. -/
theorem current_ofTokens (tokens : List Token) :
    tokens.head? = some (ofTokens tokens).current ∨ (ofTokens tokens).current.kind = .eof := by
  obtain ⟨v, hv, heof⟩ := toList_ofTokens tokens
  obtain ⟨rest, hrest⟩ := (ofTokens tokens).toList_eq_current_cons
  rw [hrest] at hv
  cases tokens with
  | nil =>
      rw [List.nil_append] at hv
      exact .inr (heof _ (hv ▸ List.mem_cons_self))
  | cons t tokens => exact .inl (by rw [(List.cons.inj hv).1]; rfl)

end Stream

namespace Program

/-- A program in front of tokens that cannot go on with it is read first, and the others are read as
if they stood alone, to a program or to an error. -/
theorem ofTokens_append {front back : List Token} {p : Program}
    (hend : ∀ t ∈ front, t.kind ≠ .eof) (hp : ofTokens front = .ok p)
    (hback : ∀ t ∈ back.head?, t.kind.continuesSentence = false) :
    ofTokens (front ++ back) =
      match ofTokens back with
      | .ok q => .ok ⟨p.statements ++ q.statements⟩
      | .error e => .error e := by
  have hfront : Sentences front p.statements := by
    rw [← List.append_nil front] at hp
    exact (ofTokens_append_eq_ok_iff hend (by simp) p).1 hp
  by_cases hnil : back = []
  · subst hnil
    have hempty : ofTokens [] = .ok ⟨[]⟩ := rfl
    simp [hempty, hp]
  · have hcurrent : (Stream.ofTokens back).current.kind.continuesSentence = false := by
      rcases Stream.current_ofTokens back with hhead | heof
      · exact hback _ hhead
      · rw [heof]
        rfl
    obtain ⟨w, v, u, hw, hstop, -⟩ :=
      Reads.statementsUntil .eof Reads.statement (Stream.ofTokens back)
    have hwhole : Stream.ofTokens (front ++ back) = u.prepend (front ++ w) := by
      rw [Stream.ofTokens_prepend front hnil, hw, Stream.prepend_prepend]
    have hstops := stops_statementsUntil rfl hfront hcurrent hstop
    rw [← Stream.ofTokens_prepend front hnil] at hstops
    rw [ofTokens_of_stops hw (hw ▸ hstop.map), ofTokens_of_stops hwhole (hwhole ▸ hstops.map)]
    cases v <;> rfl

/-- Behind a conditional that could have an `else`, a group that is left open is blamed for just
what it is blamed for alone. -/
theorem ofTokens_append_openGroup :
    let front : List Token := [⟨.ifWord, "if", ⟨1, 1⟩⟩, ⟨.ident, "a", ⟨1, 4⟩⟩,
      ⟨.thenWord, "then", ⟨1, 6⟩⟩, ⟨.ident, "b", ⟨1, 11⟩⟩]
    let back : List Token := [⟨.leftParen, "(", ⟨2, 1⟩⟩, ⟨.ident, "c", ⟨2, 2⟩⟩]
    (∀ t ∈ front, t.kind ≠ .eof) ∧
      ofTokens front = .ok ⟨[.conditional (.ident "a") (.expression (.ident "b")) none]⟩ ∧
      (∀ t ∈ back.head?, t.kind.continuesSentence = false) ∧
      ofTokens (front ++ back) = .error (.expectedToken .rightParen .eof ⟨2, 2⟩) := by
  intro front back
  have hend : ∀ t ∈ front, t.kind ≠ .eof := by decide
  have hfront : ofTokens front =
      .ok ⟨[.conditional (.ident "a") (.expression (.ident "b")) none]⟩ := rfl
  have hback : ∀ t ∈ back.head?, t.kind.continuesSentence = false := by decide
  exact ⟨hend, hfront, hback, ofTokens_append hend hfront hback⟩

end Program

/-! ## Tokens further on -/

/-- The token as it is that many lines and columns further on. -/
def Token.moved (lines columns : Nat) (t : Token) : Token :=
  ⟨t.kind, t.text, ⟨t.location.line + lines, t.location.column + columns⟩⟩

theorem tokensFrom_add (line column lines columns : Nat) (cs : List Char) :
    tokensFrom (line + lines) (column + columns) cs =
      (tokensFrom line column cs).map (Token.moved lines columns) := by
  induction column, cs using tokensFrom.induct with
  | case1 => simp [tokensFrom]
  | case2 column c rest hblank ih =>
      rw [tokensFrom, if_pos hblank, tokensFrom, if_pos hblank, ← ih, Nat.add_right_comm]
  | case3 column rest hblank =>
      rw [tokensFrom, if_neg hblank, if_pos rfl, tokensFrom, if_neg hblank, if_pos rfl]
      rfl
  | case4 column c rest hblank hmark lexeme ih =>
      have hcolumn : column + columns + 1 + lexeme.more = column + 1 + lexeme.more + columns := by
        omega
      rw [tokensFrom_cons hblank hmark, tokensFrom_cons hblank hmark, List.map_cons, ← ih, hcolumn]
      rfl

theorem Indentation.Change.tokens_add (change : Change) (line lines : Nat) :
    change.tokens (line + lines) = (change.tokens line).map (Token.moved lines 0) := by
  cases change with
  | opened => rfl
  | closed count => simp [tokens, closings, Token.moved]

theorem tokensOfLines_add (line lines : Nat) (blocks : Indentation) (ls : List (List Char)) :
    tokensOfLines (line + lines) blocks ls =
      (tokensOfLines line blocks ls).map (Token.moved lines 0) := by
  induction ls generalizing line blocks with
  | nil => simp [tokensOfLines, closings, Token.moved]
  | cons cs ls ih =>
      have hheld := tokensFrom_add line 1 lines 0 cs
      simp only [tokensOfLines, List.map_append, Indentation.Change.tokens_add, hheld, ← ih,
        Nat.add_right_comm line lines 1]

/-! ## Lines behind a source -/

theorem Text.lines_append (s₁ s₂ : String) :
    lines (s₁ ++ "\n" ++ s₂) = lines s₁ ++ lines s₂ := by
  have hchars : (s₁ ++ "\n" ++ s₂).toList = s₁.toList ++ '\n' :: s₂.toList := by simp
  rw [lines, hchars, List.splitOn_append_cons_self, List.map_append]
  rfl

theorem Text.exists_lines_eq_cons (s : String) : ∃ ls, lines s = lineAt s 1 :: ls := by
  cases hlines : lines s with
  | nil => exact absurd (List.map_eq_nil_iff.1 hlines) (List.splitOn_ne_nil _ _)
  | cons cs ls => exact ⟨ls, by rw [lineAt, hlines]; rfl⟩

/-- What lines leave to the lines behind them is the blocks that are open. -/
theorem exists_tokensOfLines_append {blocks : Indentation} (h : blocks.Deepening) (line : Nat)
    (ls : List (List Char)) :
    ∃ w, ∃ blocks' : Indentation, blocks'.Deepening ∧ ∀ rest,
      tokensOfLines line blocks (ls ++ rest) =
        w ++ tokensOfLines (line + ls.length) blocks' rest := by
  induction ls generalizing line blocks with
  | nil => exact ⟨[], blocks, h, fun _ => rfl⟩
  | cons cs ls ih =>
      obtain ⟨w, blocks', hdeep, hrest⟩ := ih (h.afterLine (Text.indentWidth cs)) (line + 1)
      refine ⟨(blocks.change (Text.indentWidth cs)).tokens line ++ tokensFrom line 1 cs ++ w,
        blocks', hdeep, fun rest => ?_⟩
      rw [List.cons_append, tokensOfLines, hrest, ← List.append_assoc, List.length_cons,
        Nat.add_comm ls.length 1, Nat.add_assoc]

/-- A line without blanks closes the open blocks, and then it is as if none had been open. -/
theorem tokensOfLines_of_indentWidth {blocks : Indentation} (h : blocks.Deepening)
    {cs : List Char} (hcs : Text.indentWidth cs = 0) (line : Nat) (ls : List (List Char)) :
    tokensOfLines line blocks (cs :: ls) =
      closings line blocks.length ++ tokensOfLines line [] (cs :: ls) := by
  simp only [tokensOfLines, hcs, Indentation.change_zero h, Indentation.afterLine_zero h,
    Indentation.change_zero .nil, Indentation.afterLine_zero .nil, Indentation.Change.tokens,
    List.append_assoc]
  rfl

/-- The tokens of a source whose first line has no blanks are the same behind any other source, but
for their lines; only the end token of the source before them is gone. -/
theorem tokenize_append {s₁ s₂ : String} (h : Text.widthAt s₂ 1 = 0) :
    ∃ w, tokenize s₁ = w ++ [⟨.eof, "", ⟨(Text.lines s₁).length + 1, 1⟩⟩] ∧
      tokenize (s₁ ++ "\n" ++ s₂) =
        w ++ (tokenize s₂).map (Token.moved (Text.lines s₁).length 0) := by
  obtain ⟨w, blocks, hdeep, hrest⟩ := exists_tokensOfLines_append .nil 1 (Text.lines s₁)
  rw [Nat.add_comm] at hrest
  refine ⟨w ++ closings ((Text.lines s₁).length + 1) blocks.length, ?_, ?_⟩
  · rw [tokenize, ← List.append_nil (Text.lines s₁), hrest, List.append_nil, tokensOfLines,
      List.append_assoc]
  · obtain ⟨ls, hlines⟩ := Text.exists_lines_eq_cons s₂
    rw [← Text.indentWidth_lineAt] at h
    rw [tokenize, Text.lines_append, hrest, hlines, tokensOfLines_of_indentWidth hdeep h,
      List.append_assoc, Nat.add_comm _ 1, tokensOfLines_add, ← hlines]
    rfl

/-- The block that the first source leaves open is closed where the second one starts. -/
theorem tokenize_append_openBlock :
    Text.widthAt "c" 1 = 0 ∧
      ∃ w, tokenize "a\n  b" = w ++ [⟨.eof, "", ⟨(Text.lines "a\n  b").length + 1, 1⟩⟩] ∧
        tokenize ("a\n  b" ++ "\n" ++ "c") =
          w ++ (tokenize "c").map (Token.moved (Text.lines "a\n  b").length 0) := by
  have h : Text.widthAt "c" 1 = 0 := by decide
  exact ⟨h, tokenize_append h⟩

end IndentScript
