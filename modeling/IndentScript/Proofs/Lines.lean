import IndentScript.Proofs.LexicalRules

/-!
# Tokens by lines

The lines of a source are numbered from one, and a number without a line stands for an empty line.
Then the end of a source is read as one more line, which closes what is open like any line without
blanks: the tokens of a source are those of its lines and of that one, and the end token.
-/

namespace IndentScript

/-! ## Numbered lines -/

namespace Text

/-- The characters of a line of a text, without the carriage return at its end. -/
def lineAt (s : String) (i : Nat) : List Char :=
  ([] :: lines s).getD i []

/-- The number of blanks at the start of a line of a text. -/
def widthAt (s : String) (i : Nat) : Nat :=
  (0 :: (s.toList.splitOn '\n').map indentWidth).getD i 0

theorem dropReturn_concat (cs : List Char) : dropReturn (cs ++ ['\r']) = cs := by
  rw [dropReturn, List.getLast?_concat, if_pos rfl, List.dropLast_concat]

/-- Behind characters that do not end in a carriage return, it is the rest that can. -/
theorem dropReturn_append_of_getLast? {cs : List Char} (h : cs.getLast? ≠ some '\r')
    (rest : List Char) : dropReturn (cs ++ rest) = cs ++ dropReturn rest := by
  cases rest with
  | nil => rw [List.append_nil, dropReturn, if_neg h, dropReturn, if_neg (by simp), List.append_nil]
  | cons c rest =>
      have hne : c :: rest ≠ [] := List.cons_ne_nil c rest
      rw [dropReturn, dropReturn, List.getLast?_append_of_ne_nil _ hne,
        List.dropLast_append_of_ne_nil hne]
      split <;> rfl

theorem lines_of_not_mem {s : String} (h : '\n' ∉ s.toList) : lines s = [dropReturn s.toList] := by
  have hsplit : (['\n'].intercalate [s.toList]).splitOn '\n' = [s.toList] :=
    List.splitOn_intercalate '\n' (by simpa using h) (by simp)
  rw [List.intercalate_singleton] at hsplit
  rw [lines, hsplit, List.map_singleton]

theorem indentWidth_dropReturn (line : List Char) :
    indentWidth (dropReturn line) = indentWidth line := by
  rw [dropReturn]
  split
  · next h =>
    obtain ⟨front, rfl⟩ := List.getLast?_eq_some_iff.1 h
    have hreturn : isBlank '\r' = false := rfl
    rw [List.dropLast_concat, indentWidth, indentWidth, List.takeWhile_append]
    split
    · next hall => simp [hall, hreturn]
    · rfl
  · rfl

theorem indentWidth_lineAt (s : String) (i : Nat) : indentWidth (lineAt s i) = widthAt s i := by
  cases i with
  | zero => rfl
  | succ i =>
      rw [lineAt, widthAt, List.getD_cons_succ, List.getD_cons_succ, lines]
      simp only [List.getD_eq_getElem?_getD, List.getElem?_map]
      cases (s.toList.splitOn '\n')[i]? with
      | none => rfl
      | some line => exact indentWidth_dropReturn line

theorem lineAt_zero (s : String) : lineAt s 0 = [] := rfl

theorem lineAt_of_length_lt {s : String} {i : Nat} (h : (lines s).length < i) :
    lineAt s i = [] := by
  rw [lineAt, List.getD_eq_getElem?_getD, List.getElem?_eq_none (Nat.succ_le_of_lt h)]
  rfl

theorem widthAt_of_length_lt {s : String} {i : Nat} (h : (lines s).length < i) :
    widthAt s i = 0 := by
  rw [← indentWidth_lineAt, lineAt_of_length_lt h]
  rfl

theorem le_length_of_lineAt {s : String} {i : Nat} (h : lineAt s i ≠ []) :
    1 ≤ i ∧ i ≤ (lines s).length := by
  constructor
  · rcases Nat.eq_zero_or_pos i with rfl | hi
    · exact absurd (lineAt_zero s) h
    · exact hi
  · by_contra hi
    exact h (lineAt_of_length_lt (by omega))

theorem le_length_of_widthAt {s : String} {i : Nat} (h : 0 < widthAt s i) :
    1 ≤ i ∧ i ≤ (lines s).length := by
  refine le_length_of_lineAt fun hnil => ?_
  rw [← indentWidth_lineAt, hnil] at h
  exact absurd h (Nat.lt_irrefl 0)

theorem lines_eq_map_lineAt (s : String) :
    lines s = (List.range' 1 (lines s).length).map (lineAt s) := by
  refine List.ext_getElem (by simp) fun i h _ => ?_
  simp [lineAt, Nat.add_comm 1 i, List.getD_eq_getElem?_getD, h]

end Text

/-! ## Open blocks -/

namespace Indentation

/-- The blocks that are open before a line, by the widths of the lines. -/
def before (width : Nat → Nat) : Nat → Indentation
  | 0 => []
  | i + 1 => (before width i).afterLine (width i)

/-- Each block is deeper than the block around it, and the outermost one has blanks. -/
def Deepening (blocks : Indentation) : Prop :=
  (blocks ++ [0]).Pairwise (· > ·)

namespace Deepening

theorem nil : Deepening [] :=
  List.pairwise_singleton _ 0

theorem pos {blocks : Indentation} (h : blocks.Deepening) {b : Nat} (hb : b ∈ blocks) : 0 < b :=
  (List.pairwise_append.1 h).2.2 b hb 0 (List.mem_singleton_self 0)

theorem tail {b : Nat} {blocks : Indentation} (h : Deepening (b :: blocks)) : blocks.Deepening :=
  (List.pairwise_cons.1 h).2

theorem lt_of_mem {b c : Nat} {blocks : Indentation} (h : Deepening (b :: blocks))
    (hc : c ∈ blocks) : c < b :=
  (List.pairwise_cons.1 h).1 c (List.mem_append_left [0] hc)

/-- A line is deeper than the innermost open block just if it is deeper than all of them. -/
theorem headD_lt_iff {blocks : Indentation} (h : blocks.Deepening) {width : Nat} :
    blocks.headD 0 < width ↔ 0 < width ∧ ∀ b ∈ blocks, b < width := by
  cases blocks with
  | nil => simp
  | cons b blocks =>
      constructor
      · intro hb
        refine ⟨Nat.zero_lt_of_lt hb, fun c hc => ?_⟩
        cases hc with
        | head => exact hb
        | tail _ hc => exact Nat.lt_trans (h.lt_of_mem hc) hb
      · exact fun hall => hall.2 b List.mem_cons_self

theorem mem_takeWhile_iff {blocks : Indentation} (h : blocks.Deepening) {width b : Nat} :
    b ∈ blocks.takeWhile (fun w => width < w) ↔ b ∈ blocks ∧ width < b := by
  induction blocks with
  | nil => simp
  | cons c blocks ih =>
      rw [List.takeWhile_cons, List.mem_cons]
      split
      · next hc =>
        rw [List.mem_cons, ih h.tail]
        constructor
        · rintro (rfl | hb)
          · exact ⟨.inl rfl, of_decide_eq_true hc⟩
          · exact ⟨.inr hb.1, hb.2⟩
        · rintro ⟨rfl | hb, hlt⟩
          · exact .inl rfl
          · exact .inr ⟨hb, hlt⟩
      · next hc =>
        have hle : c ≤ width := by simpa using hc
        constructor
        · exact fun hb => absurd hb List.not_mem_nil
        · rintro ⟨rfl | hb, hlt⟩
          · omega
          · have := h.lt_of_mem hb
            omega

theorem mem_dropWhile_iff {blocks : Indentation} (h : blocks.Deepening) {width b : Nat} :
    b ∈ blocks.dropWhile (fun w => width < w) ↔ b ∈ blocks ∧ b ≤ width := by
  induction blocks with
  | nil => simp
  | cons c blocks ih =>
      rw [List.dropWhile_cons]
      split
      · next hc =>
        have hlt : width < c := of_decide_eq_true hc
        rw [ih h.tail, List.mem_cons]
        constructor
        · exact fun hb => ⟨.inr hb.1, hb.2⟩
        · rintro ⟨rfl | hb, hle⟩
          · omega
          · exact ⟨hb, hle⟩
      · next hc =>
        have hle : c ≤ width := by simpa using hc
        refine ⟨fun hb => ⟨hb, ?_⟩, fun hb => hb.1⟩
        cases hb with
        | head => exact hle
        | tail _ hb => exact Nat.le_trans (Nat.le_of_lt (h.lt_of_mem hb)) hle

theorem afterLine {blocks : Indentation} (h : blocks.Deepening) (width : Nat) :
    (blocks.afterLine width).Deepening := by
  rw [Indentation.afterLine]
  split
  · next hlt =>
    obtain ⟨hpos, hall⟩ := h.headD_lt_iff.1 hlt
    refine List.pairwise_cons.2 ⟨fun b hb => ?_, h⟩
    rcases List.mem_append.1 hb with hb | hb
    · exact hall b hb
    · rwa [List.mem_singleton.1 hb]
  · exact h.sublist ((blocks.dropWhile_sublist _).append_right [0])

end Deepening

theorem deepening_before (width : Nat → Nat) (i : Nat) : (before width i).Deepening := by
  induction i with
  | zero => exact .nil
  | succ i ih => exact ih.afterLine (width i)

/-- A line without blanks closes every block. -/
theorem change_zero {blocks : Indentation} (h : blocks.Deepening) :
    blocks.change 0 = .closed blocks.length := by
  have hall : blocks.takeWhile (fun w => 0 < w) = blocks :=
    List.takeWhile_eq_self_iff.2 fun b hb => decide_eq_true (h.pos hb)
  rw [change, if_neg (Nat.not_lt_zero _), hall]

theorem afterLine_zero {blocks : Indentation} (h : blocks.Deepening) : blocks.afterLine 0 = [] := by
  rw [afterLine, if_neg (Nat.not_lt_zero _), List.dropWhile_eq_nil_iff]
  exact fun b hb => decide_eq_true (h.pos hb)

end Indentation

/-- The tokens of a change are one INDENT or only DEDENTs, at the start of the line. -/
theorem Indentation.Change.mem_tokens_iff {change : Change} {i : Nat} {t : Token} :
    t ∈ change.tokens i ↔ (change = .opened ∧ t = ⟨.indent, "", ⟨i, 1⟩⟩) ∨
      ∃ count, change = .closed count ∧ count ≠ 0 ∧ t = ⟨.dedent, "", ⟨i, 1⟩⟩ := by
  cases change with
  | opened => simp [tokens]
  | closed count => simp [tokens, closings, List.mem_replicate]

theorem Indentation.Change.of_mem_tokens {change : Change} {i : Nat} {t : Token}
    (h : t ∈ change.tokens i) :
    t.kind.isLayout = true ∧ t.kind ≠ .eof ∧ t.text = "" ∧ t.location = ⟨i, 1⟩ := by
  rcases mem_tokens_iff.1 h with ⟨-, rfl⟩ | ⟨count, -, -, rfl⟩
  · exact ⟨rfl, nofun, rfl, rfl⟩
  · exact ⟨rfl, nofun, rfl, rfl⟩

/-! ## Lexemes in place -/

namespace Lexeme

/-- The token of the lexeme that starts with `c` at the place, where `rest` follows `c`. -/
def token (place : Location) (c : Char) (rest : List Char) : Token :=
  ⟨(read c rest).kind, String.ofList (c :: rest.take (read c rest).more), place⟩

end Lexeme

theorem tokensFrom_cons {line column : Nat} {c : Char} {rest : List Char}
    (hblank : ¬Text.isBlank c = true) (hmark : ¬c = '#') :
    tokensFrom line column (c :: rest) = Lexeme.token ⟨line, column⟩ c rest ::
      tokensFrom line (column + 1 + (Lexeme.read c rest).more)
        (rest.drop (Lexeme.read c rest).more) := by
  rw [tokensFrom, if_neg hblank, if_neg hmark]
  rfl

/-- Blanks are skipped, and count for the columns after them. -/
theorem tokensFrom_blank_append {bs : List Char} (h : ∀ c ∈ bs, Text.isBlank c = true)
    (line column : Nat) (cs : List Char) :
    tokensFrom line column (bs ++ cs) = tokensFrom line (column + bs.length) cs := by
  induction bs generalizing column with
  | nil => rfl
  | cons b bs ih =>
      rw [List.forall_mem_cons] at h
      rw [List.cons_append, tokensFrom, if_pos h.1, ih h.2, List.length_cons]
      congr 1
      omega

/-- Each token that a line holds is the lexeme that starts at some character of it. -/
theorem exists_of_mem_tokensFrom {line column : Nat} {cs : List Char} {t : Token}
    (h : t ∈ tokensFrom line column cs) :
    ∃ front c rest, cs = front ++ c :: rest ∧
      t = Lexeme.token ⟨line, column + front.length⟩ c rest := by
  induction column, cs using tokensFrom.induct with
  | case1 => simp [tokensFrom] at h
  | case2 column c rest hblank ih =>
      rw [tokensFrom, if_pos hblank] at h
      obtain ⟨front, d, rest', rfl, rfl⟩ := ih h
      exact ⟨c :: front, d, rest', rfl, by simp [Nat.add_assoc, Nat.add_comm 1]⟩
  | case3 column rest hblank =>
      rw [tokensFrom, if_neg hblank, if_pos rfl] at h
      cases h
  | case4 column c rest hblank hmark lexeme ih =>
      rw [tokensFrom_cons hblank hmark] at h
      cases h with
      | head => exact ⟨[], c, rest, rfl, rfl⟩
      | tail _ h =>
          obtain ⟨front, d, rest', hrest, rfl⟩ := ih h
          have hmore : lexeme.more < rest.length := by
            have hlength := congrArg List.length hrest
            rw [List.length_drop, List.length_append, List.length_cons] at hlength
            omega
          refine ⟨c :: (rest.take lexeme.more ++ front), d, rest', ?_, ?_⟩
          · rw [List.cons_append, List.append_assoc, ← hrest, List.take_append_drop]
          · have hlength : (c :: (rest.take lexeme.more ++ front)).length =
                1 + lexeme.more + front.length := by
              rw [List.length_cons, List.length_append, List.length_take]
              omega
            rw [hlength, ← Nat.add_assoc, ← Nat.add_assoc]

/-! ## The tokens of a line -/

/-- What a line does to the blocks that are open before it. -/
def changeAt (source : String) (i : Nat) : Indentation.Change :=
  (Indentation.before (Text.widthAt source) i).change (Text.widthAt source i)

/-- The tokens of a line: those of its indentation and those that it holds. -/
def tokensAt (source : String) (i : Nat) : List Token :=
  (changeAt source i).tokens i ++ tokensFrom i 1 (Text.lineAt source i)

/-- The token at the end of a source, on the line after the last one. -/
def endToken (source : String) : Token :=
  ⟨.eof, "", ⟨(Text.lines source).length + 1, 1⟩⟩

theorem tokensOfLines_range' (source : String) (first count : Nat) :
    tokensOfLines first (.before (Text.widthAt source) first)
        ((List.range' first count).map (Text.lineAt source)) =
      (List.range' first count).flatMap (tokensAt source) ++
        (closings (first + count)
            (Indentation.before (Text.widthAt source) (first + count)).length ++
          [⟨.eof, "", ⟨first + count, 1⟩⟩]) := by
  induction count generalizing first with
  | zero => rfl
  | succ count ih =>
      have hrest := ih (first + 1)
      rw [Indentation.before, Nat.add_right_comm] at hrest
      rw [List.range'_succ, List.map_cons, tokensOfLines, Text.indentWidth_lineAt, hrest,
        List.flatMap_cons]
      simp only [tokensAt, changeAt, List.append_assoc, Nat.add_assoc]

theorem tokensAt_end (source : String) :
    tokensAt source ((Text.lines source).length + 1) =
      closings ((Text.lines source).length + 1)
        (Indentation.before (Text.widthAt source) ((Text.lines source).length + 1)).length := by
  have hend : (Text.lines source).length < (Text.lines source).length + 1 := Nat.lt_add_one _
  rw [tokensAt, changeAt, Text.widthAt_of_length_lt hend, Text.lineAt_of_length_lt hend,
    Indentation.change_zero (Indentation.deepening_before _ _), tokensFrom, List.append_nil]
  rfl

/-- The tokens of a source are those of its lines, those of the line after them, and the end. -/
theorem tokenize_eq (source : String) :
    tokenize source =
      (List.range' 1 ((Text.lines source).length + 1)).flatMap (tokensAt source) ++
        [endToken source] := by
  have hlines := tokensOfLines_range' source 1 (Text.lines source).length
  rw [← Text.lines_eq_map_lineAt, Nat.add_comm 1] at hlines
  rw [List.range'_concat, List.flatMap_append, List.flatMap_singleton, Nat.one_mul, Nat.add_comm 1,
    tokensAt_end, List.append_assoc]
  exact hlines

/-- A token is the lexeme that starts at its column. -/
theorem exists_drop_eq_cons {line : Nat} {cs : List Char} {t : Token}
    (h : t ∈ tokensFrom line 1 cs) :
    ∃ c rest, cs.drop (t.location.column - 1) = c :: rest ∧ t = Lexeme.token t.location c rest := by
  obtain ⟨front, c, rest, rfl, rfl⟩ := exists_of_mem_tokensFrom h
  refine ⟨c, rest, ?_, rfl⟩
  have hcolumn : 1 + front.length - 1 = front.length := Nat.add_sub_cancel_left 1 _
  rw [Lexeme.token, hcolumn, List.drop_left]

theorem isLayout_of_mem_tokensFrom {line column : Nat} {cs : List Char} {t : Token}
    (h : t ∈ tokensFrom line column cs) : t.kind.isLayout = false := by
  obtain ⟨front, c, rest, -, rfl⟩ := exists_of_mem_tokensFrom h
  exact Lexeme.isLayout_read c rest

theorem line_of_mem_tokensFrom {line column : Nat} {cs : List Char} {t : Token}
    (h : t ∈ tokensFrom line column cs) : t.location.line = line := by
  obtain ⟨front, c, rest, -, rfl⟩ := exists_of_mem_tokensFrom h
  rfl

theorem line_of_mem_tokensAt {source : String} {i : Nat} {t : Token} (h : t ∈ tokensAt source i) :
    t.location.line = i := by
  rcases List.mem_append.1 h with h | h
  · rw [(Indentation.Change.of_mem_tokens h).2.2.2]
  · exact line_of_mem_tokensFrom h

theorem kind_ne_eof_of_mem_tokensAt {source : String} {i : Nat} {t : Token}
    (h : t ∈ tokensAt source i) : t.kind ≠ .eof := by
  rcases List.mem_append.1 h with h | h
  · exact (Indentation.Change.of_mem_tokens h).2.1
  · intro heof
    have hlayout := isLayout_of_mem_tokensFrom h
    rw [heof] at hlayout
    cases hlayout

theorem mem_tokenize_iff {source : String} {t : Token} :
    t ∈ tokenize source ↔ (∃ i, 1 ≤ i ∧ i ≤ (Text.lines source).length + 1 ∧
      t ∈ tokensAt source i) ∨ t = endToken source := by
  rw [tokenize_eq, List.mem_append, List.mem_singleton, List.mem_flatMap]
  simp only [List.mem_range'_1, and_assoc]
  have hbound : ∀ i, i < 1 + ((Text.lines source).length + 1) ↔
      i ≤ (Text.lines source).length + 1 := fun i => by omega
  simp only [hbound]

theorem mem_tokensAt_of_mem_tokenize {source : String} {t : Token} (h : t ∈ tokenize source)
    (hk : t.kind ≠ .eof) : t ∈ tokensAt source t.location.line := by
  rcases mem_tokenize_iff.1 h with ⟨i, -, -, ht⟩ | rfl
  · rwa [line_of_mem_tokensAt ht]
  · exact absurd rfl hk

/-- The tokens that the lines hold are those that are not of layout. -/
theorem mem_tokenize_iff_of_not_layout {source : String} {t : Token}
    (hk : t.kind.isLayout = false) :
    t ∈ tokenize source ↔
      t ∈ tokensFrom t.location.line 1 (Text.lineAt source t.location.line) := by
  constructor
  · intro h
    have heof : t.kind ≠ .eof := by
      rintro heof
      simp [heof, Kind.isLayout] at hk
    have hline := mem_tokensAt_of_mem_tokenize h heof
    rcases List.mem_append.1 hline with h | h
    · rw [(Indentation.Change.of_mem_tokens h).1] at hk
      cases hk
    · exact h
  · intro h
    obtain ⟨front, c, rest, hline, -⟩ := exists_of_mem_tokensFrom h
    have hchars : Text.lineAt source t.location.line ≠ [] := by simp [hline]
    obtain ⟨hfirst, hlast⟩ := Text.le_length_of_lineAt hchars
    exact mem_tokenize_iff.2 (.inl ⟨_, hfirst, Nat.le_succ_of_le hlast, List.mem_append_right _ h⟩)

theorem layout_of_mem_tokenize {source : String} {t : Token} (h : t ∈ tokenize source)
    (hk : t.kind.isLayout = true) : t.text = "" ∧ t.location.column = 1 := by
  rcases mem_tokenize_iff.1 h with ⟨i, -, -, ht⟩ | rfl
  · rcases List.mem_append.1 ht with ht | ht
    · obtain ⟨-, -, htext, hplace⟩ := Indentation.Change.of_mem_tokens ht
      exact ⟨htext, by rw [hplace]⟩
    · rw [isLayout_of_mem_tokensFrom ht] at hk
      cases hk
  · exact ⟨rfl, rfl⟩

theorem mem_tokensAt_iff_of_indent {source : String} {i : Nat} {t : Token} (hk : t.kind = .indent) :
    t ∈ tokensAt source i ↔ changeAt source i = .opened ∧ t = ⟨.indent, "", ⟨i, 1⟩⟩ := by
  rw [tokensAt, List.mem_append, Indentation.Change.mem_tokens_iff]
  constructor
  · rintro ((h | ⟨count, -, -, rfl⟩) | h)
    · exact h
    · cases hk
    · have hlayout := isLayout_of_mem_tokensFrom h
      simp [hk, Kind.isLayout] at hlayout
  · exact fun h => .inl (.inl h)

theorem mem_tokensAt_iff_of_dedent {source : String} {i : Nat} {t : Token} (hk : t.kind = .dedent) :
    t ∈ tokensAt source i ↔
      ∃ count, changeAt source i = .closed count ∧ count ≠ 0 ∧ t = ⟨.dedent, "", ⟨i, 1⟩⟩ := by
  rw [tokensAt, List.mem_append, Indentation.Change.mem_tokens_iff]
  constructor
  · rintro ((⟨-, rfl⟩ | h) | h)
    · cases hk
    · exact h
    · have hlayout := isLayout_of_mem_tokensFrom h
      simp [hk, Kind.isLayout] at hlayout
  · exact fun h => .inl (.inr h)

/-- What holds of two tokens of a line in order, and of tokens of lines in order, holds of the
tokens of the source in order. -/
theorem pairwise_tokenize {source : String} {R : Token → Token → Prop}
    (hline : ∀ i, (tokensAt source i).Pairwise R)
    (hlater : ∀ t u : Token, t.location.line < u.location.line → R t u)
    (hend : ∀ t, t ∈ tokensAt source ((Text.lines source).length + 1) → R t (endToken source)) :
    (tokenize source).Pairwise R := by
  rw [tokenize_eq, List.pairwise_append]
  refine ⟨List.pairwise_flatMap.2 ⟨fun i _ => hline i, ?_⟩, List.pairwise_singleton R _, ?_⟩
  · refine (List.pairwise_lt_range' 1 Nat.one_pos).imp fun {i j} hij t ht u hu => ?_
    apply hlater
    rwa [line_of_mem_tokensAt ht, line_of_mem_tokensAt hu]
  · intro t ht u hu
    obtain ⟨i, hi, ht⟩ := List.mem_flatMap.1 ht
    cases List.mem_singleton.1 hu
    rcases Nat.lt_or_ge i ((Text.lines source).length + 1) with hlt | hge
    · apply hlater
      rwa [line_of_mem_tokensAt ht]
    · have hi' := (List.mem_range'_1.1 hi).2
      have : i = (Text.lines source).length + 1 := by omega
      exact hend t (this ▸ ht)

end IndentScript
