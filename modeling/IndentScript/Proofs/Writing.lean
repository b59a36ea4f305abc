import IndentScript.Proofs.Lines

/-!
# Lines written and read back

A line is written as blanks, lexemes with blanks after each of them, and a comment if there is one.
Reading gives the lexemes back where they were written, whatever stands side by side: a blank ends
every lexeme but a string, and a string is known by its closing quote.
-/

namespace IndentScript

namespace Lexeme

/-! ## Blanks end lexemes -/

/-- The characters of the lexemes that are no strings. -/
def isPlain (c : Char) : Bool :=
  continuesWord c || ".=!<>+-*/%&|,;:()\x7b\x7d[]".toList.contains c

theorem isBlank_of_isPlain {c : Char} (h : isPlain c = true) : Text.isBlank c = false := by
  by_contra hblank
  simp only [Bool.not_eq_false, Text.isBlank, Bool.or_eq_true, decide_eq_true_eq] at hblank
  rcases hblank with rfl | rfl <;> cases h

theorem continuesWord_of_isDigit {c : Char} (h : c.isDigit = true) : continuesWord c = true := by
  simp [continuesWord, Char.isAlphanum, h]

namespace Rule

variable {k l : Kind} {s r : String}

/-- A lexeme is a word or a number, a string, or an operator, as its first character says. -/
theorem head_cases (h : Rule k s) {c : Char} (hc : s.toList.head? = some c) :
    continuesWord c = true ∨
      (c = '"' ∧ k = .string ∧ ∃ body, s.toList = '"' :: (body ++ ['"']) ∧ '"' ∉ body) ∨
      (s, k) ∈ operators := by
  have hwords : ∀ p ∈ words, isWord p.1.toList = true := by decide
  cases h with
  | name h =>
      obtain ⟨d, tail, hs, hd, -⟩ := h.shape
      rw [hs] at hc
      cases hc
      exact .inl (continuesWord_of_startsWord hd)
  | keyword h =>
      have hword := hwords _ h
      cases hs : s.toList with
      | nil => simp [hs] at hc
      | cons d tail =>
          simp only [hs, isWord, Bool.and_eq_true] at hword hc
          cases hc
          exact .inl (continuesWord_of_startsWord hword.1)
  | int h => exact .inl (continuesWord_of_isDigit (h.isDigit _ (List.mem_of_mem_head? hc)))
  | float h =>
      obtain ⟨whole, places, hs, hwhole, -⟩ := h
      rw [hs, List.head?_append_of_ne_nil _ hwhole.ne_nil] at hc
      exact .inl (continuesWord_of_isDigit (hwhole.isDigit _ (List.mem_of_mem_head? hc)))
  | string h hbody =>
      rw [h] at hc
      cases hc
      exact .inr (.inl ⟨rfl, rfl, _, h, hbody⟩)
  | operator h => exact .inr (.inr h)

theorem exists_body (h : Rule k s) (hquote : s.toList.head? = some '"') :
    k = .string ∧ ∃ body, s.toList = '"' :: (body ++ ['"']) ∧ '"' ∉ body := by
  have hoperators : ∀ p ∈ operators, p.1.toList.head? ≠ some '"' := by decide
  rcases h.head_cases hquote with h | ⟨-, h⟩ | h
  · cases h
  · exact h
  · exact absurd hquote (hoperators _ h)

/-- A character that is in no word, is no quote and starts no operator starts no lexeme. -/
theorem head_ne (h : Rule k s) {c : Char} (hword : continuesWord c = false) (hquote : c ≠ '"')
    (hoperators : ∀ p ∈ operators, p.1.toList.head? ≠ some c) : s.toList.head? ≠ some c := by
  intro hc
  rcases h.head_cases hc with h | ⟨h, -⟩ | h
  · rw [hword] at h
    cases h
  · exact hquote h
  · exact hoperators _ h hc

theorem head_ne_mark (h : Rule k s) : s.toList.head? ≠ some '#' :=
  h.head_ne (by decide) (by decide) (by decide)

theorem isPlain (h : Rule k s) (hquote : s.toList.head? ≠ some '"') :
    ∀ c ∈ s.toList, isPlain c = true := by
  have hwords : ∀ p ∈ words, p.1.toList.all Lexeme.isPlain = true := by decide
  have hoperators : ∀ p ∈ operators, p.1.toList.all Lexeme.isPlain = true := by decide
  have hword : ∀ {c}, continuesWord c = true → Lexeme.isPlain c = true := by
    simp_all [Lexeme.isPlain]
  have hdigits : ∀ {cs}, AreDigits cs → ∀ c ∈ cs, Lexeme.isPlain c = true :=
    fun hcs c hc => hword (continuesWord_of_isDigit (hcs.isDigit c hc))
  cases h with
  | name h =>
      obtain ⟨c, tail, hs, hc, htail⟩ := h.shape
      simp only [hs, List.forall_mem_cons]
      exact ⟨hword (continuesWord_of_startsWord hc), fun d hd => hword (htail d hd)⟩
  | keyword h => exact List.all_eq_true.1 (hwords _ h)
  | int h => exact hdigits h
  | float h =>
      obtain ⟨whole, places, hs, hwhole, hplaces⟩ := h
      simp only [hs, List.forall_mem_append, List.forall_mem_cons]
      exact ⟨hdigits hwhole, rfl, hdigits hplaces⟩
  | string h => simp [h] at hquote
  | operator h => exact List.all_eq_true.1 (hoperators _ h)

theorem isBlank_eq_false (h : Rule k s) (hquote : s.toList.head? ≠ some '"') :
    ∀ c ∈ s.toList, Text.isBlank c = false :=
  fun c hc => isBlank_of_isPlain (h.isPlain hquote c hc)

theorem ne_empty (h : Rule k s) : s.toList ≠ [] := by
  obtain ⟨c, tail, hs, -⟩ := h.exists_reaches
  simp [hs]

/-- No lexeme goes on with a blank where another one ends. -/
theorem not_prefix_blank (hs : Rule k s) (hr : Rule l r) {b : Char} (hb : Text.isBlank b = true) :
    ¬s.toList ++ [b] <+: r.toList := by
  intro hpre
  by_cases hquote : r.toList.head? = some '"'
  · -- both are strings, and the one is closed where the other goes on
    obtain ⟨more, hmore⟩ := hpre
    have hhead : s.toList.head? = some '"' := by
      rwa [← hmore, List.append_assoc, List.head?_append_of_ne_nil _ hs.ne_empty] at hquote
    obtain ⟨-, body, hbody, hnot⟩ := hs.exists_body hhead
    obtain ⟨-, body', hbody', hnot'⟩ := hr.exists_body hquote
    have heq : body ++ '"' :: b :: more = body' ++ '"' :: [] := by
      rw [hbody, hbody'] at hmore
      simpa using hmore
    have hindex := idxOf?_quote hnot (b :: more)
    rw [heq, idxOf?_quote hnot' []] at hindex
    have hlength := congrArg List.length heq
    simp at hindex hlength
    omega
  · have hmem : b ∈ r.toList := hpre.subset (by simp)
    rw [hr.isBlank_eq_false hquote b hmem] at hb
    cases hb

/-- In front of a blank a lexeme is read as a whole, and no further. -/
theorem read_eq (h : Rule k s) {c : Char} {tail : List Char} (hs : s.toList = c :: tail) {b : Char}
    (hb : Text.isBlank b = true) (after : List Char) :
    read c (tail ++ b :: after) = ⟨k, tail.length⟩ := by
  have hpre : s.toList <+: c :: (tail ++ b :: after) := ⟨b :: after, by simp [hs]⟩
  have hreaches := h.reaches hpre
  rw [← String.length_toList, hs, List.length_cons, Nat.add_sub_cancel] at hreaches
  have hmore : (read c (tail ++ b :: after)).more = tail.length := by
    refine Nat.le_antisymm (Nat.le_of_not_lt fun hlt => ?_) hreaches.le_more
    have hlegal : read c (tail ++ b :: after) ≠ ⟨.illegal, 0⟩ := fun hread =>
      hreaches.legal (by rw [hread])
    refine h.not_prefix_blank ((rule_or_illegal c _).resolve_right hlegal) hb ?_
    have hsplit : s.toList ++ [b] = (c :: (tail ++ b :: after)).take (tail.length + 2) := by
      simp [hs, List.take_append, List.take_of_length_le]
    rw [hsplit, String.toList_ofList, ← List.take_succ_cons]
    exact List.take_prefix_take_left (by omega)
  have hkind := hreaches.kind_eq hmore
  cases hread : read c (tail ++ b :: after)
  simp_all

end Rule

end Lexeme

/-! ## Lines to be written -/

/-- A character that is illegal by itself in front of the text `after`: half of an operator, a
character that starts no lexeme at all, or a quote that is not closed on the line. -/
inductive IsIllegalBefore (after : List Char) : Char → Prop
  | half {c} (h : c = '&' ∨ c = '|') : IsIllegalBefore after c
  | other {c} (hstarts : ∀ k s, Lexeme.Rule k s → s.toList.head? ≠ some c) (hline : c ≠ '\n')
      (hmark : c ≠ '#') (hblank : Text.isBlank c = false) : IsIllegalBefore after c
  | quote (h : '"' ∉ after) : IsIllegalBefore after '"'

/-- What can be written in front of the text `after` as a lexeme of the kind. -/
inductive FitsBefore (after : List Char) : Kind → String → Prop
  | lexeme {k s} (h : Lexeme.Rule k s) (hline : '\n' ∉ s.toList) : FitsBefore after k s
  | illegal {c} (h : IsIllegalBefore after c) : FitsBefore after .illegal (String.ofList [c])

/-- A lexeme and the blanks that are written after it. -/
structure Piece where
  kind : Kind
  text : String
  gap : List Char
  gap_ne_nil : gap ≠ []
  isBlank : ∀ c ∈ gap, Text.isBlank c = true

namespace Piece

def chars (p : Piece) : List Char :=
  p.text.toList ++ p.gap

/-- Each lexeme can be written in front of what follows it, and `rest` follows the last one. -/
def Fit (rest : List Char) : List Piece → Prop
  | [] => True
  | p :: ps =>
    FitsBefore (p.gap ++ (ps.flatMap chars ++ rest)) p.kind p.text ∧ Fit rest ps

/-- The tokens of the lexemes when the first of them is written at the column. -/
def tokens (line column : Nat) : List Piece → List Token
  | [] => []
  | p :: ps => ⟨p.kind, p.text, ⟨line, column⟩⟩ :: tokens line (column + p.chars.length) ps

end Piece

/-- A comment with its mark, or nothing. -/
def commentChars : Option (List Char) → List Char
  | none => []
  | some cs => '#' :: cs

/-- A line to be written. -/
structure Line where
  indent : List Char
  pieces : List Piece
  comment : Option (List Char)
  isBlank : ∀ c ∈ indent, Text.isBlank c = true
  comment_line : '\n' ∉ commentChars comment
  fit : Piece.Fit (commentChars comment) pieces

namespace Line

/-- What is written before the comment. -/
def code (l : Line) : List Char :=
  l.indent ++ l.pieces.flatMap Piece.chars

def chars (l : Line) : List Char :=
  l.code ++ commentChars l.comment

/-- The tokens of the lexemes of a line. -/
def tokens (l : Line) (line : Nat) : List Token :=
  Piece.tokens line (1 + l.indent.length) l.pieces

/-- The source that has the lines. -/
def source (lines : List Line) : String :=
  "\n".intercalate (lines.map fun l => String.ofList l.chars)

end Line

/-! ## Reading pieces -/

namespace IsIllegalBefore

variable {c b : Char} {after : List Char}

theorem ne_newline (h : IsIllegalBefore after c) : c ≠ '\n' := by
  cases h with
  | half h => rcases h with rfl | rfl <;> decide
  | other _ hline => exact hline
  | quote => decide

theorem not_skipped (h : IsIllegalBefore after c) : Text.isBlank c = false ∧ c ≠ '#' := by
  cases h with
  | half h => rcases h with rfl | rfl <;> decide
  | other _ _ hmark hblank => exact ⟨hblank, hmark⟩
  | quote => decide

theorem read_eq (h : IsIllegalBefore (b :: after) c) (hb : Text.isBlank b = true) :
    Lexeme.read c (b :: after) = ⟨.illegal, 0⟩ := by
  cases h with
  | half h =>
      simp only [Text.isBlank, Bool.or_eq_true, decide_eq_true_eq] at hb
      rcases h with rfl | rfl <;> rcases hb with rfl | rfl <;> rfl
  | other hstarts =>
      refine Lexeme.read_eq_illegal ?_
      rintro ⟨k, s, hrule, hpre⟩
      obtain ⟨d, tail, hs, -⟩ := hrule.exists_reaches
      rw [hs] at hpre
      obtain ⟨rfl, -⟩ := List.cons_prefix_cons.1 hpre
      exact hstarts k s hrule (by simp [hs])
  | quote h =>
      have hread : ∀ rest, Lexeme.read '"' rest = Lexeme.string rest := fun _ => rfl
      rw [hread, Lexeme.string, List.idxOf?_eq_none_iff.2 h]

end IsIllegalBefore

namespace FitsBefore

variable {k : Kind} {s : String} {b : Char} {after : List Char}

theorem not_newline (h : FitsBefore after k s) : '\n' ∉ s.toList := by
  cases h with
  | lexeme _ hline => exact hline
  | illegal h => simpa using h.ne_newline.symm

theorem mono {after' : List Char} (h : FitsBefore after k s) (hsub : after' ⊆ after) :
    FitsBefore after' k s := by
  cases h with
  | lexeme h hline => exact .lexeme h hline
  | illegal h =>
      cases h with
      | half h => exact .illegal (.half h)
      | other hstarts hline hmark hblank => exact .illegal (.other hstarts hline hmark hblank)
      | quote h => exact .illegal (.quote fun hmem => h (hsub hmem))

/-- What is written as a lexeme in front of a blank is read as one. -/
theorem exists_read_eq (h : FitsBefore (b :: after) k s) (hb : Text.isBlank b = true) :
    ∃ c tail, s.toList = c :: tail ∧ Text.isBlank c = false ∧ c ≠ '#' ∧
      Lexeme.read c (tail ++ b :: after) = ⟨k, tail.length⟩ := by
  cases h with
  | lexeme h =>
      obtain ⟨c, tail, hs, -⟩ := h.exists_reaches
      have hmark := h.head_ne_mark
      refine ⟨c, tail, hs, ?_, by simpa [hs] using hmark, h.read_eq hs hb after⟩
      by_cases hquote : s.toList.head? = some '"'
      · rw [hs] at hquote
        cases hquote
        rfl
      · exact h.isBlank_eq_false hquote c (by simp [hs])
  | @illegal c h =>
      exact ⟨c, [], String.toList_ofList, h.not_skipped.1, h.not_skipped.2, h.read_eq hb⟩

end FitsBefore

theorem tokensFrom_commentChars (line column : Nat) (comment : Option (List Char)) :
    tokensFrom line column (commentChars comment) = [] := by
  cases comment with
  | none => rw [commentChars, tokensFrom]
  | some cs => rw [commentChars, tokensFrom, if_neg (by decide), if_pos rfl]

namespace Piece

/-- A piece is read as the token it was written for. -/
theorem tokensFrom_chars_append {p : Piece} {after : List Char}
    (h : FitsBefore (p.gap ++ after) p.kind p.text) (line column : Nat) :
    tokensFrom line column (p.chars ++ after) =
      ⟨p.kind, p.text, ⟨line, column⟩⟩ :: tokensFrom line (column + p.chars.length) after := by
  obtain ⟨b, gap, hgap⟩ := List.exists_cons_of_ne_nil p.gap_ne_nil
  have hb : Text.isBlank b = true := p.isBlank b (by simp [hgap])
  rw [hgap, List.cons_append] at h
  obtain ⟨c, tail, htext, hblank, hmark, hread⟩ := h.exists_read_eq hb
  have hchars : p.chars ++ after = c :: (tail ++ b :: (gap ++ after)) := by
    simp [chars, htext, hgap]
  have htoken : Lexeme.token ⟨line, column⟩ c (tail ++ b :: (gap ++ after)) =
      ⟨p.kind, p.text, ⟨line, column⟩⟩ := by
    rw [Lexeme.token, hread, List.take_left, ← htext, String.ofList_toList]
  have hlength : p.chars.length = 1 + tail.length + p.gap.length := by
    rw [chars, List.length_append, htext, List.length_cons]
    omega
  rw [hchars, tokensFrom_cons (by simp [hblank]) hmark, htoken, hread, List.drop_left,
    ← List.cons_append, ← hgap, tokensFrom_blank_append p.isBlank, hlength]
  simp only [Nat.add_assoc]

theorem tokensFrom_pieces {rest : List Char} {ps : List Piece} (h : Fit rest ps)
    {line : Nat} (hrest : ∀ column, tokensFrom line column rest = []) (column : Nat) :
    tokensFrom line column (ps.flatMap chars ++ rest) = tokens line column ps := by
  induction ps generalizing column with
  | nil => exact hrest column
  | cons p ps ih =>
      obtain ⟨hp, hps⟩ := h
      rw [List.flatMap_cons, List.append_assoc, tokensFrom_chars_append hp, ih hps, tokens]

theorem not_newline_of_fit {rest : List Char} {ps : List Piece} (h : Fit rest ps) :
    '\n' ∉ ps.flatMap chars := by
  induction ps with
  | nil => exact List.not_mem_nil
  | cons p ps ih =>
      rw [List.flatMap_cons, chars, List.mem_append, List.mem_append, not_or, not_or]
      exact ⟨⟨h.1.not_newline, fun hmem => absurd (p.isBlank _ hmem) (by decide)⟩, ih h.2⟩

theorem Fit.mono {rest rest' : List Char} {ps : List Piece} (h : Fit rest ps)
    (hsub : rest' ⊆ rest) : Fit rest' ps := by
  induction ps with
  | nil => trivial
  | cons p ps ih =>
      refine ⟨h.1.mono fun c hc => ?_, ih h.2⟩
      simp only [List.mem_append] at hc ⊢
      exact hc.imp_right (Or.imp_right fun hc => hsub hc)

/-- After blanks, or after nothing, pieces end in a blank if they end at all. -/
theorem isBlank_getLast {bs : List Char} (h : ∀ c ∈ bs.getLast?, Text.isBlank c = true)
    (ps : List Piece) : ∀ c ∈ (bs ++ ps.flatMap chars).getLast?, Text.isBlank c = true := by
  induction ps generalizing bs with
  | nil => simpa using h
  | cons p ps ih =>
      rw [List.flatMap_cons, ← List.append_assoc]
      refine ih fun c hc => ?_
      rw [chars, ← List.append_assoc, List.getLast?_append_of_ne_nil _ p.gap_ne_nil] at hc
      exact p.isBlank c (List.mem_of_getLast? hc)

end Piece

/-! ## Reading lines -/

namespace Line

variable (l : Line)

theorem not_newline_chars : '\n' ∉ l.chars := by
  rw [chars, code, List.mem_append, List.mem_append, not_or, not_or]
  exact ⟨⟨fun hmem => absurd (l.isBlank _ hmem) (by decide),
    Piece.not_newline_of_fit l.fit⟩, l.comment_line⟩

/-- At most the end of the comment is lost with the line break. -/
theorem exists_dropReturn_chars : ∃ comment, commentChars comment ⊆ commentChars l.comment ∧
    Text.dropReturn l.chars = l.code ++ commentChars comment := by
  rw [chars, Text.dropReturn]
  cases l.comment with
  | none =>
      have hlast : l.code.getLast? ≠ some '\r' := fun h =>
        absurd (Piece.isBlank_getLast (fun c hc => l.isBlank c (List.mem_of_getLast? hc))
          l.pieces _ h) (by decide)
      exact ⟨none, List.Subset.refl _, if_neg (by rwa [commentChars, List.append_nil])⟩
  | some cs =>
      rw [commentChars, List.getLast?_append_of_ne_nil _ (List.cons_ne_nil _ _)]
      split
      · next hlast =>
        obtain ⟨front, hfront⟩ := List.getLast?_eq_some_iff.1 hlast
        cases front with
        | nil => cases hfront
        | cons d front =>
            obtain ⟨rfl, rfl⟩ := List.cons.inj hfront
            refine ⟨some front, List.cons_subset_cons _ (List.subset_append_left _ _), ?_⟩
            rw [hfront, ← List.append_assoc, List.dropLast_concat]
            rfl
      · exact ⟨some cs, List.Subset.refl _, rfl⟩

theorem tokensFrom_dropReturn_chars (line : Nat) :
    tokensFrom line 1 (Text.dropReturn l.chars) = l.tokens line := by
  obtain ⟨comment, hsub, hchars⟩ := l.exists_dropReturn_chars
  rw [hchars, code, List.append_assoc, tokensFrom_blank_append l.isBlank,
    Piece.tokensFrom_pieces (l.fit.mono hsub)
      (fun column => tokensFrom_commentChars line column comment)]
  rfl

theorem lines_source {lines : List Line} (h : lines ≠ []) :
    Text.lines (source lines) = lines.map fun l => Text.dropReturn l.chars := by
  have hchars : (source lines).toList = ['\n'].intercalate (lines.map chars) := by
    simp [source, String.toList_intercalate, Function.comp_def]
  have hsplit : (['\n'].intercalate (lines.map chars)).splitOn '\n' = lines.map chars := by
    refine List.splitOn_intercalate '\n' (fun cs hcs => ?_) (by simpa using h)
    obtain ⟨l, -, rfl⟩ := List.mem_map.1 hcs
    exact l.not_newline_chars
  rw [Text.lines, hchars, hsplit, List.map_map]
  rfl

end Line

/-- But for the tokens of layout, the tokens of lines are those that each of them holds. -/
theorem filter_tokensOfLines (line : Nat) (blocks : Indentation) (lines : List (List Char)) :
    (tokensOfLines line blocks lines).filter (fun t => !t.kind.isLayout) =
      (lines.zipIdx line).flatMap fun p => tokensFrom p.2 1 p.1 := by
  induction lines generalizing line blocks with
  | nil => simp [tokensOfLines, closings, Kind.isLayout]
  | cons cs lines ih =>
      have hchange : ((blocks.change (Text.indentWidth cs)).tokens line).filter
          (fun t => !t.kind.isLayout) = [] :=
        List.filter_eq_nil_iff.2 fun t ht => by simp [(Indentation.Change.of_mem_tokens ht).1]
      have hheld : (tokensFrom line 1 cs).filter (fun t => !t.kind.isLayout) =
          tokensFrom line 1 cs :=
        List.filter_eq_self.2 fun t ht => by simp [isLayout_of_mem_tokensFrom ht]
      rw [tokensOfLines, List.filter_append, List.filter_append, hchange, hheld, ih,
        List.zipIdx_cons, List.flatMap_cons, List.nil_append]

/-- What is written in lines is read back: the tokens of the source are the lexemes of its lines,
each in its place, and tokens of layout. -/
theorem filter_tokenize_source (lines : List Line) :
    (tokenize (Line.source lines)).filter (fun t => !t.kind.isLayout) =
      (lines.zipIdx 1).flatMap fun p => p.1.tokens p.2 := by
  rw [tokenize, filter_tokensOfLines]
  by_cases h : lines = []
  · subst h
    have hlines : Text.lines (Line.source []) = [[]] := by decide
    simp [hlines, tokensFrom]
  · rw [Line.lines_source h, List.zipIdx_map, List.flatMap_map]
    simp [Line.tokensFrom_dropReturn_chars]

namespace Line

/-- A string that holds a mark, a character that starts no lexeme, and a comment with a quote. -/
def marked : Line where
  indent := [' ', ' ']
  pieces := [⟨.string, "\"a # b\"", [' '], by simp, by simp [Text.isBlank]⟩,
    ⟨.illegal, "$", [' ', '\t'], by simp, by simp [Text.isBlank]⟩]
  comment := some ['"']
  isBlank := by simp [Text.isBlank]
  comment_line := by decide
  fit := by
    have hbody : "\"a # b\"".toList = '"' :: (['a', ' ', '#', ' ', 'b'] ++ ['"']) := by decide
    have hstring : Lexeme.Rule .string "\"a # b\"" := .string hbody (by decide)
    refine ⟨.lexeme hstring (by decide), .illegal (.other ?_ ?_ ?_ ?_), trivial⟩
    · exact fun k s h => h.head_ne (by decide) (by decide) (by decide)
    all_goals decide

/-- A name, half an operator, and a quote that is not closed. -/
def unclosed : Line where
  indent := []
  pieces := [⟨.ident, "x", [' '], by simp, by simp [Text.isBlank]⟩,
    ⟨.illegal, "&", [' '], by simp, by simp [Text.isBlank]⟩,
    ⟨.illegal, "\"", [' '], by simp, by simp [Text.isBlank]⟩]
  comment := none
  isBlank := by simp [Text.isBlank]
  comment_line := by decide
  fit := by
    have hname : IsName "x" := ⟨⟨'x', [], by decide, by decide, by simp⟩, by decide⟩
    exact ⟨.lexeme (.name hname) (by decide), .illegal (.half (.inl rfl)),
      .illegal (.quote (by decide)), trivial⟩

end Line

theorem filter_tokenize_source_marked :
    (tokenize "  \"a # b\" $ \t#\"\nx & \" ").filter (fun t => !t.kind.isLayout) =
      [⟨.string, "\"a # b\"", ⟨1, 3⟩⟩, ⟨.illegal, "$", ⟨1, 11⟩⟩,
        ⟨.ident, "x", ⟨2, 1⟩⟩, ⟨.illegal, "&", ⟨2, 3⟩⟩, ⟨.illegal, "\"", ⟨2, 5⟩⟩] := by
  have hsource : Line.source [.marked, .unclosed] = "  \"a # b\" $ \t#\"\nx & \" " := by
    decide
  rw [← hsource, filter_tokenize_source]
  decide

end IndentScript
