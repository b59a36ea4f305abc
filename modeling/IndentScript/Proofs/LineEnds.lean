import IndentScript.Proofs.Concatenation
import IndentScript.Proofs.Positions
import IndentScript.Proofs.Writing

/-!
# The ends of lines

A blank, a comment mark and a carriage return go on with no lexeme, so what is put behind the
contents of a line is read by itself: blanks and comments there make no difference. The one thing
that looks further is a quote that lacks its partner. A carriage return counts for nothing in front
of a line feed or of the end, whatever the other lines have there, and anywhere else it is an
illegal token, or a part of a string or of a comment.
-/

namespace IndentScript

/-! ## What goes on with no lexeme -/

theorem takeWhile_append_of_head {p : Char → Bool} {tail : List Char}
    (h : ∀ d ∈ tail.head?, p d = false) (cs : List Char) :
    (cs ++ tail).takeWhile p = cs.takeWhile p := by
  rw [List.takeWhile_append, takeWhile_eq_nil h]
  split
  · next hall =>
    rw [List.append_nil]
    exact ((List.takeWhile_prefix p).eq_of_length hall).symm
  · rfl

namespace Lexeme

/-- The character goes on with no lexeme but a string. -/
structure Ends (d : Char) : Prop where
  word : continuesWord d = false
  point : d ≠ '.'
  pair : ∀ c, pair? c d = none

theorem ends_of_mem {d : Char} (h : d ∈ [' ', '\t', '#', '\r']) : Ends d := by
  have hplain : ∀ d ∈ [' ', '\t', '#', '\r'], (!continuesWord d && d ≠ '.') = true :=
    List.all_eq_true.1 (by decide)
  have hlast : ∀ p ∈ operators, p.1.toList.getLast? ∉ [' ', '\t', '#', '\r'].map some := by decide
  obtain ⟨hword, hpoint⟩ : continuesWord d = false ∧ d ≠ '.' := by simpa using hplain d h
  refine ⟨hword, hpoint, fun c => ?_⟩
  by_contra hpair
  obtain ⟨k, hk⟩ := Option.ne_none_iff_exists'.1 hpair
  exact hlast _ (mem_operators_of_pair? hk) (by simpa using h)

theorem ends_of_isBlank {d : Char} (h : Text.isBlank d = true) : Ends d := by
  apply ends_of_mem
  simp only [Text.isBlank, Bool.or_eq_true, decide_eq_true_eq] at h
  rcases h with rfl | rfl <;> simp

section

variable {c : Char} {rest tail : List Char} (h : ∀ d ∈ tail.head?, Ends d)
include h

theorem word_append : word c (rest ++ tail) = word c rest := by
  simp only [word, takeWhile_append_of_head fun d hd => (h d hd).word]

theorem number_append : number (rest ++ tail) = number rest := by
  have hdigit : ∀ d ∈ tail.head?, d.isDigit = false := by
    intro d hd
    have := (h d hd).word
    simp_all [continuesWord, Char.isAlphanum]
  have htake : ∀ cs : List Char, (cs ++ tail).takeWhile Char.isDigit = cs.takeWhile Char.isDigit :=
    takeWhile_append_of_head hdigit
  unfold number
  rw [htake, List.dropWhile_append]
  cases hrest : rest.dropWhile Char.isDigit with
  | nil =>
      cases tail with
      | nil => rfl
      | cons d tail =>
          simp only [List.isEmpty_nil, if_true, List.dropWhile_cons, hdigit d rfl]
          split
          · next hpoint => exact absurd (List.cons.inj hpoint).1 (h d rfl).point
          · rfl
  | cons d after =>
      simp only [List.isEmpty_cons, List.cons_append]
      by_cases hd : d = '.'
      · subst hd
        simp [htake]
      · simp [hd]

omit h in
theorem string_append (hquote : '"' ∉ rest → '"' ∉ tail) : string (rest ++ tail) = string rest := by
  by_cases hrest : '"' ∈ rest
  · obtain ⟨body, after, rfl, hbody⟩ := List.eq_append_cons_of_mem hrest
    rw [List.append_assoc, List.cons_append, string, string, idxOf?_quote hbody, idxOf?_quote hbody]
  · have hwhole : '"' ∉ rest ++ tail := by simp [hrest, hquote hrest]
    rw [string, string, List.idxOf?_eq_none_iff.2 hrest, List.idxOf?_eq_none_iff.2 hwhole]

theorem symbol_append : symbol c (rest ++ tail) = symbol c rest := by
  cases rest with
  | cons d rest => rfl
  | nil =>
      cases tail with
      | nil => rfl
      | cons d tail => simp [symbol, (h d rfl).pair c]

/-- A lexeme is read as if the line ended in front of the tail, unless it is a quote whose partner
is in the tail. -/
theorem read_append (hquote : c = '"' → '"' ∉ rest → '"' ∉ tail) :
    read c (rest ++ tail) = read c rest := by
  unfold read
  rw [word_append h, number_append h, symbol_append h]
  by_cases hc : c = '"'
  · rw [string_append (hquote hc)]
  · simp [hc]

end

end Lexeme

/-! ## The tokens in front of a tail -/

/-- A quote that has no partner on its line. -/
def Token.IsLoneQuote (t : Token) : Prop :=
  t.kind = .illegal ∧ t.text = "\""

/-- Up to the tail a line holds what it holds without it. What the tail adds are tokens of its own,
and none if it lies in a comment. -/
theorem tokensFrom_append {tail : List Char} (h : ∀ d ∈ tail.head?, Lexeme.Ends d)
    {line column : Nat} {cs : List Char}
    (hquote : '"' ∈ tail → ∀ t ∈ tokensFrom line column cs, ¬t.IsLoneQuote) :
    tokensFrom line column (cs ++ tail) = tokensFrom line column cs ∨
      tokensFrom line column (cs ++ tail) =
        tokensFrom line column cs ++ tokensFrom line (column + cs.length) tail := by
  induction column, cs using tokensFrom.induct with
  | case1 => exact .inr (by simp [tokensFrom])
  | case2 column c rest hblank ih =>
      have hskip : ∀ rest, tokensFrom line column (c :: rest) = tokensFrom line (column + 1) rest :=
        fun rest => by rw [tokensFrom, if_pos hblank]
      have hlength : column + (c :: rest).length = column + 1 + rest.length := by
        rw [List.length_cons]
        omega
      rw [hskip] at hquote
      rw [List.cons_append, hskip, hskip, hlength]
      exact ih hquote
  | case3 column rest hblank =>
      refine .inl ?_
      rw [List.cons_append, tokensFrom, if_neg hblank, if_pos rfl, tokensFrom, if_neg hblank,
        if_pos rfl]
  | case4 column c rest hblank hmark lexeme ih =>
      have hle : lexeme.more ≤ rest.length := Lexeme.more_le_length c rest
      have hread : Lexeme.read c (rest ++ tail) = lexeme := by
        refine Lexeme.read_append h fun hc hrest htail => ?_
        have hlone : Lexeme.read '"' rest = ⟨.illegal, 0⟩ := by
          show Lexeme.string rest = _
          rw [Lexeme.string, List.idxOf?_eq_none_iff.2 hrest]
        subst hc
        refine hquote htail (Lexeme.token ⟨line, column⟩ '"' rest) ?_ ?_
        · rw [tokensFrom_cons hblank hmark]
          exact List.mem_cons_self
        · rw [Lexeme.token, hlone]
          exact ⟨rfl, rfl⟩
      have htoken : Lexeme.token ⟨line, column⟩ c (rest ++ tail) =
          Lexeme.token ⟨line, column⟩ c rest := by
        rw [Lexeme.token, hread, List.take_append_of_le_length hle]
        rfl
      have hlength : column + (c :: rest).length =
          column + 1 + lexeme.more + (rest.drop lexeme.more).length := by
        rw [List.length_cons, List.length_drop]
        omega
      rw [tokensFrom_cons hblank hmark] at hquote
      rw [List.cons_append, tokensFrom_cons hblank hmark, tokensFrom_cons hblank hmark, htoken,
        hread, List.drop_append_of_le_length hle, hlength, List.cons_append]
      rcases ih fun htail t ht => hquote htail t (List.mem_cons_of_mem _ ht) with ih | ih
      · exact .inl (by rw [ih])
      · exact .inr (by rw [ih])

/-! ## Lines that cannot be told apart -/

/-- The lines are indented alike and hold the same tokens. -/
structure SameTokens (cs cs' : List Char) : Prop where
  width : Text.indentWidth cs' = Text.indentWidth cs
  tokens : ∀ line, tokensFrom line 1 cs' = tokensFrom line 1 cs

theorem SameTokens.refl (cs : List Char) : SameTokens cs cs :=
  ⟨rfl, fun _ => rfl⟩

theorem tokensOfLines_congr {ls ls' : List (List Char)} (h : List.Forall₂ SameTokens ls ls')
    (line : Nat) (blocks : Indentation) :
    tokensOfLines line blocks ls' = tokensOfLines line blocks ls := by
  induction h generalizing line blocks with
  | nil => rfl
  | cons h _ ih => simp only [tokensOfLines, h.width, h.tokens, ih]

theorem forall₂_modify {α : Type} {R : α → α → Prop} {f : α → α} (hrefl : ∀ a, R a a)
    {l : List α} {i : Nat} (h : ∀ a, l[i]? = some a → R a (f a)) :
    List.Forall₂ R l (l.modify i f) := by
  induction l generalizing i with
  | nil => simp
  | cons a l ih =>
      cases i with
      | zero => simpa [List.forall₂_same] using ⟨h a rfl, fun a _ => hrefl a⟩
      | succ i => simpa using ⟨hrefl a, ih h⟩

/-! ## Tails of lines -/

namespace Text

/-- The tail makes no difference behind those contents: it is blanks behind something that is no
blank, or a comment. -/
inductive Invisible (cs : List Char) : List Char → Prop
  | blanks {tail : List Char} (hcs : ∃ c ∈ cs, isBlank c = false)
      (htail : ∀ c ∈ tail, isBlank c = true) : Invisible cs tail
  | comment {rest : List Char} (hrest : '\n' ∉ rest) : Invisible cs ('#' :: rest)

/-- The line with the tail behind its contents. A carriage return at its end stays there. -/
def extend (tail line : List Char) : List Char :=
  dropReturn line ++ tail ++ if line.getLast? = some '\r' then ['\r'] else []

/-- The text with the tail behind the contents of the line that has so many lines before it. -/
def extendLine (i : Nat) (tail text : String) : String :=
  String.ofList (['\n'].intercalate ((text.toList.splitOn '\n').modify i (extend tail.toList)))

example : extendLine 1 " # c" "a\n b\r\nc" = "a\n b # c\r\nc" := by decide

theorem dropReturn_isPrefix (line : List Char) : dropReturn line <+: line := by
  rw [dropReturn]
  split
  · exact List.dropLast_prefix line
  · exact List.prefix_refl line

theorem Invisible.dropReturn {cs tail : List Char} (h : Invisible cs tail) :
    Invisible cs (dropReturn tail) := by
  cases h with
  | blanks hcs htail => exact .blanks hcs fun c hc => htail c ((dropReturn_isPrefix tail).mem hc)
  | @comment rest hrest =>
      have hmark : Text.dropReturn ('#' :: rest) = '#' :: Text.dropReturn rest :=
        dropReturn_append_of_getLast? (by decide : ['#'].getLast? ≠ some '\r') rest
      rw [hmark]
      exact .comment fun hmem => hrest ((dropReturn_isPrefix rest).mem hmem)

theorem Invisible.not_mem {cs tail : List Char} (h : Invisible cs tail) : '\n' ∉ tail := by
  cases h with
  | blanks _ htail => exact fun hmem => absurd (htail _ hmem) (by decide)
  | comment hrest => simpa using hrest

theorem Invisible.ends {cs tail : List Char} (h : Invisible cs tail) :
    ∀ d ∈ tail.head?, Lexeme.Ends d := by
  intro d hd
  cases h with
  | blanks _ htail => exact Lexeme.ends_of_isBlank (htail d (List.mem_of_mem_head? hd))
  | comment _ =>
      cases hd
      exact Lexeme.ends_of_mem (by decide)

theorem Invisible.tokensFrom {cs tail : List Char} (h : Invisible cs tail) (line column : Nat) :
    tokensFrom line column tail = [] := by
  cases h with
  | blanks _ htail =>
      rw [← List.append_nil tail, tokensFrom_blank_append htail, IndentScript.tokensFrom]
  | comment _ => rw [IndentScript.tokensFrom, if_neg (by decide), if_pos rfl]

theorem Invisible.indentWidth {cs tail : List Char} (h : Invisible cs tail) :
    indentWidth (cs ++ tail) = indentWidth cs := by
  cases h with
  | blanks hcs _ =>
      obtain ⟨c, hc, hblank⟩ := hcs
      have hlength : (cs.takeWhile isBlank).length ≠ cs.length := by
        intro hlength
        have hall := (List.takeWhile_prefix isBlank).eq_of_length hlength
        rw [List.takeWhile_eq_self_iff] at hall
        simp [hall c hc] at hblank
      rw [Text.indentWidth, List.takeWhile_append, if_neg hlength, Text.indentWidth]
  | @comment rest _ =>
      have hmark : ∀ d ∈ ('#' :: rest).head?, isBlank d = false := by
        rintro d ⟨⟩
        rfl
      rw [Text.indentWidth, takeWhile_append_of_head hmark, Text.indentWidth]

/-- What is left of the tail, when the line is read, is a tail of the same sort. -/
theorem Invisible.exists_dropReturn_extend {line tail : List Char}
    (h : Invisible (Text.dropReturn line) tail) :
    ∃ tail', tail' <+: tail ∧ Invisible (Text.dropReturn line) tail' ∧
      Text.dropReturn (extend tail line) = Text.dropReturn line ++ tail' := by
  rw [extend]
  split
  · exact ⟨tail, List.prefix_refl tail, h, dropReturn_concat _⟩
  · next hreturn =>
    have hline : Text.dropReturn line = line := if_neg hreturn
    refine ⟨Text.dropReturn tail, dropReturn_isPrefix tail, h.dropReturn, ?_⟩
    rw [List.append_nil, hline, dropReturn_append_of_getLast? hreturn]

theorem lines_extendLine {i : Nat} {tail text : String} (h : '\n' ∉ tail.toList) :
    lines (extendLine i tail text) =
      ((text.toList.splitOn '\n').modify i (extend tail.toList)).map Text.dropReturn := by
  have hextend : ∀ line : List Char, '\n' ∉ line → '\n' ∉ extend tail.toList line := by
    intro line hline hmem
    rw [extend, List.mem_append, List.mem_append] at hmem
    rcases hmem with (hmem | hmem) | hmem
    · exact hline ((dropReturn_isPrefix line).mem hmem)
    · exact h hmem
    · revert hmem
      split <;> decide
  rw [lines, extendLine, String.toList_ofList, List.splitOn_intercalate]
  · intro line hline
    obtain ⟨j, hj⟩ := List.mem_iff_getElem?.1 hline
    rw [List.getElem?_modify] at hj
    obtain ⟨cs, hcs, rfl⟩ := Option.map_eq_some_iff.1 hj
    have hcs' := not_mem_of_mem_splitOn (List.mem_of_getElem? hcs)
    split
    · exact hextend cs hcs'
    · exact hcs'
  · rw [← List.length_pos_iff, List.length_modify, List.length_pos_iff]
    exact List.splitOn_ne_nil _ _

end Text

/-! ## Lines with a tail -/

theorem mem_tokensFrom_dropReturn {line column : Nat} {cs : List Char} {t : Token}
    (ht : t ∈ tokensFrom line column cs) (htext : t.text ≠ "\r") :
    t ∈ tokensFrom line column (Text.dropReturn cs) := by
  rw [Text.dropReturn]
  split
  · next hreturn =>
    obtain ⟨front, rfl⟩ := List.getLast?_eq_some_iff.1 hreturn
    rw [List.dropLast_concat]
    have hends : ∀ d ∈ ['\r'].head?, Lexeme.Ends d := by
      rintro d ⟨⟩
      exact Lexeme.ends_of_mem (by decide)
    rcases tokensFrom_append hends (fun hquote => absurd hquote (by decide)) with h | h
    · rwa [h] at ht
    · rw [h, List.mem_append] at ht
      refine ht.resolve_right fun ht => htext ?_
      have hreturn : Lexeme.read '\r' [] = ⟨.illegal, 0⟩ := rfl
      rw [tokensFrom_cons (by decide) (by decide), hreturn, List.drop_nil, tokensFrom,
        List.mem_singleton] at ht
      rw [ht, Lexeme.token, hreturn]
      rfl
  · exact ht

/-- A quote that lacks its partner on a line also lacks it when the line is a source of its own. -/
theorem exists_isLoneQuote {line : Nat} {cs : List Char} {t : Token} (hcs : '\n' ∉ cs)
    (ht : t ∈ tokensFrom line 1 cs) (hlone : t.IsLoneQuote) :
    ∃ u ∈ tokenize (String.ofList cs), u.IsLoneQuote := by
  have hmoved : ∀ i, tokensFrom i 1 cs = (tokensFrom 0 1 cs).map (Token.moved i 0) := fun i => by
    rw [← tokensFrom_add, Nat.zero_add]
  rw [hmoved] at ht
  obtain ⟨u, hu, rfl⟩ := List.mem_map.1 ht
  have hfirst : u.moved 1 0 ∈ tokensFrom 1 1 cs := by
    rw [hmoved]
    exact List.mem_map_of_mem hu
  have hlines : Text.lineAt (String.ofList cs) 1 = Text.dropReturn cs := by
    rw [Text.lineAt, Text.lines_of_not_mem (by rwa [String.toList_ofList]), String.toList_ofList]
    rfl
  refine ⟨u.moved 1 0, ?_, hlone⟩
  rw [mem_tokenize_iff_of_not_layout (isLayout_of_mem_tokensFrom hfirst),
    line_of_mem_tokensFrom hfirst, hlines]
  refine mem_tokensFrom_dropReturn hfirst ?_
  rw [show (u.moved 1 0).text = "\"" from hlone.2]
  decide

theorem sameTokens_append {cs tail : List Char} (h : Text.Invisible cs tail)
    (hquote : '"' ∈ tail → ∀ line, ∀ t ∈ tokensFrom line 1 cs, ¬t.IsLoneQuote) :
    SameTokens cs (cs ++ tail) := by
  refine ⟨h.indentWidth, fun line => ?_⟩
  rcases tokensFrom_append h.ends fun htail => hquote htail line with heq | heq
  · exact heq
  · rw [heq, h.tokensFrom, List.append_nil]

/-- Blanks and comments at the end of a line make no difference to any token of the source. -/
theorem tokenize_extendLine {source tail : String} {i : Nat}
    (htail : Text.Invisible (Text.lineAt source (i + 1)) tail.toList)
    (hquote : '"' ∉ tail.toList ∨
      ∀ t ∈ tokenize (String.ofList (Text.lineAt source (i + 1))), ¬t.IsLoneQuote) :
    tokenize (Text.extendLine i tail source) = tokenize source := by
  rw [tokenize, Text.lines_extendLine htail.not_mem]
  refine tokensOfLines_congr ?_ 1 []
  rw [Text.lines, List.forall₂_map_left_iff, List.forall₂_map_right_iff]
  refine forall₂_modify (fun line => .refl _) fun line hline => ?_
  have hcontents : Text.lineAt source (i + 1) = Text.dropReturn line := by
    simp [Text.lineAt, Text.lines, List.getD_eq_getElem?_getD, hline]
  rw [hcontents] at htail hquote
  obtain ⟨tail', hpre, hinvisible, heq⟩ := htail.exists_dropReturn_extend
  rw [heq]
  refine sameTokens_append hinvisible fun hmem j t ht hlone => ?_
  have hnot := not_mem_of_mem_splitOn (List.mem_of_getElem? hline)
  obtain ⟨u, hu, hlone'⟩ :=
    exists_isLoneQuote (fun h => hnot ((Text.dropReturn_isPrefix line).mem h)) ht hlone
  exact hquote.elim (fun h => h (hpre.mem hmem)) fun h => h u hu hlone'

/-- The mark makes no pair with the `&` in front of it, and the carriage return of the comment is
not taken for one of the line break. -/
theorem tokenize_extendLine_comment :
    Text.Invisible (Text.lineAt "a\n  7 &\r\nb" (1 + 1)) "#&\r".toList ∧
      '"' ∉ "#&\r".toList ∧
      tokenize "a\n  7 &#&\r\r\nb" = tokenize "a\n  7 &\r\nb" := by
  have htail : Text.Invisible (Text.lineAt "a\n  7 &\r\nb" (1 + 1)) "#&\r".toList := by
    rw [show "#&\r".toList = '#' :: ['&', '\r'] by decide]
    exact .comment (by decide)
  have hquote : '"' ∉ "#&\r".toList := by decide
  have hextend : Text.extendLine 1 "#&\r" "a\n  7 &\r\nb" = "a\n  7 &#&\r\r\nb" := by decide
  refine ⟨htail, hquote, ?_⟩
  rw [← hextend]
  exact tokenize_extendLine htail (.inl hquote)

/-! ## Carriage returns -/

/-- The text of the lines, where each of them has a carriage return in front of its line feed, or of
the end, if its mark says so. -/
def Text.joined (ls : List (String × Bool)) : String :=
  "\n".intercalate (ls.map fun l => if l.2 then l.1 ++ "\r" else l.1)

example : Text.joined [("a", true), ("", false), (" b", true)] = "a\r\n\n b\r" := by decide

theorem Text.lines_joined {ls : List (String × Bool)} (hne : ls ≠ [])
    (hls : ∀ l ∈ ls, '\n' ∉ l.1.toList ∧ l.1.toList.getLast? ≠ some '\r') :
    lines (joined ls) = (ls.map Prod.fst).map String.toList := by
  have hchars : (joined ls).toList =
      ['\n'].intercalate (ls.map fun l => (if l.2 then l.1 ++ "\r" else l.1).toList) := by
    simp [joined, String.toList_intercalate, Function.comp_def]
  rw [lines, hchars, List.splitOn_intercalate, List.map_map, List.map_map]
  · refine List.map_congr_left fun l hl => ?_
    simp only [Function.comp_apply]
    split
    · rw [String.toList_append]
      exact dropReturn_concat _
    · exact if_neg (hls l hl).2
  · intro line hline
    obtain ⟨l, hl, rfl⟩ := List.mem_map.1 hline
    have hnot := (hls l hl).1
    split
    · simpa using hnot
    · exact hnot
  · simpa using hne

theorem Lexeme.Rule.kind_of_return_mem {k : Kind} {s : String} (h : Rule k s)
    (hreturn : '\r' ∈ s.toList) : k = .string := by
  by_contra hk
  have hplain := h.isPlain (fun hquote => hk (h.exists_body hquote).1) '\r' hreturn
  cases hplain

/-- A token with a carriage return in it is a string, or it is that character alone. -/
theorem string_or_illegal_of_return {line m : Nat} {cs : List Char} {t : Token}
    (ht : t ∈ tokensFrom line 1 cs) (hreturn : cs[m]? = some '\r')
    (hstart : t.location.column ≤ m + 1) (hstop : m + 1 < t.stop) :
    t.kind = .string ∨ t = ⟨.illegal, "\r", ⟨line, m + 1⟩⟩ := by
  have hcolumn := column_le_of_mem_tokensFrom ht
  have hline := line_of_mem_tokensFrom ht
  obtain ⟨n, hn⟩ := Nat.exists_eq_add_of_le hstart
  have hlength : n < t.text.toList.length := by
    rw [Token.stop, ← String.length_toList] at hstop
    omega
  have hchar : t.text.toList[n]? = some '\r' := by
    rw [← hreturn, List.getElem?_eq_getElem hlength, (text_prefix_drop ht).2.getElem hlength,
      ← List.getElem?_eq_getElem, List.getElem?_drop]
    congr 1
    omega
  obtain ⟨c, rest, -, htoken⟩ := exists_drop_eq_cons ht
  rw [htoken, Lexeme.toList_text_token] at hchar
  rw [htoken]
  rcases Lexeme.rule_or_illegal c rest with hrule | hillegal
  · refine .inl (hrule.kind_of_return_mem ?_)
    rw [String.toList_ofList]
    exact List.mem_of_getElem? hchar
  · rw [hillegal, List.take_zero] at hchar
    cases n with
    | succ n => cases hchar
    | zero =>
        cases hchar
        have hplace : t.location = ⟨line, m + 1⟩ := by
          rw [← hline, hn]
          rfl
        rw [Lexeme.token, hillegal, hplace]
        exact .inr rfl

theorem tokenize_joined {ls ls' : List (String × Bool)}
    (hls : ∀ l ∈ ls, '\n' ∉ l.1.toList ∧ l.1.toList.getLast? ≠ some '\r')
    (hfst : ls.map Prod.fst = ls'.map Prod.fst) :
    tokenize (Text.joined ls) = tokenize (Text.joined ls') := by
  by_cases hne : ls = []
  · subst hne
    rw [List.map_eq_nil_iff.1 hfst.symm]
  · have hne' : ls' ≠ [] := by
      rintro rfl
      exact hne (List.map_eq_nil_iff.1 hfst)
    have hls' : ∀ l ∈ ls', '\n' ∉ l.1.toList ∧ l.1.toList.getLast? ≠ some '\r' := by
      intro l hl
      have hmem : l.1 ∈ ls.map Prod.fst := hfst ▸ List.mem_map_of_mem hl
      obtain ⟨l', hl', heq⟩ := List.mem_map.1 hmem
      exact heq ▸ hls l' hl'
    rw [tokenize, Text.lines_joined hne hls, hfst, tokenize, Text.lines_joined hne' hls']

/-- Which line breaks have a carriage return makes no difference. Any other carriage return is an
illegal token, or it stands in a string or in a comment. -/
theorem tokenize_carriageReturns :
    (∀ ls ls' : List (String × Bool),
      (∀ l ∈ ls, '\n' ∉ l.1.toList ∧ l.1.toList.getLast? ≠ some '\r') →
      ls.map Prod.fst = ls'.map Prod.fst →
      tokenize (Text.joined ls) = tokenize (Text.joined ls')) ∧
    ∀ (source : String) (i m : Nat), (Text.lineAt source i)[m]? = some '\r' →
      ⟨.illegal, "\r", ⟨i, m + 1⟩⟩ ∈ tokenize source ∨
      (∃ t ∈ tokenize source, t.kind = .string ∧ t.location.line = i ∧
        t.location.column ≤ m + 1 ∧ m + 1 < t.stop) ∨
      ∃ k < m, (Text.lineAt source i)[k]? = some '#' ∧
        ∀ t ∈ tokenize source, t.location.line = i → t.stop ≤ k + 1 := by
  refine ⟨fun ls ls' => tokenize_joined, fun source i m hreturn => ?_⟩
  rcases covered_or_skipped i 1 _ m '\r' hreturn with h | ⟨t, ht, hstart, hstop⟩ |
    ⟨k, hk, hmark, hbefore⟩
  · cases h
  · have hline := line_of_mem_tokensFrom ht
    have hmem : t ∈ tokenize source := by
      rwa [mem_tokenize_iff_of_not_layout (isLayout_of_mem_tokensFrom ht), hline]
    rw [Nat.add_comm 1 m] at hstart hstop
    rcases string_or_illegal_of_return ht hreturn hstart hstop with hstring | rfl
    · exact .inr (.inl ⟨t, hmem, hstring, hline, hstart, hstop⟩)
    · exact .inl hmem
  · have hne : k ≠ m := by
      rintro rfl
      simp [hreturn] at hmark
    refine .inr (.inr ⟨k, Nat.lt_of_le_of_ne hk hne, hmark, ?_⟩)
    intro t ht hline
    subst hline
    cases hlayout : t.kind.isLayout with
    | true =>
        obtain ⟨htext, hcolumn⟩ := layout_of_mem_tokenize ht hlayout
        simp [Token.stop, htext, hcolumn]
    | false =>
        have := hbefore t ((mem_tokenize_iff_of_not_layout hlayout).1 ht)
        omega

/-- A line of blanks and the last line can have a carriage return or not. Of two carriage returns at
the end of a line the first one is a token. -/
theorem tokenize_carriageReturns_mixed :
    tokenize "a\r\n  \nb\r" = tokenize "a\n  \r\nb" ∧
      (Text.lineAt "\r\r\nb" 1)[0]? = some '\r' ∧
      (⟨.illegal, "\r", ⟨1, 1⟩⟩ : Token) ∈ tokenize "\r\r\nb" := by
  have hline : Text.lineAt "\r\r\nb" 1 = ['\r'] := by decide
  have hreturn : (Text.lineAt "\r\r\nb" 1)[0]? = some '\r' := by rw [hline]; rfl
  have hbreaks := tokenize_carriageReturns.1 [("a", true), ("  ", false), ("b", true)]
    [("a", false), ("  ", true), ("b", false)] (by decide) rfl
  refine ⟨?_, hreturn, ?_⟩
  · have hleft : Text.joined [("a", true), ("  ", false), ("b", true)] = "a\r\n  \nb\r" := by decide
    have hright : Text.joined [("a", false), ("  ", true), ("b", false)] = "a\n  \r\nb" := by decide
    rwa [hleft, hright] at hbreaks
  · rcases tokenize_carriageReturns.2 _ 1 0 hreturn with h | ⟨t, ht, hk, hplace, -⟩ | ⟨k, hk, -⟩
    · exact h
    · rw [mem_tokenize_iff_of_not_layout (by rw [hk]; rfl), hplace, hline] at ht
      obtain ⟨front, c, rest, hsplit, rfl⟩ := exists_of_mem_tokensFrom ht
      obtain ⟨-, rfl, rfl⟩ : front = [] ∧ c = '\r' ∧ rest = [] := by
        simpa [List.singleton_eq_append_iff] using hsplit
      cases hk
    · cases hk

end IndentScript
