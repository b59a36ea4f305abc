import IndentScript.Proofs.Determined
import IndentScript.Token.Source
import Mathlib.Data.List.TakeWhile

/-!
# How tokens are spelt

The texts that the tokens of a source can have, for the kinds whose text the rules ask for, and the
texts that are read back as one token. The two agree: names, digits, fractions and quoted texts.
-/

namespace IndentScript

/-! ## Spellings -/

/-- The words that are no names. -/
def reservedWords : List String :=
  ["and", "else", "false", "fn", "if", "is", "import", "let", "module", "nil", "not", "or", "return",
    "then", "true"]

/-- A letter or underscore and then letters, digits and underscores, but no reserved word. -/
structure IsName (s : String) : Prop where
  shape : ∃ c rest, s.toList = c :: rest ∧ (c.isAlpha || c = '_') = true ∧
    ∀ d ∈ rest, (d.isAlphanum || d = '_') = true
  not_reserved : s ∉ reservedWords

/-- At least one digit, and nothing else. -/
structure AreDigits (text : List Char) : Prop where
  ne_nil : text ≠ []
  isDigit : ∀ c ∈ text, c.isDigit = true

/-- Digits on both sides of a point. -/
def IsFraction (s : String) : Prop :=
  ∃ whole places, s.toList = whole ++ '.' :: places ∧ AreDigits whole ∧ AreDigits places

/-- Characters of one line between quotes. -/
def IsQuoted (s : String) : Prop :=
  ∃ body, s.toList = '"' :: (body ++ ['"']) ∧ '"' ∉ body ∧ '\n' ∉ body

/-- How a token of the kind is spelt, if the rules ask for its text. -/
def Kind.Spells : Kind → String → Prop
  | ident => IsName
  | int => fun s => AreDigits s.toList
  | float => IsFraction
  | string => IsQuoted
  | _ => fun _ => True

theorem Kind.spells_of_hasText {k : Kind} (h : k.hasText = false) (s : String) : k.Spells s := by
  cases k <;> trivial

/-! ## Words -/

/-- The reserved words and their kinds: the words of statements, of values and of operators. -/
def Lexeme.words : List (String × Kind) :=
  [("let", .letWord), ("if", .ifWord), ("then", .thenWord), ("else", .elseWord), ("fn", .fnWord),
    ("return", .returnWord), ("module", .moduleWord), ("import", .importWord),
    ("true", .trueWord), ("false", .falseWord), ("nil", .nilWord),
    ("and", .and), ("or", .or), ("is", .is), ("not", .not)]

theorem Lexeme.words_perm_keywords : words.Perm Kind.keywords := by
  decide

theorem Kind.hasText_ofWord : ∀ s ∈ reservedWords, (Kind.ofWord s).hasText = false := by
  decide

theorem Kind.ofWord_of_not_reserved {s : String} (h : s ∉ reservedWords) :
    Kind.ofWord s = .ident := by
  have hkeywords : ∀ p ∈ Kind.keywords, p.1 ∈ reservedWords := by decide
  have hnone : Kind.keywords.lookup s = none := by
    rw [List.lookup_eq_none_iff]
    intro p hp
    have hne : s ≠ p.1 := fun hs => h (hs ▸ hkeywords p hp)
    simpa using hne
  rw [Kind.ofWord, hnone]
  rfl

theorem takeWhile_eq_nil {p : Char → Bool} {rest : List Char} (h : ∀ c ∈ rest.head?, p c = false) :
    rest.takeWhile p = [] := by
  cases rest with
  | nil => rfl
  | cons c rest => simp [h c rfl]

/-- A text of one class of characters ends where another character follows. -/
theorem takeWhile_append_stop {p : Char → Bool} {text : List Char} (htext : ∀ c ∈ text, p c = true)
    (rest : List Char) (hrest : rest.takeWhile p = []) :
    (text ++ rest).takeWhile p = text ∧ (text ++ rest).dropWhile p = rest := by
  have htake : (text ++ rest).takeWhile p = text := by
    rw [List.takeWhile_append_of_pos htext, hrest, List.append_nil]
  have hsplit := List.takeWhile_append_dropWhile (p := p) (l := text ++ rest)
  rw [htake] at hsplit
  exact ⟨htake, List.append_cancel_left hsplit⟩

/-- A text of one class of characters is determined by what it begins, and so is what follows it,
if that begins with another character. -/
theorem append_inj_of_stop {p : Char → Bool} {text text' rest rest' : List Char}
    (htext : ∀ c ∈ text, p c = true) (htext' : ∀ c ∈ text', p c = true)
    (hrest : ∀ c ∈ rest.head?, p c = false) (hrest' : ∀ c ∈ rest'.head?, p c = false)
    (h : text ++ rest = text' ++ rest') : text = text' ∧ rest = rest' := by
  have htake := congrArg (List.takeWhile p) h
  rw [(takeWhile_append_stop htext rest (takeWhile_eq_nil hrest)).1,
    (takeWhile_append_stop htext' rest' (takeWhile_eq_nil hrest')).1] at htake
  subst htake
  exact ⟨rfl, List.append_cancel_left h⟩

namespace Lexeme

theorem take_length_takeWhile (p : Char → Bool) (cs : List Char) :
    cs.take (cs.takeWhile p).length = cs.takeWhile p :=
  (List.prefix_iff_eq_take.1 (List.takeWhile_prefix p)).symm

theorem word_spells {c : Char} (hc : startsWord c = true) (rest : List Char) :
    (word c rest).kind.Spells (String.ofList (c :: rest.take (word c rest).more)) := by
  have htake : rest.take (word c rest).more = rest.takeWhile continuesWord :=
    take_length_takeWhile continuesWord rest
  rw [htake]
  by_cases hs : String.ofList (c :: rest.takeWhile continuesWord) ∈ reservedWords
  · exact Kind.spells_of_hasText (Kind.hasText_ofWord _ hs) _
  · have hk : (word c rest).kind = .ident := Kind.ofWord_of_not_reserved hs
    have htail : ∀ d ∈ rest.takeWhile continuesWord, continuesWord d = true :=
      fun d hd => List.mem_takeWhile_imp hd
    rw [hk]
    exact ⟨⟨c, _, String.toList_ofList, hc, htail⟩, hs⟩

theorem areDigits_cons_takeWhile {c : Char} (hc : c.isDigit = true) (cs : List Char) :
    AreDigits (c :: cs.takeWhile Char.isDigit) := by
  refine ⟨List.cons_ne_nil _ _, fun d hd => ?_⟩
  cases hd with
  | head => exact hc
  | tail _ hd => exact List.mem_takeWhile_imp hd

theorem number_spells {c : Char} (hc : c.isDigit = true) (rest : List Char) :
    (number rest).kind.Spells (String.ofList (c :: rest.take (number rest).more)) := by
  have hint : Kind.int.Spells
      (String.ofList (c :: rest.take (rest.takeWhile Char.isDigit).length)) := by
    rw [take_length_takeWhile]
    simpa [Kind.Spells] using areDigits_cons_takeWhile hc rest
  rw [number]
  split
  · next fraction hrest =>
    split
    · exact hint
    · next digits hdigits =>
      have hplaces : fraction.take (digits + 1) = fraction.takeWhile Char.isDigit := by
        rw [← take_length_takeWhile Char.isDigit fraction, hdigits]
      have htake : rest.take ((rest.takeWhile Char.isDigit).length + 1 + (digits + 1)) =
          rest.takeWhile Char.isDigit ++ '.' :: fraction.takeWhile Char.isDigit := by
        have hwhole : rest = rest.takeWhile Char.isDigit ++ '.' :: fraction := by
          rw [← hrest, List.takeWhile_append_dropWhile]
        generalize rest.takeWhile Char.isDigit = whole at hwhole ⊢
        rw [hwhole, Nat.add_assoc, List.take_length_add_append, Nat.add_comm 1, List.take_succ_cons,
          hplaces]
      rw [htake]
      refine ⟨c :: rest.takeWhile Char.isDigit, fraction.takeWhile Char.isDigit, by simp,
        areDigits_cons_takeWhile hc rest, ?_, fun d hd => List.mem_takeWhile_imp hd⟩
      intro hnil
      simp [hnil] at hdigits
  · exact hint

/-- A quoted text ends at the first quote after the opening one. -/
theorem idxOf?_quote {body : List Char} (hbody : '"' ∉ body) (after : List Char) :
    (body ++ '"' :: after).idxOf? '"' = some body.length := by
  rw [List.idxOf?_eq_some_iff]
  refine ⟨by simp, by simp, fun j hj hget => ?_⟩
  rw [List.getElem_append_left hj] at hget
  exact hbody (hget ▸ List.getElem_mem hj)

/-- Up to the first quote and with it, a text is one without quotes and a quote. -/
theorem take_quote {rest : List Char} {i : Nat} (hi : rest.idxOf? '"' = some i) :
    rest.take (i + 1) = rest.take i ++ ['"'] ∧ '"' ∉ rest.take i := by
  obtain ⟨hlt, hquote, hbefore⟩ := List.idxOf?_eq_some_iff.1 hi
  refine ⟨by rw [List.take_succ_eq_append_getElem hlt, hquote], fun hmem => ?_⟩
  obtain ⟨j, hj, hget⟩ := List.mem_iff_getElem.1 hmem
  rw [List.length_take] at hj
  exact hbefore j (by omega) (by simpa using hget)

theorem string_spells {rest : List Char} (hline : '\n' ∉ rest) :
    (string rest).kind.Spells (String.ofList ('"' :: rest.take (string rest).more)) := by
  rw [string]
  split
  · next i hi =>
    obtain ⟨htake, hbody⟩ := take_quote hi
    refine ⟨rest.take i, by rw [htake]; simp, hbody, fun hmem => ?_⟩
    exact hline (List.mem_of_mem_take hmem)
  · trivial

/-- The operators and the punctuation marks. -/
def operators : List (String × Kind) :=
  [("==", .equal), ("!=", .notEqual), ("<=", .lessEqual), (">=", .greaterEqual),
    ("+=", .plusAssign), ("-=", .minusAssign), ("*=", .starAssign), ("/=", .slashAssign),
    ("&&", .and), ("||", .or), ("=", .assign), ("!", .bang), ("<", .less), (">", .greater),
    ("+", .plus), ("-", .minus), ("*", .star), ("/", .slash), ("%", .percent), (",", .comma),
    (";", .semicolon), (":", .colon), ("(", .leftParen), (")", .rightParen),
    ("\x7b", .leftBrace), ("\x7d", .rightBrace), ("[", .leftBracket), ("]", .rightBracket)]

theorem mem_operators_of_pair? {c d : Char} {k : Kind} (h : pair? c d = some k) :
    (String.ofList [c, d], k) ∈ operators := by
  unfold pair? at h
  split at h <;> cases h <;> decide

theorem mem_operators_of_single? {c : Char} {k : Kind} (h : single? c = some k) :
    (String.ofList [c], k) ∈ operators := by
  unfold single? at h
  split at h <;> cases h <;> decide

theorem hasText_symbol (c : Char) (rest : List Char) : (symbol c rest).kind.hasText = false := by
  have hoperators : ∀ p ∈ operators, p.2.hasText = false := by decide
  rw [symbol]
  split
  · next k hk =>
    obtain ⟨d, -, hd⟩ := Option.bind_eq_some_iff.1 hk
    exact hoperators _ (mem_operators_of_pair? hd)
  · cases hk : single? c with
    | none => rfl
    | some k => exact hoperators _ (mem_operators_of_single? hk)

/-- The text of a lexeme is a spelling of its kind. -/
theorem read_spells {c : Char} {rest : List Char} (hline : '\n' ∉ rest) :
    (read c rest).kind.Spells (String.ofList (c :: rest.take (read c rest).more)) := by
  rw [read]
  split
  · next hc => exact word_spells hc rest
  · split
    · next hc => exact number_spells hc rest
    · split
      · next hc =>
        subst hc
        exact string_spells hline
      · exact Kind.spells_of_hasText (hasText_symbol c rest) _

end Lexeme

/-! ## The tokens of a source -/

/-- The text of the token is a spelling of its kind. -/
def Token.Spelled (t : Token) : Prop :=
  t.kind.Spells t.text

theorem spelled_of_mem_tokensFrom {line column : Nat} {cs : List Char} (hline : '\n' ∉ cs)
    {t : Token} (ht : t ∈ tokensFrom line column cs) : t.Spelled := by
  induction column, cs using tokensFrom.induct with
  | case1 => simp [tokensFrom] at ht
  | case2 column c rest hblank ih =>
      rw [tokensFrom, if_pos hblank] at ht
      exact ih (fun h => hline (List.mem_cons_of_mem c h)) ht
  | case3 column rest hblank =>
      rw [tokensFrom, if_neg hblank, if_pos rfl] at ht
      cases ht
  | case4 column c rest hblank hmark lexeme ih =>
      have hrest : '\n' ∉ rest := fun h => hline (List.mem_cons_of_mem c h)
      rw [tokensFrom, if_neg hblank, if_neg hmark] at ht
      cases ht with
      | head => exact Lexeme.read_spells hrest
      | tail _ ht => exact ih (fun h => hrest (List.mem_of_mem_drop h)) ht

theorem spelled_of_mem_tokensOfLines {line : Nat} {blocks : Indentation} {lines : List (List Char)}
    (hlines : ∀ cs ∈ lines, '\n' ∉ cs) {t : Token} (ht : t ∈ tokensOfLines line blocks lines) :
    t.Spelled := by
  have hclosings : ∀ line n, t ∈ closings line n → t.Spelled := by
    intro line n hmem
    obtain ⟨-, rfl⟩ := List.mem_replicate.1 hmem
    trivial
  induction lines generalizing line blocks with
  | nil =>
      rw [tokensOfLines, List.mem_append, List.mem_singleton] at ht
      rcases ht with ht | rfl
      · exact hclosings _ _ ht
      · trivial
  | cons cs lines ih =>
      rw [tokensOfLines, List.mem_append, List.mem_append] at ht
      rcases ht with (ht | ht) | ht
      · cases hchange : blocks.change (Text.indentWidth cs) with
        | opened =>
            rw [hchange] at ht
            cases List.mem_singleton.1 ht
            trivial
        | closed count =>
            rw [hchange] at ht
            exact hclosings _ _ ht
      · exact spelled_of_mem_tokensFrom (hlines cs List.mem_cons_self) ht
      · exact ih (fun cs h => hlines cs (List.mem_cons_of_mem _ h)) ht

theorem not_mem_of_mem_splitOn {a : Char} {cs line : List Char} (h : line ∈ cs.splitOn a) :
    a ∉ line := by
  induction cs generalizing line with
  | nil =>
      cases List.mem_singleton.1 (List.splitOn_nil a ▸ h)
      exact List.not_mem_nil
  | cons c cs ih =>
      rw [List.splitOn_cons_eq_if_modifyHead] at h
      split at h
      · cases h with
        | head => exact List.not_mem_nil
        | tail _ h => exact ih h
      · next hc =>
        cases hsplit : cs.splitOn a with
        | nil => exact absurd hsplit (List.splitOn_ne_nil a cs)
        | cons first rest =>
            rw [hsplit] at h
            cases h with
            | head =>
                have hfirst : a ∉ first := ih (by simp [hsplit])
                intro ha
                cases ha with
                | head => exact hc (beq_self_eq_true a)
                | tail _ ha => exact hfirst ha
            | tail _ h => exact ih (hsplit ▸ List.mem_cons_of_mem first h)

theorem not_newline_of_mem_lines {source : String} {cs : List Char} (h : cs ∈ Text.lines source) :
    '\n' ∉ cs := by
  obtain ⟨line, hline, rfl⟩ := List.mem_map.1 h
  have hnot := not_mem_of_mem_splitOn hline
  rw [Text.dropReturn]
  split
  · exact fun hmem => hnot (line.dropLast_subset hmem)
  · exact hnot

theorem spelled_of_mem_tokenize {source : String} {t : Token} (ht : t ∈ tokenize source) :
    t.Spelled :=
  spelled_of_mem_tokensOfLines (fun _ h => not_newline_of_mem_lines h) ht

/-! ## Texts that are read as one token -/

theorem Lexeme.not_startsWord_of_isDigit {c : Char} (hc : c.isDigit = true) :
    ¬startsWord c = true := by
  intro hword
  have hletter : (decide (c.val ≥ 'A'.val ∧ c.val ≤ 'Z'.val) ||
      (c.val ≥ 'a'.val && c.val ≤ 'z'.val) || c = '_') = true := hword
  have hdigit : (c.val ≥ '0'.val && c.val ≤ '9'.val) = true := hc
  simp only [Bool.or_eq_true, Bool.and_eq_true, decide_eq_true_eq, ge_iff_le,
    UInt32.le_iff_toNat_le, Char.reduceVal, UInt32.reduceToNat] at hletter hdigit
  rcases hletter with (hupper | hlower) | rfl
  · omega
  · omega
  · exact absurd hdigit.2 (by decide)

theorem Lexeme.continuesWord_of_startsWord {c : Char} (h : startsWord c = true) :
    continuesWord c = true := by
  simp only [startsWord, continuesWord, Char.isAlphanum, Bool.or_eq_true] at h ⊢
  tauto

/-- Whether the text is read as one token of the kind and no more, and can end a line. -/
def Lexeme.isText (kind : Kind) : List Char → Bool
  | [] => false
  | c :: rest =>
    read c rest = ⟨kind, rest.length⟩ && !Text.isBlank c && c ≠ '#' && !(c :: rest).contains '\n' &&
      (c :: rest).getLast? ≠ some '\r'

/-- The token can be written down on a line of its own. -/
def Token.Writable (t : Token) : Prop :=
  Lexeme.isText t.kind t.text.toList = true

theorem Token.writable_iff {t : Token} :
    t.Writable ↔ ∃ c rest, t.text.toList = c :: rest ∧ Lexeme.read c rest = ⟨t.kind, rest.length⟩ ∧
      Text.isBlank c = false ∧ c ≠ '#' ∧ '\n' ∉ c :: rest ∧ (c :: rest).getLast? ≠ some '\r' := by
  rw [Writable]
  cases t.text.toList with
  | nil => simp [Lexeme.isText]
  | cons c rest => simp [Lexeme.isText, and_assoc]

namespace Kind

/-- Whether the tokens of the kind are all the same, up to synonyms. -/
def isFixed : Kind → Bool
  | eof | indent | dedent | ident | int | float | string | illegal => false
  | _ => true

/-- How a token of such a kind is written. -/
def spelling : Kind → String
  | trueWord => "true"
  | falseWord => "false"
  | nilWord => "nil"
  | fnWord => "fn"
  | moduleWord => "module"
  | importWord => "import"
  | letWord => "let"
  | ifWord => "if"
  | thenWord => "then"
  | elseWord => "else"
  | returnWord => "return"
  | and => "and"
  | or => "or"
  | is => "is"
  | not => "not"
  | k => k.name

/-- A token of such a kind. -/
def token (k : Kind) : Token := ⟨k, k.spelling, ⟨1, 1⟩⟩

theorem writable_token {k : Kind} (h : k.isFixed = true) : k.token.Writable := by
  cases k <;> first | rfl | cases h

end Kind

namespace Token

/-- What consists of letters, digits, underscores and points can stand anywhere on a line. -/
theorem writable_of_plain {t : Token} {c : Char} {rest : List Char} (ht : t.text.toList = c :: rest)
    (hread : Lexeme.read c rest = ⟨t.kind, rest.length⟩)
    (hplain : ∀ d ∈ c :: rest, (Lexeme.continuesWord d || d = '.') = true) : t.Writable := by
  have hnot : ∀ x, (Lexeme.continuesWord x || x = '.') = false → x ∉ c :: rest := by
    intro x hx hmem
    rw [hplain x hmem] at hx
    cases hx
  refine writable_iff.2 ⟨c, rest, ht, hread, ?_, ?_, hnot '\n' rfl, fun hlast => ?_⟩
  · cases hblank : Text.isBlank c with
    | false => rfl
    | true =>
        simp only [Text.isBlank, Bool.or_eq_true, decide_eq_true_eq] at hblank
        rcases hblank with rfl | rfl
        · exact absurd List.mem_cons_self (hnot ' ' rfl)
        · exact absurd List.mem_cons_self (hnot '\t' rfl)
  · rintro rfl
    exact absurd List.mem_cons_self (hnot '#' rfl)
  · exact hnot '\r' rfl (List.mem_of_getLast? hlast)

theorem writable_ident {s : String} (h : IsName s) (l : Location) : Writable ⟨.ident, s, l⟩ := by
  obtain ⟨⟨c, rest, hs, hc, hrest⟩, hreserved⟩ := h
  have hread : Lexeme.read c rest = ⟨.ident, rest.length⟩ := by
    have htake : rest.takeWhile Lexeme.continuesWord = rest := List.takeWhile_eq_self_iff.2 hrest
    have hword : String.ofList (c :: rest) = s := by rw [← hs, String.ofList_toList]
    have hstart : Lexeme.startsWord c = true := hc
    rw [Lexeme.read, if_pos hstart, Lexeme.word, htake, hword, Kind.ofWord_of_not_reserved hreserved]
  refine writable_of_plain hs hread fun d hd => ?_
  cases hd with
  | head => simp [Lexeme.continuesWord_of_startsWord hc]
  | tail _ hd =>
      have hcontinue : Lexeme.continuesWord d = true := hrest d hd
      simp [hcontinue]

theorem read_of_isDigit {c : Char} (hc : c.isDigit = true) (rest : List Char) :
    Lexeme.read c rest = Lexeme.number rest := by
  rw [Lexeme.read, if_neg (Lexeme.not_startsWord_of_isDigit hc), if_pos hc]

theorem plain_of_isDigit {c : Char} (hc : c.isDigit = true) :
    (Lexeme.continuesWord c || c = '.') = true := by
  simp [Lexeme.continuesWord, Char.isAlphanum, hc]

theorem writable_int {s : String} (h : AreDigits s.toList) (l : Location) :
    Writable ⟨.int, s, l⟩ := by
  obtain ⟨c, rest, hs⟩ := List.exists_cons_of_ne_nil h.ne_nil
  have hdigit := h.isDigit
  rw [hs] at hdigit
  have hrest : ∀ d ∈ rest, d.isDigit = true := fun d hd => hdigit d (List.mem_cons_of_mem c hd)
  refine writable_of_plain hs ?_ fun d hd => plain_of_isDigit (hdigit d hd)
  have htake : rest.takeWhile Char.isDigit = rest := List.takeWhile_eq_self_iff.2 hrest
  have hdrop : rest.dropWhile Char.isDigit = [] := List.dropWhile_eq_nil_iff.2 hrest
  rw [read_of_isDigit (hdigit c List.mem_cons_self), Lexeme.number, htake, hdrop]

theorem writable_float {s : String} (h : IsFraction s) (l : Location) :
    Writable ⟨.float, s, l⟩ := by
  obtain ⟨whole, places, hs, hwhole, hplaces⟩ := h
  obtain ⟨c, rest, rfl⟩ := List.exists_cons_of_ne_nil hwhole.ne_nil
  have hrest : ∀ d ∈ rest, d.isDigit = true :=
    fun d hd => hwhole.isDigit d (List.mem_cons_of_mem c hd)
  have hs' : s.toList = c :: (rest ++ '.' :: places) := hs
  refine writable_of_plain hs' ?_ fun d hd => ?_
  · have htake : (rest ++ '.' :: places).takeWhile Char.isDigit = rest := by
      rw [List.takeWhile_append_of_pos hrest, List.takeWhile_cons_of_neg (by decide), List.append_nil]
    have hdrop : (rest ++ '.' :: places).dropWhile Char.isDigit = '.' :: places := by
      rw [List.dropWhile_append_of_pos hrest, List.dropWhile_cons_of_neg (by decide)]
    have hplaces' : places.takeWhile Char.isDigit = places :=
      List.takeWhile_eq_self_iff.2 hplaces.isDigit
    obtain ⟨n, hn⟩ := Nat.exists_eq_add_one.2 (List.length_pos_iff.2 hplaces.ne_nil)
    rw [read_of_isDigit (hwhole.isDigit c List.mem_cons_self), Lexeme.number, htake, hdrop]
    simp only [hplaces', hn, List.length_append, List.length_cons]
    rw [Nat.add_assoc, Nat.add_comm 1]
  · rw [← List.cons_append] at hd
    rcases List.mem_append.1 hd with hd | hd
    · exact plain_of_isDigit (hwhole.isDigit d hd)
    · cases hd with
      | head => rfl
      | tail _ hd => exact plain_of_isDigit (hplaces.isDigit d hd)

theorem writable_string {s : String} (h : IsQuoted s) (l : Location) :
    Writable ⟨.string, s, l⟩ := by
  obtain ⟨body, hs, hquote, hline⟩ := h
  refine writable_iff.2 ⟨'"', body ++ ['"'], hs, ?_, rfl, by decide, ?_, ?_⟩
  · have hread : ∀ rest, Lexeme.read '"' rest = Lexeme.string rest := fun _ => rfl
    rw [hread, Lexeme.string, Lexeme.idxOf?_quote hquote]
    simp
  · simp [hline]
  · rw [← List.cons_append, List.getLast?_concat]
    decide

end Token

end IndentScript
