import IndentScript.Proofs.Lines
import IndentScript.Proofs.Lookahead
import IndentScript.Proofs.WellFormed

/-!
# Laying tokens out

Any run of tokens that derives statements is, up to places, the tokens of some source: every token
gets a line of its own, as deep as there are open blocks around it, and a bracket of a block is a
line of blanks that is one deeper or one shallower than the line before. So every well-formed
program has a source, and by the spelling of tokens no other program has one.
-/

namespace IndentScript

open Grammar

/-! ## Depths -/

namespace Indentation

/-- The open blocks at a depth, when each is one deeper than the one around it. -/
def nested : Nat → Indentation
  | 0 => []
  | depth + 1 => (depth + 1) :: nested depth

theorem headD_nested (depth : Nat) : (nested depth).headD 0 = depth := by
  cases depth <;> rfl

theorem takeWhile_nested (depth : Nat) : (nested depth).takeWhile (fun w => depth < w) = [] := by
  cases depth <;> simp [nested]

theorem dropWhile_nested (depth : Nat) :
    (nested depth).dropWhile (fun w => depth < w) = nested depth := by
  cases depth <;> simp [nested]

theorem change_same (depth : Nat) : (nested depth).change depth = .closed 0 := by
  rw [change, headD_nested, if_neg (Nat.lt_irrefl _), takeWhile_nested]
  rfl

theorem afterLine_same (depth : Nat) : (nested depth).afterLine depth = nested depth := by
  rw [afterLine, headD_nested, if_neg (Nat.lt_irrefl _), dropWhile_nested]

theorem change_deeper (depth : Nat) : (nested depth).change (depth + 1) = .opened := by
  rw [change, headD_nested, if_pos (Nat.lt_add_one _)]

theorem afterLine_deeper (depth : Nat) :
    (nested depth).afterLine (depth + 1) = nested (depth + 1) := by
  rw [afterLine, headD_nested, if_pos (Nat.lt_add_one _)]
  rfl

theorem change_shallower (depth : Nat) : (nested (depth + 1)).change depth = .closed 1 := by
  have hopen : (nested (depth + 1)).takeWhile (fun w => depth < w) = [depth + 1] := by
    rw [nested, List.takeWhile_cons_of_pos (by simp), takeWhile_nested]
  rw [change, headD_nested, if_neg (by omega), hopen]
  rfl

theorem afterLine_shallower (depth : Nat) :
    (nested (depth + 1)).afterLine depth = nested depth := by
  rw [afterLine, headD_nested, if_neg (by omega), nested, List.dropWhile_cons_of_pos (by simp),
    dropWhile_nested]

end Indentation

/-! ## Lines -/

/-- A run of blanks. -/
abbrev blanks (n : Nat) : List Char :=
  List.replicate n ' '

theorem isBlank_of_mem_blanks {n : Nat} : ∀ c ∈ blanks n, Text.isBlank c = true := by
  intro c hc
  rw [(List.mem_replicate.1 hc).2]
  rfl

theorem indentWidth_blanks_append (n : Nat) {cs : List Char} (h : cs.takeWhile Text.isBlank = []) :
    Text.indentWidth (blanks n ++ cs) = n := by
  rw [Text.indentWidth, List.takeWhile_append_of_pos isBlank_of_mem_blanks, h]
  simp

theorem indentWidth_blanks (n : Nat) : Text.indentWidth (blanks n) = n := by
  simpa using indentWidth_blanks_append n List.takeWhile_nil

theorem tokensFrom_blanks_append (line column n : Nat) (cs : List Char) :
    tokensFrom line column (blanks n ++ cs) = tokensFrom line (column + n) cs := by
  rw [tokensFrom_blank_append isBlank_of_mem_blanks, List.length_replicate]

theorem tokensFrom_blanks (line column n : Nat) : tokensFrom line column (blanks n) = [] := by
  simpa [tokensFrom] using tokensFrom_blanks_append line column n []

/-- A line that holds one token, at some depth. -/
theorem tokensFrom_writable {t : Token} (ht : t.Writable) (line depth : Nat) :
    tokensFrom line 1 (blanks depth ++ t.text.toList) =
      [⟨t.kind, t.text, ⟨line, 1 + depth⟩⟩] := by
  obtain ⟨c, rest, htext, hread, hblank, hmark, -⟩ := Token.writable_iff.1 ht
  have hword : String.ofList (c :: rest) = t.text := by rw [← htext, String.ofList_toList]
  rw [tokensFrom_blanks_append, htext, tokensFrom, if_neg (by simp [hblank]), if_neg hmark]
  simp [hread, hword, tokensFrom]

/-! ## Layouts -/

/-- The lines for a run of tokens from the given depth on, with an empty line at the end. -/
def layout : Nat → List Token → List (List Char)
  | _, [] => [[]]
  | depth, t :: rest =>
    match t.kind with
    | .indent => blanks (depth + 1) :: layout (depth + 1) rest
    | .dedent => blanks (depth - 1) :: layout (depth - 1) rest
    | _ => (blanks depth ++ t.text.toList) :: layout depth rest

/-- Laid out at any depth, the tokens are read back and the depth is the same after them. -/
def LaysOut (w : List Token) : Prop :=
  ∀ depth line rest, ∃ w', List.Forall₂ Token.Alike w w' ∧
    tokensOfLines line (.nested depth) (layout depth (w ++ rest)) =
      w' ++ tokensOfLines (line + w.length) (.nested depth) (layout depth rest)

namespace LaysOut

theorem nil : LaysOut [] :=
  fun _ _ _ => ⟨[], .nil, rfl⟩

theorem append {w v : List Token} (hw : LaysOut w) (hv : LaysOut v) : LaysOut (w ++ v) := by
  intro depth line rest
  obtain ⟨w', hw', hread⟩ := hw depth line (v ++ rest)
  obtain ⟨v', hv', hread'⟩ := hv depth (line + w.length) rest
  refine ⟨w' ++ v', List.rel_append hw' hv', ?_⟩
  rw [List.append_assoc, hread, hread', List.length_append, List.append_assoc, Nat.add_assoc]

theorem single {t : Token} (hk : t.kind.isLayout = false) (ht : t.Writable) : LaysOut [t] := by
  intro depth line rest
  have hline := tokensFrom_writable ht line depth
  obtain ⟨c, cs, htext, -, hblank, -⟩ := Token.writable_iff.1 ht
  have hwidth : Text.indentWidth (blanks depth ++ t.text.toList) = depth := by
    apply indentWidth_blanks_append
    rw [htext, List.takeWhile_cons_of_neg (by simp [hblank])]
  have hlayout : layout depth ([t] ++ rest) =
      (blanks depth ++ t.text.toList) :: layout depth rest := by
    rw [List.singleton_append, layout]
    split
    · next hi => simp [hi, Kind.isLayout] at hk
    · next hd => simp [hd, Kind.isLayout] at hk
    · rfl
  refine ⟨[⟨t.kind, t.text, ⟨line, 1 + depth⟩⟩], .cons ⟨rfl, fun _ => rfl⟩ .nil, ?_⟩
  rw [hlayout, tokensOfLines]
  simp only [hwidth, hline, Indentation.change_same, Indentation.afterLine_same]
  rfl

theorem block {w : List Token} {i d : Token} (hi : i.kind = .indent) (hd : d.kind = .dedent)
    (hw : LaysOut w) : LaysOut (i :: (w ++ [d])) := by
  intro depth line rest
  obtain ⟨w', hw', hread⟩ := hw (depth + 1) (line + 1) (d :: rest)
  have hopen : layout depth (i :: (w ++ [d]) ++ rest) =
      blanks (depth + 1) :: layout (depth + 1) (w ++ d :: rest) := by
    simp [layout, hi]
  have hclose : layout (depth + 1) (d :: rest) = blanks depth :: layout depth rest := by
    simp [layout, hd]
  refine ⟨⟨.indent, "", ⟨line, 1⟩⟩ :: (w' ++ [⟨.dedent, "", ⟨line + 1 + w.length, 1⟩⟩]), ?_, ?_⟩
  · have hi' : i.Alike ⟨.indent, "", ⟨line, 1⟩⟩ := ⟨by rw [hi], by simp [hi, Kind.hasText]⟩
    have hd' : d.Alike ⟨.dedent, "", ⟨line + 1 + w.length, 1⟩⟩ :=
      ⟨by rw [hd], by simp [hd, Kind.hasText]⟩
    exact .cons hi' (List.rel_append hw' (.cons hd' .nil))
  · have hlength : line + (i :: (w ++ [d])).length = line + 1 + w.length + 1 := by
      simp only [List.length_cons, List.length_append, List.length_nil]
      omega
    rw [hopen, tokensOfLines, hlength]
    simp only [indentWidth_blanks, tokensFrom_blanks, Indentation.change_deeper,
      Indentation.afterLine_deeper, hread]
    rw [hclose, tokensOfLines]
    simp only [indentWidth_blanks, tokensFrom_blanks, Indentation.change_shallower,
      Indentation.afterLine_shallower]
    simp [Indentation.Change.tokens, closings]

theorem token {t : Token} (hk : t.kind.isLayout = false) (ht : t.Placeable) : LaysOut [t] := by
  rcases ht with hi | hd | hwritable
  · simp [hi, Kind.isLayout] at hk
  · simp [hd, Kind.isLayout] at hk
  · exact single hk hwritable

theorem cons {t : Token} {w : List Token} (hk : t.kind.isLayout = false) (ht : t.Placeable)
    (hw : LaysOut w) : LaysOut (t :: w) :=
  append (token hk ht) hw

end LaysOut

namespace Grammar

theorem Phrase.laysOut {level : Level} {w : List Token} {e : Expr} (h : Phrase level w e)
    (hw : ∀ t ∈ w, t.Placeable) : LaysOut w := by
  have hlayout := h.isLayout
  clear h
  induction w with
  | nil => exact .nil
  | cons t w ih =>
      exact .cons (hlayout t List.mem_cons_self) (hw t List.mem_cons_self)
        (ih (fun x hx => hw x (List.mem_cons_of_mem t hx))
          fun x hx => hlayout x (List.mem_cons_of_mem t hx))

theorem Entry.laysOut {w : List Token} {d : Declaration} (h : Entry w d)
    (hw : ∀ t ∈ w, t.Placeable) : LaysOut w := by
  cases h with
  | bare hx => exact .token (by rw [hx]; rfl) (hw _ List.mem_cons_self)
  | initialized hx hq he =>
      simp only [List.forall_mem_cons] at hw
      exact .cons (by rw [hx]; rfl) hw.1 (.cons (by rw [hq]; rfl) hw.2.1 (he.laysOut hw.2.2))

theorem Entries.laysOut {w : List Token} {ds : List Declaration} (h : Entries w ds)
    (hw : ∀ t ∈ w, t.Placeable) : LaysOut w := by
  induction h with
  | last hd => exact hd.laysOut hw
  | more hd hc _ ih =>
      simp only [List.forall_mem_append, List.forall_mem_cons] at hw
      exact .append (hd.laysOut hw.1) (.cons (by rw [hc]; rfl) hw.2.1 (ih hw.2.2))

mutual

theorem Sentence.laysOut {w : List Token} {s : Stmt} (h : Sentence w s)
    (hw : ∀ t ∈ w, t.Placeable) : LaysOut w := by
  match h with
  | .block hi hbody hd =>
      simp only [List.forall_mem_cons, List.forall_mem_append] at hw
      exact .block hi hd (hbody.laysOut hw.2.1)
  | .declare hl hds =>
      simp only [List.forall_mem_cons] at hw
      exact .cons (by rw [hl]; rfl) hw.1 (hds.laysOut hw.2)
  | .conditional hi hc ht hs =>
      simp only [List.forall_mem_cons, List.forall_mem_append] at hw
      obtain ⟨hif, hcond, hthen, hbody⟩ := hw
      exact .cons (by rw [hi]; rfl) hif (.append (hc.laysOut hcond)
        (.cons (by rw [ht]; rfl) hthen (hs.laysOut hbody)))
  | .alternative hi hc ht hs _ he ha =>
      simp only [List.forall_mem_cons, List.forall_mem_append] at hw
      obtain ⟨hif, hcond, hthen, hbody, helse, halt⟩ := hw
      exact .cons (by rw [hi]; rfl) hif (.append (hc.laysOut hcond)
        (.cons (by rw [ht]; rfl) hthen (.append (hs.laysOut hbody)
          (.cons (by rw [he]; rfl) helse (ha.laysOut halt)))))
  | .expression he => exact he.laysOut hw

theorem Sentences.laysOut {w : List Token} {ss : List Stmt} (h : Sentences w ss)
    (hw : ∀ t ∈ w, t.Placeable) : LaysOut w := by
  match h with
  | .nil => exact .nil
  | .cons hs hss =>
      rw [List.forall_mem_append] at hw
      exact .append (hs.laysOut hw.1) (hss.laysOut hw.2)

end

end Grammar

/-! ## Sources -/

theorem layout_ne_nil (depth : Nat) (w : List Token) : layout depth w ≠ [] := by
  cases w with
  | nil => exact List.cons_ne_nil _ _
  | cons t w =>
      rw [layout]
      split <;> exact List.cons_ne_nil _ _

/-- The lines of a layout are lines: they neither hold nor end in a line break. -/
theorem of_mem_layout {w : List Token} (hw : ∀ t ∈ w, t.Placeable) {depth : Nat} {line : List Char}
    (h : line ∈ layout depth w) : '\n' ∉ line ∧ line.getLast? ≠ some '\r' := by
  have hblanks : ∀ n c, c ∈ blanks n → c = ' ' := fun n c hc => (List.mem_replicate.1 hc).2
  have hblank : ∀ n, '\n' ∉ blanks n ∧ (blanks n).getLast? ≠ some '\r' := by
    refine fun n => ⟨fun hmem => ?_, fun hlast => ?_⟩
    · exact absurd (hblanks n _ hmem) (by decide)
    · exact absurd (hblanks n _ (List.mem_of_getLast? hlast)) (by decide)
  induction w generalizing depth with
  | nil =>
      cases List.mem_singleton.1 h
      exact ⟨List.not_mem_nil, by decide⟩
  | cons t w ih =>
      have hrest := fun x hx => hw x (List.mem_cons_of_mem t hx)
      rw [layout] at h
      split at h
      · cases h with
        | head => exact hblank _
        | tail _ h => exact ih hrest h
      · cases h with
        | head => exact hblank _
        | tail _ h => exact ih hrest h
      · next hi hd =>
        cases h with
        | head =>
            have hwritable := ((hw t List.mem_cons_self).resolve_left hi).resolve_left hd
            obtain ⟨c, cs, htext, -, -, -, hline, hlast⟩ := Token.writable_iff.1 hwritable
            rw [htext, List.mem_append]
            refine ⟨fun hmem => hmem.elim (hblank depth).1 hline, ?_⟩
            rwa [List.getLast?_append_of_ne_nil _ (List.cons_ne_nil c cs)]
        | tail _ h => exact ih hrest h

/-- A source for a run of tokens. -/
def sourceOf (w : List Token) : String :=
  String.ofList (['\n'].intercalate (layout 0 w))

example : sourceOf [⟨.indent, "", ⟨1, 1⟩⟩, ⟨.ident, "a", ⟨1, 1⟩⟩, ⟨.dedent, "", ⟨1, 1⟩⟩] =
    " \n a\n\n" := by decide

theorem lines_sourceOf {w : List Token} (hw : ∀ t ∈ w, t.Placeable) :
    Text.lines (sourceOf w) = layout 0 w := by
  have hsplit : (['\n'].intercalate (layout 0 w)).splitOn '\n' = layout 0 w :=
    List.splitOn_intercalate '\n' (fun _ h => (of_mem_layout hw h).1) (layout_ne_nil 0 w)
  have hkeep : ∀ line ∈ layout 0 w, Text.dropReturn line = line := by
    intro line h
    rw [Text.dropReturn, if_neg (of_mem_layout hw h).2]
  rw [Text.lines, sourceOf, String.toList_ofList, hsplit, List.map_congr_left hkeep, List.map_id']

/-- Tokens that lay out are those of their source, up to places and but for the end token. -/
theorem tokenize_sourceOf {w : List Token} (hw : LaysOut w) (hp : ∀ t ∈ w, t.Placeable) :
    ∃ w' t, tokenize (sourceOf w) = w' ++ [t] ∧ t.kind = .eof ∧ List.Forall₂ Token.Alike w w' := by
  obtain ⟨w', hw', hread⟩ := hw 0 1 []
  have hend : tokensOfLines (1 + w.length) (.nested 0) (layout 0 []) =
      [⟨.eof, "", ⟨1 + w.length + 1, 1⟩⟩] := by
    rw [layout, tokensOfLines, Text.indentWidth, List.takeWhile_nil, List.length_nil,
      Indentation.change_same, Indentation.afterLine_same, tokensFrom]
    rfl
  rw [List.append_nil, hend] at hread
  refine ⟨w', ⟨.eof, "", ⟨1 + w.length + 1, 1⟩⟩, ?_, rfl, hw'⟩
  rw [tokenize, lines_sourceOf hp]
  exact hread

namespace Program

theorem wellFormed_of_ofSource {source : String} {p : Program} (h : ofSource source = .ok p) :
    p.WellFormed := by
  obtain ⟨w, u, hs, -, -, hw⟩ := sentences_of_ofTokens h
  refine hw.wellFormed fun t ht => ?_
  have hmem : t ∈ tokenize source := by
    rw [← take_length hs] at ht
    exact List.mem_of_mem_take ht
  exact spelled_of_mem_tokenize hmem

/-- The programs that have a source are the well-formed ones. -/
theorem exists_source_iff (p : Program) :
    (∃ source, ofSource source = .ok p) ↔ p.WellFormed := by
  constructor
  · rintro ⟨source, h⟩
    exact wellFormed_of_ofSource h
  · intro h
    obtain ⟨w, hw, hp⟩ := exists_sentences fun s hs => (h s hs).hasSentence
    obtain ⟨w', t, hsource, ht, halike⟩ := tokenize_sourceOf (hw.laysOut hp) hp
    refine ⟨sourceOf w, ?_⟩
    rw [ofSource, hsource]
    exact ofTokens_of_alike hw halike ht

end Program

end IndentScript
