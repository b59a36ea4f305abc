import IndentScript.Proofs.Blocks
import IndentScript.Proofs.Concatenation
import IndentScript.Proofs.Lookahead
import Mathlib.Order.Monotone.Basic

/-!
# Indented sources

Which blocks a line opens and closes depends on the order of the widths only. So a source keeps its
blocks if all of its lines are indented by the same blanks, and it gets one more around them, which
is open from the first line to the end. The tokens of statements have their brackets matched, so no
other bracket can be the one that closes it: the program of an indented source is a single block.
-/

namespace IndentScript

open Grammar IndentScript.Parser

/-! ## Open blocks at other widths -/

namespace Indentation

variable {f : Nat → Nat}

/-- The blocks that are open around lines none of which is shallower than that. -/
def around : Nat → Indentation
  | 0 => []
  | width + 1 => [width + 1]

/-- The open blocks when a line of each width gets the width that `f` has for it. -/
def rescale (f : Nat → Nat) (blocks : Indentation) : Indentation :=
  blocks.map f ++ around (f 0)

theorem around_of_pos {width : Nat} (h : 0 < width) : around width = [width] := by
  cases width with
  | zero => cases h
  | succ width => rfl

theorem length_rescale (f : Nat → Nat) (blocks : Indentation) :
    (rescale f blocks).length = blocks.length + (around (f 0)).length := by
  rw [rescale, List.length_append, List.length_map]

theorem headD_rescale (f : Nat → Nat) (blocks : Indentation) :
    (rescale f blocks).headD 0 = f (blocks.headD 0) := by
  cases blocks with
  | nil => cases h : f 0 <;> simp [rescale, around, h]
  | cons b blocks => rfl

theorem takeWhile_around {k width : Nat} (h : k ≤ width) :
    (around k).takeWhile (fun w => width < w) = [] := by
  cases k with
  | zero => rfl
  | succ k => exact List.takeWhile_cons_of_neg (by simpa using h)

theorem dropWhile_around {k width : Nat} (h : k ≤ width) :
    (around k).dropWhile (fun w => width < w) = around k := by
  cases k with
  | zero => rfl
  | succ k => exact List.dropWhile_cons_of_neg (by simpa using h)

theorem takeWhile_rescale (hf : StrictMono f) (blocks : Indentation) (width : Nat) :
    (rescale f blocks).takeWhile (fun w => f width < w) =
      (blocks.takeWhile fun w => width < w).map f := by
  induction blocks with
  | nil => exact takeWhile_around (hf.monotone (Nat.zero_le width))
  | cons b blocks ih =>
      rw [rescale, List.map_cons, List.cons_append, ← rescale]
      simp only [List.takeWhile_cons, hf.lt_iff_lt, ih]
      split <;> rfl

theorem dropWhile_rescale (hf : StrictMono f) (blocks : Indentation) (width : Nat) :
    (rescale f blocks).dropWhile (fun w => f width < w) =
      rescale f (blocks.dropWhile fun w => width < w) := by
  induction blocks with
  | nil => exact dropWhile_around (hf.monotone (Nat.zero_le width))
  | cons b blocks ih =>
      rw [rescale, List.map_cons, List.cons_append, ← rescale]
      simp only [List.dropWhile_cons, hf.lt_iff_lt, ih]
      split <;> rfl

/-- Lines do the same to the open blocks if their widths are in the same order. -/
theorem change_rescale (hf : StrictMono f) (blocks : Indentation) (width : Nat) :
    (rescale f blocks).change (f width) = blocks.change width := by
  rw [change, change, headD_rescale, takeWhile_rescale hf, List.length_map]
  simp only [hf.lt_iff_lt]

theorem afterLine_rescale (hf : StrictMono f) (blocks : Indentation) (width : Nat) :
    (rescale f blocks).afterLine (f width) = rescale f (blocks.afterLine width) := by
  rw [afterLine, afterLine, headD_rescale, dropWhile_rescale hf]
  simp only [hf.lt_iff_lt]
  split <;> rfl

/-- Lines whose widths are in the same order keep the open blocks in step. -/
theorem before_rescale (hf : StrictMono f) {width width' : Nat → Nat} {first count : Nat}
    (hfirst : before width' first = rescale f (before width first))
    (hwidth : ∀ i, first ≤ i → i < first + count → width' i = f (width i)) :
    before width' (first + count) = rescale f (before width (first + count)) := by
  induction count with
  | zero => exact hfirst
  | succ count ih =>
      have hlast := hwidth (first + count) (Nat.le_add_right first count) (Nat.lt_add_one _)
      have hbefore := ih fun i hi hlt => hwidth i hi (Nat.lt_succ_of_lt hlt)
      rw [← Nat.add_assoc, before, before, hlast, hbefore, afterLine_rescale hf]

end Indentation

/-! ## Tokens on lines that are indented further -/

/-- The token when its line is indented further: only the tokens of layout stay where they are. -/
def Token.indented (columns : Nat) (t : Token) : Token :=
  if t.kind.isLayout then t else t.moved 0 columns

theorem Token.alike_indented (columns : Nat) (t : Token) : t.Alike (t.indented columns) := by
  rw [indented]
  split
  · exact .refl t
  · exact ⟨rfl, fun _ => rfl⟩

theorem Indentation.Change.map_indented (change : Change) (line columns : Nat) :
    (change.tokens line).map (Token.indented columns) = change.tokens line := by
  have hlayout : ∀ t ∈ change.tokens line, t.indented columns = t := fun t ht => by
    rw [Token.indented, (of_mem_tokens ht).1, if_pos rfl]
  rw [List.map_congr_left hlayout, List.map_id']

theorem map_indented_tokensFrom (line column columns : Nat) (cs : List Char) :
    (tokensFrom line column cs).map (Token.indented columns) =
      tokensFrom line (column + columns) cs := by
  have hmoved : (tokensFrom line column cs).map (Token.indented columns) =
      (tokensFrom line column cs).map (Token.moved 0 columns) := by
    refine List.map_congr_left fun t ht => ?_
    rw [Token.indented, isLayout_of_mem_tokensFrom ht]
    rfl
  rw [hmoved, ← tokensFrom_add, Nat.add_zero]

/-- A line in step with another has the same tokens, up to the blanks in front of them. -/
theorem tokensAt_rescale {source source' : String} {f : Nat → Nat} {i columns : Nat}
    (hf : StrictMono f)
    (hblocks : Indentation.before (Text.widthAt source') i =
      Indentation.rescale f (.before (Text.widthAt source) i))
    (hwidth : Text.widthAt source' i = f (Text.widthAt source i))
    (hheld : tokensFrom i 1 (Text.lineAt source' i) =
      tokensFrom i (1 + columns) (Text.lineAt source i)) :
    tokensAt source' i = (tokensAt source i).map (Token.indented columns) := by
  rw [tokensAt, changeAt, hblocks, hwidth, Indentation.change_rescale hf, hheld, tokensAt, changeAt,
    List.map_append, Indentation.Change.map_indented, map_indented_tokensFrom]

/-! ## Indented texts -/

namespace Text

/-- The text with the margin in front of each of its lines, also of the empty ones. -/
def indent (margin text : String) : String :=
  String.ofList (['\n'].intercalate ((text.toList.splitOn '\n').map (margin.toList ++ ·)))

example : indent "\t" "a\n\nb" = "\ta\n\t\n\tb" := by decide

variable {margin : String} (hmargin : ∀ c ∈ margin.toList, isBlank c = true)
include hmargin

theorem splitOn_indent (text : String) :
    (indent margin text).toList.splitOn '\n' =
      (text.toList.splitOn '\n').map (margin.toList ++ ·) := by
  rw [indent, String.toList_ofList]
  refine List.splitOn_intercalate '\n' (fun line hline hmem => ?_) ?_
  · obtain ⟨cs, hcs, rfl⟩ := List.mem_map.1 hline
    rcases List.mem_append.1 hmem with hmem | hmem
    · exact absurd (hmargin _ hmem) (by decide)
    · exact not_mem_of_mem_splitOn hcs hmem
  · simp [List.splitOn_ne_nil]

theorem dropReturn_append (line : List Char) :
    dropReturn (margin.toList ++ line) = margin.toList ++ dropReturn line :=
  dropReturn_append_of_getLast?
    (fun h => absurd (hmargin _ (List.mem_of_getLast? h)) (by decide)) line

theorem lines_indent (text : String) :
    lines (indent margin text) = (lines text).map (margin.toList ++ ·) := by
  rw [lines, splitOn_indent hmargin, lines, List.map_map, List.map_map]
  exact List.map_congr_left fun line _ => dropReturn_append hmargin line

theorem length_lines_indent (text : String) :
    (lines (indent margin text)).length = (lines text).length := by
  rw [lines_indent hmargin, List.length_map]

theorem lineAt_indent {text : String} {i : Nat} (hfirst : 1 ≤ i) (hlast : i ≤ (lines text).length) :
    lineAt (indent margin text) i = margin.toList ++ lineAt text i := by
  obtain ⟨i, rfl⟩ := Nat.exists_eq_add_of_le' hfirst
  simp [lineAt, lines_indent hmargin, List.getD_eq_getElem?_getD, Nat.lt_of_succ_le hlast]

theorem widthAt_indent {text : String} {i : Nat} (hfirst : 1 ≤ i)
    (hlast : i ≤ (lines text).length) :
    widthAt (indent margin text) i = widthAt text i + margin.toList.length := by
  rw [← indentWidth_lineAt, lineAt_indent hmargin hfirst hlast, indentWidth,
    List.takeWhile_append_of_pos hmargin, List.length_append, ← indentWidth, indentWidth_lineAt,
    Nat.add_comm]

end Text

theorem Text.one_le_length_lines (text : String) : 1 ≤ (lines text).length := by
  obtain ⟨ls, hls⟩ := exists_lines_eq_cons text
  rw [hls]
  exact Nat.succ_le_succ (Nat.zero_le _)

/-! ## Indented sources -/

section

variable {source margin : String} (hfirst : Text.widthAt source 1 = 0)
  (hpos : 0 < margin.toList.length) (hmargin : ∀ c ∈ margin.toList, Text.isBlank c = true)
include hfirst hpos hmargin

/-- The first line opens the block around all lines. -/
theorem tokensAt_indent_first :
    tokensAt (Text.indent margin source) 1 =
      ⟨.indent, "", ⟨1, 1⟩⟩ :: (tokensAt source 1).map (Token.indented margin.toList.length) := by
  have hlast := Text.one_le_length_lines source
  have hopened : changeAt (Text.indent margin source) 1 = .opened := by
    rw [changeAt, Text.widthAt_indent hmargin (Nat.le_refl 1) hlast, hfirst, Nat.zero_add]
    exact if_pos hpos
  have hclosed : changeAt source 1 = .closed 0 := by
    rw [changeAt, hfirst]
    rfl
  rw [tokensAt, hopened, Text.lineAt_indent hmargin (Nat.le_refl 1) hlast,
    tokensFrom_blank_append hmargin, tokensAt, hclosed, List.map_append, map_indented_tokensFrom]
  rfl

theorem before_indent {i : Nat} (hi : 2 ≤ i) (hlast : i ≤ (Text.lines source).length + 1) :
    Indentation.before (Text.widthAt (Text.indent margin source)) i =
      Indentation.rescale (· + margin.toList.length) (.before (Text.widthAt source) i) := by
  have hsecond : Indentation.before (Text.widthAt (Text.indent margin source)) 2 =
      Indentation.rescale (· + margin.toList.length) (.before (Text.widthAt source) 2) := by
    have hwidth := Text.widthAt_indent hmargin (Nat.le_refl 1) (Text.one_le_length_lines source)
    rw [← Nat.zero_add margin.toList.length] at hpos
    calc Indentation.before (Text.widthAt (Text.indent margin source)) 2
        = Indentation.afterLine [] (0 + margin.toList.length) := by
          rw [Indentation.before, hwidth, hfirst]
          rfl
      _ = [0 + margin.toList.length] := if_pos hpos
      _ = Indentation.rescale (· + margin.toList.length) [] :=
          (Indentation.around_of_pos hpos).symm
      _ = Indentation.rescale (· + margin.toList.length) (.before (Text.widthAt source) 2) := by
          rw [Indentation.before, hfirst]
          rfl
  obtain ⟨count, rfl⟩ := Nat.exists_eq_add_of_le hi
  refine Indentation.before_rescale (fun a b h => Nat.add_lt_add_right h _) hsecond ?_
  exact fun j hj hlt => Text.widthAt_indent hmargin (by omega) (by omega)

/-- Every further line does to the blocks inside what it did to all blocks. -/
theorem tokensAt_indent {i : Nat} (hi : 2 ≤ i) (hlast : i ≤ (Text.lines source).length) :
    tokensAt (Text.indent margin source) i =
      (tokensAt source i).map (Token.indented margin.toList.length) := by
  have hone : 1 ≤ i := Nat.le_of_succ_le hi
  refine tokensAt_rescale (fun a b h => Nat.add_lt_add_right h _)
    (before_indent hfirst hpos hmargin hi (Nat.le_succ_of_le hlast))
    (Text.widthAt_indent hmargin hone hlast) ?_
  rw [Text.lineAt_indent hmargin hone hlast, tokensFrom_blank_append hmargin]

/-- The line after the last one closes the block around all lines after those inside. -/
theorem tokensAt_indent_end :
    tokensAt (Text.indent margin source) ((Text.lines source).length + 1) =
      (tokensAt source ((Text.lines source).length + 1)).map
          (Token.indented margin.toList.length) ++
        [⟨.dedent, "", ⟨(Text.lines source).length + 1, 1⟩⟩] := by
  have hblocks := before_indent hfirst hpos hmargin
    (Nat.succ_le_succ (Text.one_le_length_lines source)) (Nat.le_refl _)
  have hend := tokensAt_end (Text.indent margin source)
  rw [Text.length_lines_indent hmargin, hblocks, Indentation.length_rescale, Nat.zero_add,
    Indentation.around_of_pos hpos] at hend
  have hinner : ∀ line count, (closings line count).map (Token.indented margin.toList.length) =
      closings line count :=
    fun line count => Indentation.Change.map_indented (.closed count) line _
  rw [hend, tokensAt_end, hinner]
  exact List.replicate_succ'

/-- The tokens of an indented source are those of the source in the brackets of one more block. -/
theorem tokenize_indent :
    tokenize (Text.indent margin source) =
      ⟨.indent, "", ⟨1, 1⟩⟩ ::
        (((List.range' 1 ((Text.lines source).length + 1)).flatMap (tokensAt source)).map
            (Token.indented margin.toList.length) ++
          [⟨.dedent, "", ⟨(Text.lines source).length + 1, 1⟩⟩, endToken source]) := by
  obtain ⟨m, hm⟩ := Nat.exists_eq_add_of_le' (Text.one_le_length_lines source)
  have hmiddle : (List.range' 2 m).flatMap (tokensAt (Text.indent margin source)) =
      ((List.range' 2 m).flatMap (tokensAt source)).map (Token.indented margin.toList.length) := by
    rw [List.map_flatMap]
    refine List.flatMap_congr fun i hi => ?_
    obtain ⟨hi, hlt⟩ := List.mem_range'_1.1 hi
    exact tokensAt_indent hfirst hpos hmargin hi (by omega)
  have hrange : List.range' 1 (m + 1 + 1) = 1 :: (List.range' 2 m ++ [m + 1 + 1]) := by
    rw [List.range'_succ, List.range'_concat, Nat.one_mul, Nat.add_right_comm 1 1 m,
      Nat.add_comm 1 m]
  have hend := tokensAt_indent_end hfirst hpos hmargin
  rw [tokenize_eq, endToken, Text.length_lines_indent hmargin, ← endToken]
  rw [hm] at hend ⊢
  simp only [hrange, List.flatMap_cons, List.flatMap_append, List.flatMap_nil, List.append_nil,
    tokensAt_indent_first hfirst hpos hmargin, hmiddle, hend, List.map_append, List.append_assoc,
    List.cons_append, List.nil_append]

end

/-! ## Statements in a block -/

theorem Kind.isBracket_of_isLayout {k : Kind} (h : k.isLayout = false) : k.isBracket = false := by
  cases k <;> first | rfl | cases h

namespace Grammar

theorem Phrase.balanced {level : Level} {w : List Token} {e : Expr} (h : Phrase level w e) :
    Balanced w :=
  .of_forall fun t ht => Kind.isBracket_of_isLayout (h.isLayout t ht)

theorem Entry.balanced {w : List Token} {d : Declaration} (h : Entry w d) : Balanced w := by
  cases h with
  | bare hx => exact .other (by rw [hx]; rfl) .nil
  | initialized hx hq he =>
      exact .other (by rw [hx]; rfl) (.other (by rw [hq]; rfl) he.balanced)

theorem Entries.balanced {w : List Token} {ds : List Declaration} (h : Entries w ds) :
    Balanced w := by
  induction h with
  | last hd => exact hd.balanced
  | more hd hc _ ih => exact hd.balanced.append (.other (by rw [hc]; rfl) ih)

mutual

theorem Sentence.balanced {w : List Token} {s : Stmt} (h : Sentence w s) : Balanced w := by
  match h with
  | .block hi hbody hd => exact .block hi hd trivial hbody.balanced .nil
  | .declare hl hds => exact .other (by rw [hl]; rfl) hds.balanced
  | .conditional hi hc ht hs =>
      exact .other (by rw [hi]; rfl) (hc.balanced.append (.other (by rw [ht]; rfl) hs.balanced))
  | .alternative hi hc ht hs _ he ha =>
      exact .other (by rw [hi]; rfl) (hc.balanced.append (.other (by rw [ht]; rfl)
        (hs.balanced.append (.other (by rw [he]; rfl) ha.balanced))))
  | .expression he => exact he.balanced

theorem Sentences.balanced {w : List Token} {ss : List Stmt} (h : Sentences w ss) :
    Balanced w := by
  match h with
  | .nil => exact .nil
  | .cons hs hss => exact hs.balanced.append hss.balanced

end

theorem Sentences.eq_nil {ss : List Stmt} (h : Sentences [] ss) : ss = [] := by
  generalize hw : [] = w at h
  cases h with
  | nil => rfl
  | cons hs _ => exact absurd (List.append_eq_nil_iff.1 hw.symm).1 hs.ne_nil

/-- A statement that starts with an INDENT is a block. -/
theorem Sentence.of_indent {i : Token} {w : List Token} {s : Stmt} (h : Sentence (i :: w) s)
    (hi : i.kind = .indent) :
    ∃ body d v, s = .block body ∧ d.kind = .dedent ∧ w = v ++ [d] ∧ Sentences v body := by
  cases h with
  | block _ hbody hd => exact ⟨_, _, _, rfl, hd, rfl, hbody⟩
  | declare hl => simp [hi] at hl
  | conditional hf | alternative hf => simp [hi] at hf
  | expression he =>
      obtain ⟨t, v, ht, hstarts⟩ := he.starts
      cases ht
      simp [hi, Kind.startsPhrase] at hstarts

/-- Between brackets that match each other stand the statements of one block. -/
theorem sentences_block_iff {i d : Token} {w : List Token} (hi : i.kind = .indent)
    (hd : d.kind = .dedent) (hw : Balanced w) (ss : List Stmt) :
    Sentences (i :: (w ++ [d])) ss ↔ ∃ body, ss = [.block body] ∧ Sentences w body := by
  constructor
  · intro h
    generalize hx : i :: (w ++ [d]) = x at h
    cases h with
    | nil => cases hx
    | @cons x v s ss hs hss =>
        obtain ⟨j, y, rfl, -⟩ := hs.starts
        rw [List.cons_append] at hx
        obtain ⟨rfl, hrest⟩ := List.cons.inj hx
        obtain ⟨body, d', w', rfl, hd', rfl, hbody⟩ := hs.of_indent hi
        rw [List.append_assoc, List.singleton_append] at hrest
        -- the first DEDENT without a partner is the last token, so nothing stands behind the block
        cases hw.body_unique hbody.balanced hd hd' hrest
        obtain ⟨rfl, rfl⟩ := List.cons.inj (List.append_cancel_left hrest)
        exact ⟨body, by rw [hss.eq_nil], hbody⟩
  · rintro ⟨body, rfl, hbody⟩
    have hblock : Sentence (i :: (w ++ [d])) (.block body) := .block hi hbody hd
    simpa using Sentences.cons hblock .nil

end Grammar

namespace Program

/-- Tokens in the brackets of one more block make a program just if they make one without them, and
it is the block of its statements. -/
theorem ofTokens_block_eq_ok_iff {i d e : Token} {w : List Token} (hi : i.kind = .indent)
    (hd : d.kind = .dedent) (he : e.kind = .eof) (hend : ∀ t ∈ w, t.kind ≠ .eof)
    (hw : Balanced w) (q : Program) :
    ofTokens (i :: (w ++ [d, e])) = .ok q ↔
      ∃ p, ofTokens (w ++ [e]) = .ok p ∧ q = ⟨[.block p.statements]⟩ := by
  have hlast : ∀ t ∈ [e], t.kind = .eof := by simpa using he
  have hend' : ∀ t ∈ i :: (w ++ [d]), t.kind ≠ .eof := by
    simp only [List.forall_mem_cons, List.forall_mem_append, hi, hd]
    exact ⟨by decide, hend, by decide, by simp⟩
  have hsplit : i :: (w ++ [d, e]) = i :: (w ++ [d]) ++ [e] := by simp
  rw [hsplit, ofTokens_append_eq_ok_iff hend' hlast, sentences_block_iff hi hd hw]
  simp only [ofTokens_append_eq_ok_iff hend hlast]
  constructor
  · rintro ⟨body, hq, hbody⟩
    exact ⟨⟨body⟩, hbody, by rw [← hq]⟩
  · rintro ⟨p, hp, rfl⟩
    exact ⟨p.statements, rfl, hp⟩

theorem ofSource_indent_eq_ok_iff {source margin : String} (hfirst : Text.widthAt source 1 = 0)
    (hpos : 0 < margin.toList.length) (hmargin : ∀ c ∈ margin.toList, Text.isBlank c = true)
    (q : Program) :
    ofSource (Text.indent margin source) = .ok q ↔
      ∃ p, ofSource source = .ok p ∧ q = ⟨[.block p.statements]⟩ := by
  have hend : ∀ t ∈ (List.range' 1 ((Text.lines source).length + 1)).flatMap (tokensAt source),
      t.kind ≠ .eof := fun t ht => by
    obtain ⟨i, -, ht⟩ := List.mem_flatMap.1 ht
    exact kind_ne_eof_of_mem_tokensAt ht
  have hbalanced := (brackets_lines source).imp fun _ _ _ => trivial
  rw [ofSource, ofSource, tokenize_indent hfirst hpos hmargin, tokenize_eq]
  generalize (List.range' 1 ((Text.lines source).length + 1)).flatMap (tokensAt source) = w
    at hend hbalanced ⊢
  have halike : List.Forall₂ Token.Alike w (w.map (Token.indented margin.toList.length)) :=
    List.forall₂_map_right_iff.2 (List.forall₂_same.2 fun t _ => t.alike_indented _)
  have hbody := ofTokens_block_eq_ok_iff (i := ⟨.indent, "", ⟨1, 1⟩⟩)
    (d := ⟨.dedent, "", ⟨(Text.lines source).length + 1, 1⟩⟩) (e := endToken source)
    rfl rfl rfl hend hbalanced q
  rw [← hbody]
  exact (ofTokens_eq_ok_iff_of_alike
    (.cons (.refl _) (List.rel_append halike (List.forall₂_refl _))) q).symm

/-- A source that starts without blanks makes a program just if it makes one with any blanks in
front of all its lines, and that one is the block of its statements. -/
theorem ofSource_indent {source margin : String} (hfirst : Text.widthAt source 1 = 0)
    (hne : margin ≠ "") (hmargin : ∀ c ∈ margin.toList, Text.isBlank c = true) :
    ((∃ q, ofSource (Text.indent margin source) = .ok q) ↔ ∃ p, ofSource source = .ok p) ∧
      ∀ p, ofSource source = .ok p →
        ofSource (Text.indent margin source) = .ok ⟨[.block p.statements]⟩ := by
  have hpos : 0 < margin.toList.length :=
    List.length_pos_iff.2 fun h => hne (String.toList_eq_nil_iff.1 h)
  have hiff := ofSource_indent_eq_ok_iff hfirst hpos hmargin
  refine ⟨⟨?_, ?_⟩, fun p hp => (hiff _).2 ⟨p, hp, rfl⟩⟩
  · rintro ⟨q, hq⟩
    obtain ⟨p, hp, -⟩ := (hiff q).1 hq
    exact ⟨p, hp⟩
  · rintro ⟨p, hp⟩
    exact ⟨_, (hiff _).2 ⟨p, hp, rfl⟩⟩

/-- The block of the second line is a block in the block of both. -/
theorem ofSource_indent_nested :
    Text.widthAt "a\n b" 1 = 0 ∧ "\t" ≠ "" ∧ (∀ c ∈ "\t".toList, Text.isBlank c = true) ∧
      ofSource "a\n b" =
        .ok ⟨[.expression (.ident "a"), .block [.expression (.ident "b")]]⟩ ∧
      ofSource (Text.indent "\t" "a\n b") =
        .ok ⟨[.block [.expression (.ident "a"), .block [.expression (.ident "b")]]]⟩ := by
  have htokens : tokenize "a\n b" = [⟨.ident, "a", ⟨1, 1⟩⟩, ⟨.indent, "", ⟨2, 1⟩⟩,
      ⟨.ident, "b", ⟨2, 2⟩⟩, ⟨.dedent, "", ⟨3, 1⟩⟩, ⟨.eof, "", ⟨3, 1⟩⟩] := by
    decide +kernel
  have hsource : ofSource "a\n b" =
      .ok ⟨[.expression (.ident "a"), .block [.expression (.ident "b")]]⟩ := by
    rw [ofSource, htokens]
    rfl
  have hfirst : Text.widthAt "a\n b" 1 = 0 := by decide
  have hne : "\t" ≠ "" := by decide
  have hmargin : ∀ c ∈ "\t".toList, Text.isBlank c = true := by simp [Text.isBlank]
  exact ⟨hfirst, hne, hmargin, hsource, (ofSource_indent hfirst hne hmargin).2 _ hsource⟩

end Program

end IndentScript
