import IndentScript.Proofs.Indenting
import Mathlib.Order.WellFounded

/-!
# Sources with other margins

The blanks in front of a line count by their number only, and these numbers by their order only. If
the margins of a source are exchanged for others whose widths are in the same order, the lines open
and close the same blocks and hold the same tokens, further to the right. So the two sources make
the same program, or the same token of both is blamed for the same fault.
-/

namespace IndentScript

open IndentScript.Parser

/-! ## Lines with other margins -/

namespace Text

/-- The second line is the first one with another margin: for as many blanks as there are in front
of the first, it has as many as `f` says. -/
inductive Widened (f : Nat → Nat) : List Char → List Char → Prop where
  | intro {margin margin' : String} {rest : List Char} :
      (∀ c ∈ margin.toList, isBlank c = true) → (∀ c ∈ margin'.toList, isBlank c = true) →
      (∀ c ∈ rest.head?, isBlank c = false) →
      margin'.toList.length = f margin.toList.length →
      Widened f (margin.toList ++ rest) (margin'.toList ++ rest)

/-- Every line of the second text is the one of the first with another margin. -/
def Reindented (f : Nat → Nat) (text text' : String) : Prop :=
  List.Forall₂ (Widened f) (text.toList.splitOn '\n') (text'.toList.splitOn '\n')

theorem mem_head?_of_dropReturn {rest : List Char} {c : Char} (h : c ∈ (dropReturn rest).head?) :
    c ∈ rest.head? := by
  rw [dropReturn] at h
  split at h
  · rw [List.head?_dropLast] at h
    split at h
    · exact h
    · cases h
  · exact h

theorem indentWidth_append {margin : String} (hmargin : ∀ c ∈ margin.toList, isBlank c = true)
    {rest : List Char} (hrest : ∀ c ∈ rest.head?, isBlank c = false) :
    indentWidth (margin.toList ++ rest) = margin.toList.length := by
  rw [indentWidth, List.takeWhile_append_of_pos hmargin, takeWhile_eq_nil hrest, List.append_nil]

namespace Widened

variable {f : Nat → Nat} {line line' : List Char}

theorem nil (hzero : f 0 = 0) : Widened f [] [] := by
  have hempty : ∀ c ∈ "".toList, isBlank c = true := by simp
  have hnil : Widened f ("".toList ++ []) ("".toList ++ []) :=
    .intro hempty hempty (by simp) (by simp [hzero])
  simpa using hnil

/-- The carriage return at the end stands behind either margin. -/
theorem dropReturn (h : Widened f line line') :
    Widened f (Text.dropReturn line) (Text.dropReturn line') := by
  cases h with
  | intro hmargin hmargin' hrest hlength =>
      rw [dropReturn_append hmargin, dropReturn_append hmargin']
      exact .intro hmargin hmargin' (fun c hc => hrest c (mem_head?_of_dropReturn hc)) hlength

theorem indentWidth (h : Widened f line line') :
    Text.indentWidth line' = f (Text.indentWidth line) := by
  cases h with
  | intro hmargin hmargin' hrest hlength =>
      rw [indentWidth_append hmargin hrest, indentWidth_append hmargin' hrest, hlength]

/-- The line holds the same tokens, as much further to the right as its margin is wider. -/
theorem tokensFrom (h : Widened f line line') (hf : StrictMono f) (i : Nat) :
    tokensFrom i 1 line' =
      tokensFrom i (1 + (f (Text.indentWidth line) - Text.indentWidth line)) line := by
  cases h with
  | @intro margin margin' rest hmargin hmargin' hrest hlength =>
      have hwidth := indentWidth_append hmargin hrest
      have hle : margin.toList.length ≤ f margin.toList.length := hf.le_apply
      rw [tokensFrom_blank_append hmargin, tokensFrom_blank_append hmargin', hwidth, hlength]
      congr 1
      omega

end Widened

/-- Texts that differ in their margins have their lines in common, also behind the last one. -/
theorem Reindented.lineAt {f : Nat → Nat} {text text' : String} (h : Reindented f text text')
    (hzero : f 0 = 0) (i : Nat) : Widened f (lineAt text i) (lineAt text' i) := by
  have hlines : List.Forall₂ (Widened f) ([] :: lines text) ([] :: lines text') := by
    refine .cons (.nil hzero) ?_
    rw [lines, lines, List.forall₂_map_left_iff, List.forall₂_map_right_iff]
    exact h.imp fun _ _ hline => hline.dropReturn
  rw [Text.lineAt, Text.lineAt]
  generalize [] :: lines text = ls, [] :: lines text' = ls' at hlines
  induction hlines generalizing i with
  | nil => exact .nil hzero
  | cons hline _ ih =>
      cases i with
      | zero => exact hline
      | succ i => exact ih i

theorem length_lines_reindented {f : Nat → Nat} {text text' : String}
    (h : Reindented f text text') : (lines text').length = (lines text).length := by
  rw [lines, lines, List.length_map, List.length_map]
  exact h.length_eq.symm

theorem widthAt_reindented {f : Nat → Nat} {text text' : String} (h : Reindented f text text')
    (hzero : f 0 = 0) (i : Nat) : widthAt text' i = f (widthAt text i) := by
  rw [← indentWidth_lineAt, ← indentWidth_lineAt]
  exact (h.lineAt hzero i).indentWidth

end Text

/-! ## Sources with other margins -/

/-- The token of a source as it stands in one with other margins: only what is not of layout moves,
by as much as the margin of its line grows. -/
def Token.reindented (f : Nat → Nat) (source : String) (t : Token) : Token :=
  t.indented (f (Text.widthAt source t.location.line) - Text.widthAt source t.location.line)

section

variable {f : Nat → Nat} {source source' : String} (hf : StrictMono f) (hzero : f 0 = 0)
  (h : Text.Reindented f source source')
include hf hzero h

/-- The blocks that are open before a line are the same, at other widths. -/
theorem before_reindented (i : Nat) :
    Indentation.before (Text.widthAt source') i =
      Indentation.rescale f (.before (Text.widthAt source) i) := by
  have hnone : Indentation.before (Text.widthAt source') 0 =
      Indentation.rescale f (.before (Text.widthAt source) 0) := by
    rw [Indentation.before, Indentation.before, Indentation.rescale, hzero]
    rfl
  have hbefore : Indentation.before (Text.widthAt source') (0 + i) =
      Indentation.rescale f (.before (Text.widthAt source) (0 + i)) :=
    Indentation.before_rescale hf hnone fun j _ _ => Text.widthAt_reindented h hzero j
  rwa [Nat.zero_add] at hbefore

theorem tokensAt_reindented (i : Nat) :
    tokensAt source' i = (tokensAt source i).map (Token.reindented f source) := by
  have hline : tokensAt source' i = (tokensAt source i).map
      (Token.indented (f (Text.widthAt source i) - Text.widthAt source i)) := by
    refine tokensAt_rescale hf (before_reindented hf hzero h i)
      (Text.widthAt_reindented h hzero i) ?_
    rw [(h.lineAt hzero i).tokensFrom hf, Text.indentWidth_lineAt]
  rw [hline]
  refine List.map_congr_left fun t ht => ?_
  rw [Token.reindented, line_of_mem_tokensAt ht]

/-- The tokens are the same, moved along their lines. -/
theorem tokenize_reindented :
    tokenize source' = (tokenize source).map (Token.reindented f source) := by
  have hend : endToken source' = (endToken source).reindented f source := by
    rw [endToken, Text.length_lines_reindented h]
    rfl
  have hlines : tokensAt source' = fun i => (tokensAt source i).map (Token.reindented f source) :=
    funext (tokensAt_reindented hf hzero h)
  rw [tokenize_eq, tokenize_eq, Text.length_lines_reindented h, hend, hlines, List.map_append,
    List.map_flatMap, List.map_singleton]

end

namespace Token

/-- The second token stands in a source with other margins where the first one stands: of the same
kind, with the same text and on the same line, at its start or as far behind the new margin as it
was behind the old one. -/
structure Reindented (f : Nat → Nat) (source : String) (t t' : Token) : Prop where
  kind : t'.kind = t.kind
  text : t'.text = t.text
  line : t'.location.line = t.location.line
  layout : t.kind.isLayout = true → t.location.column = 1 ∧ t'.location.column = 1
  held : t.kind.isLayout = false →
    t'.location.column + Text.widthAt source t.location.line =
      t.location.column + f (Text.widthAt source t.location.line)

theorem Reindented.alike {f : Nat → Nat} {source : String} {t t' : Token}
    (h : t.Reindented f source t') : t.Alike t' :=
  ⟨by rw [h.kind], fun _ => h.text.symm⟩

theorem Reindented.of_mem_tokenize {f : Nat → Nat} (hf : StrictMono f) {source : String} {t : Token}
    (ht : t ∈ tokenize source) : t.Reindented f source (t.reindented f source) := by
  have hle : Text.widthAt source t.location.line ≤ f (Text.widthAt source t.location.line) :=
    hf.le_apply
  rw [reindented, indented]
  cases hk : t.kind.isLayout with
  | true =>
      have hcolumn := (layout_of_mem_tokenize ht hk).2
      exact ⟨rfl, rfl, rfl, fun _ => ⟨hcolumn, hcolumn⟩, fun h => by simp [hk] at h⟩
  | false =>
      refine ⟨rfl, rfl, rfl, fun h => by simp [hk] at h, fun _ => ?_⟩
      show t.location.column + _ + _ = _
      omega

end Token

theorem forall₂_reindented {f : Nat → Nat} (hf : StrictMono f) (hzero : f 0 = 0)
    {source source' : String} (h : Text.Reindented f source source') :
    List.Forall₂ (Token.Reindented f source) (tokenize source) (tokenize source') := by
  rw [tokenize_reindented hf hzero h, List.forall₂_map_right_iff, List.forall₂_same]
  exact fun t ht => .of_mem_tokenize hf ht

theorem toList_ofTokens_tokenize (source : String) :
    (Stream.ofTokens (tokenize source)).toList = tokenize source := by
  rw [tokenize_eq, Stream.toList_ofTokens_concat]
  exact if_pos rfl

namespace Program

/-- Only the order of the widths counts: with other margins whose widths are in the same order, a
source has the same tokens, further to the right. The two make the same program, or reading either
fails for the same fault of the same token. -/
theorem read_reindented {f : Nat → Nat} (hf : StrictMono f) (hzero : f 0 = 0)
    {source source' : String} (h : Text.Reindented f source source') :
    List.Forall₂ (Token.Reindented f source) (tokenize source) (tokenize source') ∧
      ((∃ p, ofSource source = .ok p ∧ ofSource source' = .ok p) ∨
        ∃ (fault : Fault) (t t' : Token), t.Reindented f source t' ∧
          ofSource source = .error (fault.blame t) ∧
          ofSource source' = .error (fault.blame t')) := by
  have htokens := forall₂_reindented hf hzero h
  refine ⟨htokens, ?_⟩
  obtain ⟨w, w', u, u', v, hs, hs', hlength, -, hstop, hstop'⟩ :=
    exists_stops_of_alike (htokens.imp fun _ _ ht => ht.alike)
  have hread := ofTokens_of_stops hs hstop
  have hread' := ofTokens_of_stops hs' hstop'
  cases v with
  | ok p => exact .inl ⟨p, hread, hread'⟩
  | error fault =>
      -- the two tokens stand at the same place of the two lists
      have hget := Stream.getElem?_toList_prepend w u
      have hget' := Stream.getElem?_toList_prepend w' u'
      rw [← hs, toList_ofTokens_tokenize] at hget
      rw [← hs', toList_ofTokens_tokenize, ← hlength] at hget'
      obtain ⟨hlt, hu⟩ := List.getElem?_eq_some_iff.1 hget
      obtain ⟨hlt', hu'⟩ := List.getElem?_eq_some_iff.1 hget'
      refine .inr ⟨fault, u.current, u'.current, ?_, hread, hread'⟩
      rw [← hu, ← hu']
      exact htokens.get hlt hlt'

/-- The third line falls back to a width at which no block is open. With all margins twice as wide,
and tabs among their blanks, the parenthesis on it is blamed two columns further on. -/
theorem read_reindented_doubled :
    let source := "a\n    b\n  )"
    let source' := "a\n\t\t\t\t\t\t\t\tb\n \t \t)"
    StrictMono (fun w => 2 * w) ∧ 2 * 0 = 0 ∧ Text.Reindented (fun w => 2 * w) source source' ∧
      List.Forall₂ (Token.Reindented (fun w => 2 * w) source) (tokenize source) (tokenize source') ∧
      ofSource source = .error (.unexpectedToken .rightParen ")" ⟨3, 3⟩) ∧
      ∃ (fault : Fault) (t t' : Token), t.Reindented (fun w => 2 * w) source t' ∧
        ofSource source = .error (fault.blame t) ∧ ofSource source' = .error (fault.blame t') := by
  intro source source'
  have hf : StrictMono (fun w => 2 * w) := fun a b hab => by
    show 2 * a < 2 * b
    omega
  have hlines : source.toList.splitOn '\n' = ["".toList ++ ['a'], "    ".toList ++ ['b'],
    "  ".toList ++ [')']] := by decide
  have hlines' : source'.toList.splitOn '\n' = ["".toList ++ ['a'],
    "\t\t\t\t\t\t\t\t".toList ++ ['b'], " \t \t".toList ++ [')']] := by decide
  have h : Text.Reindented (fun w => 2 * w) source source' := by
    rw [Text.Reindented, hlines, hlines']
    refine .cons (.intro ?_ ?_ ?_ ?_) (.cons (.intro ?_ ?_ ?_ ?_)
      (.cons (.intro ?_ ?_ ?_ ?_) .nil))
    all_goals simp [Text.isBlank]
  have htokens : tokenize source = [⟨.ident, "a", ⟨1, 1⟩⟩, ⟨.indent, "", ⟨2, 1⟩⟩,
      ⟨.ident, "b", ⟨2, 5⟩⟩, ⟨.dedent, "", ⟨3, 1⟩⟩, ⟨.rightParen, ")", ⟨3, 3⟩⟩,
      ⟨.eof, "", ⟨4, 1⟩⟩] := by
    decide +kernel
  have hfails : ofSource source = .error (.unexpectedToken .rightParen ")" ⟨3, 3⟩) := by
    rw [ofSource, htokens]
    rfl
  have hread := read_reindented hf rfl h
  refine ⟨hf, rfl, h, hread.1, hfails, hread.2.resolve_left ?_⟩
  rintro ⟨p, hp, -⟩
  cases hfails.symm.trans hp

end Program

end IndentScript
