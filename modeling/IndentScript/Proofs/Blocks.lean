import IndentScript.Proofs.Lines
import Mathlib.Order.Bounds.Basic

/-!
# Blocks

The INDENT and DEDENT tokens of a source are matched like brackets. The partner of an INDENT stands
on the first line after it that is shallower, or on the line after the last one. The open blocks
are what ties the two together: read from any line on, the tokens close the blocks that are open
before that line, innermost first, each where its line of blanks is first undercut.
-/

namespace IndentScript

/-! ## Matched brackets -/

/-- The kinds that open and close blocks. -/
def Kind.isBracket : Kind → Bool
  | indent | dedent => true
  | _ => false

theorem isBracket_of_mem_tokensFrom {line column : Nat} {cs : List Char} {t : Token}
    (h : t ∈ tokensFrom line column cs) : t.kind.isBracket = false := by
  have hlayout := isLayout_of_mem_tokensFrom h
  cases hk : t.kind <;> simp_all [Kind.isLayout, Kind.isBracket]

/-- The INDENT and DEDENT tokens are matched, and `R` holds of the two tokens of each pair. The
other tokens are left out of account. -/
inductive Brackets (R : Token → Token → Prop) : List Token → Prop
  | nil : Brackets R []
  | other {t : Token} {w : List Token} (h : t.kind.isBracket = false) (hw : Brackets R w) :
      Brackets R (t :: w)
  | block {i d : Token} {w v : List Token} (hi : i.kind = .indent) (hd : d.kind = .dedent)
      (h : R i d) (hw : Brackets R w) (hv : Brackets R v) : Brackets R (i :: (w ++ d :: v))

/-- The INDENT and DEDENT tokens are matched. -/
abbrev Balanced : List Token → Prop :=
  Brackets fun _ _ => True

/-- The tokens are an INDENT and the DEDENT that matches it. -/
def Matched (w : List Token) (i d : Token) : Prop :=
  i.kind = .indent ∧ d.kind = .dedent ∧
    ∃ front body back, w = front ++ i :: (body ++ d :: back) ∧ Balanced body

namespace Brackets

variable {R S : Token → Token → Prop}

theorem imp {w : List Token} (hRS : ∀ i d, R i d → S i d) (h : Brackets R w) : Brackets S w := by
  induction h with
  | nil => exact .nil
  | other h _ ih => exact .other h ih
  | block hi hd h _ _ ihw ihv => exact .block hi hd (hRS _ _ h) ihw ihv

theorem append {w v : List Token} (hw : Brackets R w) (hv : Brackets R v) :
    Brackets R (w ++ v) := by
  induction hw with
  | nil => exact hv
  | other h _ ih => exact .other h ih
  | block hi hd h hw _ _ ih =>
      rw [List.cons_append, List.append_assoc, List.cons_append]
      exact .block hi hd h hw ih

theorem of_forall {w : List Token} (h : ∀ t ∈ w, t.kind.isBracket = false) : Brackets R w := by
  induction w with
  | nil => exact .nil
  | cons t w ih =>
      exact .other (h t List.mem_cons_self) (ih fun u hu => h u (List.mem_cons_of_mem t hu))

/-- What stands between an INDENT and its partner is known by the first unmatched DEDENT. -/
theorem body_unique {w w' v v' : List Token} {d d' : Token} (hw : Brackets R w)
    (hw' : Brackets S w') (hd : d.kind = .dedent) (hd' : d'.kind = .dedent)
    (h : w ++ d :: v = w' ++ d' :: v') : w = w' := by
  induction hw generalizing w' v v' d d' with
  | nil =>
      cases hw' with
      | nil => rfl
      | other ht _ =>
          cases h
          rw [hd] at ht
          cases ht
      | block hi _ _ _ _ =>
          cases h
          rw [hd] at hi
          cases hi
  | other ht _ ih =>
      cases hw' with
      | nil =>
          cases h
          rw [hd'] at ht
          cases ht
      | other _ hw' =>
          obtain ⟨rfl, hrest⟩ := List.cons.inj h
          rw [ih hw' hd hd' hrest]
      | block hi _ _ _ _ =>
          obtain ⟨rfl, -⟩ := List.cons.inj h
          rw [hi] at ht
          cases ht
  | block hi hclose _ _ _ ihw ihv =>
      cases hw' with
      | nil =>
          cases h
          rw [hd'] at hi
          cases hi
      | other ht _ =>
          obtain ⟨rfl, -⟩ := List.cons.inj h
          rw [hi] at ht
          cases ht
      | block _ hclose' _ hbody' hrest' =>
          simp only [List.cons_append, List.append_assoc] at h
          obtain ⟨rfl, hrest⟩ := List.cons.inj h
          cases ihw hbody' hclose hclose' hrest
          obtain ⟨rfl, hafter⟩ := List.cons.inj (List.append_cancel_left hrest)
          rw [ihv hrest' hd hd' hafter]

/-- Each INDENT has a partner. -/
theorem exists_partner {w : List Token} (h : Brackets R w) {front back : List Token} {i : Token}
    (hi : i.kind = .indent) (hw : w = front ++ i :: back) :
    ∃ body d rest, back = body ++ d :: rest ∧ d.kind = .dedent ∧ R i d ∧ Brackets R body := by
  induction h generalizing front back with
  | nil => simp at hw
  | other ht _ ih =>
      rcases List.cons_eq_append_iff.1 hw with ⟨-, hw⟩ | ⟨front', -, hw⟩
      · obtain ⟨rfl, -⟩ := List.cons.inj hw
        rw [hi] at ht
        cases ht
      · exact ih hw
  | @block j d w v hj hd hR hbody _ ihw ihv =>
      rcases List.cons_eq_append_iff.1 hw with ⟨-, hw⟩ | ⟨front', -, hw⟩
      · obtain ⟨rfl, rfl⟩ := List.cons.inj hw
        exact ⟨w, d, v, rfl, hd, hR, hbody⟩
      · rcases List.append_eq_append_iff.1 hw with ⟨after, -, hv⟩ | ⟨after, hw, hback⟩
        · -- the INDENT stands after the block
          rcases List.cons_eq_append_iff.1 hv with ⟨-, hfirst⟩ | ⟨after', -, hrest⟩
          · obtain ⟨rfl, -⟩ := List.cons.inj hfirst
            rw [hd] at hi
            cases hi
          · exact ihv hrest
        · -- the INDENT stands in the block
          rcases List.cons_eq_append_iff.1 hback with ⟨-, hfirst⟩ | ⟨after', rfl, hrest⟩
          · obtain ⟨rfl, -⟩ := List.cons.inj hfirst
            rw [hd] at hi
            cases hi
          · obtain ⟨body, e, rest, rfl, he, hR', hbody'⟩ := ihw hw
            refine ⟨body, e, rest ++ d :: v, ?_, he, hR', hbody'⟩
            rw [hrest, List.append_assoc, List.cons_append]

theorem exists_matched {w : List Token} (h : Brackets R w) {i : Token} (hmem : i ∈ w)
    (hi : i.kind = .indent) : ∃ d, Matched w i d := by
  obtain ⟨front, back, rfl⟩ := List.append_of_mem hmem
  obtain ⟨body, d, rest, rfl, hd, -, hbody⟩ := h.exists_partner hi rfl
  exact ⟨d, hi, hd, front, body, rest, rfl, hbody.imp fun _ _ _ => trivial⟩

theorem of_matched {w : List Token} (h : Brackets R w) {i d : Token} (hm : Matched w i d) :
    R i d := by
  obtain ⟨hi, hd, front, body, back, hw, hbody⟩ := hm
  obtain ⟨body', d', rest, hback, hd', hR, hbody'⟩ := h.exists_partner hi hw
  cases hbody.body_unique hbody' hd hd' hback
  obtain ⟨rfl, -⟩ := List.cons.inj (List.append_cancel_left hback)
  exact hR

end Brackets

/-! ## Open blocks -/

/-- The tokens close the open blocks, innermost first, each by a DEDENT of which `P` holds, and are
matched apart from that. -/
inductive Unwinds (R : Token → Token → Prop) (P : Nat → Token → Prop) :
    Indentation → List Token → Prop
  | done {w : List Token} (h : Brackets R w) : Unwinds R P [] w
  | close {b : Nat} {blocks : Indentation} {w v : List Token} {d : Token} (hw : Brackets R w)
      (hd : d.kind = .dedent) (h : P b d) (hv : Unwinds R P blocks v) :
      Unwinds R P (b :: blocks) (w ++ d :: v)

namespace Unwinds

variable {R : Token → Token → Prop} {P Q : Nat → Token → Prop}

theorem imp {blocks : Indentation} {w : List Token} (hPQ : ∀ b ∈ blocks, ∀ d, P b d → Q b d)
    (h : Unwinds R P blocks w) : Unwinds R Q blocks w := by
  induction h with
  | done h => exact .done h
  | close hw hd h _ ih =>
      exact .close hw hd (hPQ _ List.mem_cons_self _ h)
        (ih fun b hb => hPQ b (List.mem_cons_of_mem _ hb))

theorem prepend {blocks : Indentation} {w v : List Token} (hw : Brackets R w)
    (h : Unwinds R P blocks v) : Unwinds R P blocks (w ++ v) := by
  cases h with
  | done h => exact .done (hw.append h)
  | close hbody hd h hv =>
      rw [← List.append_assoc]
      exact .close (hw.append hbody) hd h hv

/-- An INDENT is the partner of the DEDENT that closes the innermost block. -/
theorem opened {b : Nat} {blocks : Indentation} {w : List Token} {i : Token}
    (hi : i.kind = .indent) (hR : ∀ d, P b d → R i d) (h : Unwinds R P (b :: blocks) w) :
    Unwinds R P blocks (i :: w) := by
  cases h with
  | @close _ _ body rest d hbody hd h hv =>
      have hsplit : i :: (body ++ d :: rest) = i :: (body ++ [d]) ++ rest := by simp
      rw [hsplit]
      exact prepend (.block hi hd (hR d h) hbody .nil) hv

theorem closed {inner outer : Indentation} {w : List Token} {d : Token} (hd : d.kind = .dedent)
    (hP : ∀ b ∈ inner, P b d) (h : Unwinds R P outer w) :
    Unwinds R P (inner ++ outer) (List.replicate inner.length d ++ w) := by
  induction inner with
  | nil => exact h
  | cons b inner ih =>
      exact .close .nil hd (hP b List.mem_cons_self)
        (ih fun c hc => hP c (List.mem_cons_of_mem b hc))

end Unwinds

/-! ## Closing lines -/

/-- The line is the first one, from the given one on, that is shallower than the width. -/
def Undercuts (width : Nat → Nat) (first b k : Nat) : Prop :=
  IsLeast {k | first ≤ k ∧ width k < b} k

namespace Undercuts

variable {width : Nat → Nat} {first b k : Nat}

theorem here (h : width first < b) : Undercuts width first b first :=
  ⟨⟨Nat.le_refl first, h⟩, fun _ hk => hk.1⟩

theorem later (h : b ≤ width first) (hk : Undercuts width (first + 1) b k) :
    Undercuts width first b k := by
  refine ⟨⟨Nat.le_of_succ_le hk.1.1, hk.1.2⟩, fun j hj => hk.2 ⟨?_, hj.2⟩⟩
  rcases Nat.eq_or_lt_of_le hj.1 with rfl | hlt
  · exact absurd hj.2 (Nat.not_lt.2 h)
  · exact hlt

end Undercuts

/-- The token stands where a block of the width is closed that was open before the line. -/
def StandsAtClose (source : String) (first b : Nat) (d : Token) : Prop :=
  ∃ k, d.location = ⟨k, 1⟩ ∧ Undercuts (Text.widthAt source) first b k

/-- The tokens stand where a block is opened and where it is closed. -/
def StandAtBlock (source : String) (i d : Token) : Prop :=
  ∃ j, i.location = ⟨j, 1⟩ ∧ 0 < Text.widthAt source j ∧
    StandsAtClose source (j + 1) (Text.widthAt source j) d

/-- A line closes the blocks that are deeper than it, opens one if it is deeper than all of them,
and leaves the others to the lines after it. -/
theorem unwinds_tokensAt {source : String} {i : Nat} {w : List Token}
    (h : Unwinds (StandAtBlock source) (StandsAtClose source (i + 1))
      (.before (Text.widthAt source) (i + 1)) w) :
    Unwinds (StandAtBlock source) (StandsAtClose source i) (.before (Text.widthAt source) i)
      (tokensAt source i ++ w) := by
  have hdeep := Indentation.deepening_before (Text.widthAt source) i
  have hlater : ∀ {b d}, b ≤ Text.widthAt source i → StandsAtClose source (i + 1) b d →
      StandsAtClose source i b d :=
    fun hb ⟨k, hd, hk⟩ => ⟨k, hd, hk.later hb⟩
  have hheld : Brackets (StandAtBlock source) (tokensFrom i 1 (Text.lineAt source i)) :=
    .of_forall fun t ht => isBracket_of_mem_tokensFrom ht
  rw [Indentation.before] at h
  rw [tokensAt, changeAt, List.append_assoc]
  generalize Indentation.before (Text.widthAt source) i = blocks at h hdeep
  rw [Indentation.afterLine] at h
  rw [Indentation.change]
  split at h
  · next hlt =>
    obtain ⟨hpos, hall⟩ := hdeep.headD_lt_iff.1 hlt
    rw [if_pos hlt]
    rw [Indentation.Change.tokens, List.singleton_append]
    have hopened : Unwinds (StandAtBlock source) (StandsAtClose source (i + 1)) blocks
        (⟨.indent, "", ⟨i, 1⟩⟩ :: (tokensFrom i 1 (Text.lineAt source i) ++ w)) :=
      .opened rfl (fun d hd => ⟨i, rfl, hpos, hd⟩) (h.prepend hheld)
    exact hopened.imp fun b hb d => hlater (Nat.le_of_lt (hall b hb))
  · next hge =>
    rw [if_neg hge, Indentation.Change.tokens, closings]
    have hclosed := Unwinds.closed (d := ⟨.dedent, "", ⟨i, 1⟩⟩) rfl
      (fun b hb => ⟨i, rfl, .here (hdeep.mem_takeWhile_iff.1 hb).2⟩)
      ((h.prepend hheld).imp fun b hb d => hlater (hdeep.mem_dropWhile_iff.1 hb).2)
    rwa [List.takeWhile_append_dropWhile] at hclosed

/-- The lines from the given one on close the blocks that are open before it. -/
theorem unwinds_lines (source : String) {first count : Nat}
    (hcount : first + count = (Text.lines source).length + 2) :
    Unwinds (StandAtBlock source) (StandsAtClose source first)
      (.before (Text.widthAt source) first)
      ((List.range' first count).flatMap (tokensAt source)) := by
  induction count generalizing first with
  | zero =>
      have hfirst : first = (Text.lines source).length + 1 + 1 := hcount
      have hwidth : Text.widthAt source ((Text.lines source).length + 1) = 0 :=
        Text.widthAt_of_length_lt (Nat.lt_add_one _)
      have hclosed : Indentation.before (Text.widthAt source) first = [] := by
        rw [hfirst, Indentation.before, hwidth,
          Indentation.afterLine_zero (Indentation.deepening_before _ _)]
      rw [hclosed]
      exact .done .nil
  | succ count ih =>
      rw [List.range'_succ, List.flatMap_cons]
      exact unwinds_tokensAt (ih (by omega))

/-- The brackets of the lines are matched, and stand where the widths of the lines ask for them. -/
theorem brackets_lines (source : String) :
    Brackets (StandAtBlock source)
      ((List.range' 1 ((Text.lines source).length + 1)).flatMap (tokensAt source)) := by
  have hlines := unwinds_lines source (Nat.add_comm 1 ((Text.lines source).length + 1))
  cases hlines with
  | done h => exact h

theorem brackets_tokenize (source : String) : Brackets (StandAtBlock source) (tokenize source) := by
  rw [tokenize_eq]
  exact (brackets_lines source).append (.other rfl .nil)

/-! ## The brackets of a line -/

/-- The brackets of a line stand before its other tokens, and they are one INDENT or DEDENTs. -/
structure BracketsByLine (w : List Token) : Prop where
  opens_once : w.Pairwise fun t u => t.kind = .indent → u.kind = .indent →
    t.location.line ≠ u.location.line
  not_both : ∀ t ∈ w, ∀ u ∈ w, t.kind = .indent → u.kind = .dedent →
    t.location.line ≠ u.location.line
  before_others : w.Pairwise fun t u => t.location.line = u.location.line →
    u.kind.isBracket = true → t.kind.isBracket = true

theorem bracketsByLine_tokenize (source : String) : BracketsByLine (tokenize source) := by
  -- before a bracket there are only DEDENTs on its line, and then it is a DEDENT itself
  have hpair : (tokenize source).Pairwise fun t u => t.location.line = u.location.line →
      u.kind.isBracket = true → t.kind = .dedent ∧ u.kind = .dedent := by
    refine pairwise_tokenize (fun i => ?_) (fun t u hlt heq => ?_) fun t ht _ hend => ?_
    · rw [tokensAt, List.pairwise_append]
      refine ⟨?_, ?_, fun t ht u hu _ hk => ?_⟩
      · cases changeAt source i with
        | opened => exact List.pairwise_singleton _ _
        | closed count => exact List.pairwise_replicate.2 (.inr fun _ _ => ⟨rfl, rfl⟩)
      · refine List.pairwise_of_forall_mem_list fun t ht u hu _ hk => ?_
        rw [isBracket_of_mem_tokensFrom hu] at hk
        cases hk
      · rw [isBracket_of_mem_tokensFrom hu] at hk
        cases hk
    · omega
    · cases hend
  constructor
  · refine hpair.imp fun h ht hu hline => ?_
    rw [(h hline (by rw [hu]; rfl)).1] at ht
    cases ht
  · intro t ht u hu hopen hclose hline
    have ht' := mem_tokensAt_of_mem_tokenize ht (by simp [hopen])
    have hu' := mem_tokensAt_of_mem_tokenize hu (by simp [hclose])
    rw [← hline] at hu'
    obtain ⟨hopened, -⟩ := (mem_tokensAt_iff_of_indent hopen).1 ht'
    obtain ⟨count, hclosed, -, -⟩ := (mem_tokensAt_iff_of_dedent hclose).1 hu'
    rw [hopened] at hclosed
    cases hclosed
  · refine hpair.imp fun h hline hk => ?_
    rw [(h hline hk).1]
    rfl

/-- Blocks are opened and closed by the widths of the lines. -/
theorem tokenize_blocks (source : String) :
    Balanced (tokenize source) ∧ BracketsByLine (tokenize source) ∧
      (∀ i ∈ tokenize source, i.kind = .indent → ∃ d, Matched (tokenize source) i d) ∧
      (∀ i d, Matched (tokenize source) i d → ∃ j k, i.location = ⟨j, 1⟩ ∧ d.location = ⟨k, 1⟩ ∧
        1 ≤ j ∧ j ≤ (Text.lines source).length ∧
        IsLeast {k | j < k ∧ (k = (Text.lines source).length + 1 ∨
          Text.widthAt source k < Text.widthAt source j)} k) ∧
      ∃ w, tokenize source = w ++ [⟨.eof, "", ⟨(Text.lines source).length + 1, 1⟩⟩] ∧
        ∀ t ∈ w, t.kind ≠ .eof := by
  have hbrackets := brackets_tokenize source
  refine ⟨hbrackets.imp fun _ _ _ => trivial, bracketsByLine_tokenize source,
    fun i hmem hi => hbrackets.exists_matched hmem hi, fun i d hm => ?_, ?_⟩
  · obtain ⟨j, hi, hpos, k, hd, hleast⟩ := hbrackets.of_matched hm
    obtain ⟨hfirst, hlast⟩ := Text.le_length_of_widthAt hpos
    refine ⟨j, k, hi, hd, hfirst, hlast, ?_⟩
    have hend : ∀ k, k = (Text.lines source).length + 1 →
        Text.widthAt source k < Text.widthAt source j := by
      rintro k rfl
      rwa [Text.widthAt_of_length_lt (Nat.lt_add_one _)]
    have hset : {k | j < k ∧ (k = (Text.lines source).length + 1 ∨
        Text.widthAt source k < Text.widthAt source j)} =
          {k | j + 1 ≤ k ∧ Text.widthAt source k < Text.widthAt source j} := by
      ext k
      exact and_congr Iff.rfl (or_iff_right_of_imp (hend k))
    rw [hset]
    exact hleast
  · refine ⟨_, tokenize_eq source, fun t ht => ?_⟩
    obtain ⟨i, -, ht⟩ := List.mem_flatMap.1 ht
    exact kind_ne_eof_of_mem_tokensAt ht

end IndentScript
