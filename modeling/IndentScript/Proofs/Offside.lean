import IndentScript.Proofs.Lines

/-!
# Which lines open blocks

A line opens a block if it is deeper than every block that is still open. A line that is deeper
than the line before it always is. Any other line opens a block only if the line before it closed
one and came to stand between the widths of the blocks: then the two can even be equally deep.
-/

namespace IndentScript

namespace Indentation

theorem change_eq_opened_iff {blocks : Indentation} (h : blocks.Deepening) {width : Nat} :
    blocks.change width = .opened ↔ 0 < width ∧ ∀ b ∈ blocks, b < width := by
  rw [← h.headD_lt_iff, change]
  split
  · next hlt => exact iff_of_true rfl hlt
  · next hge => exact iff_of_false Change.noConfusion hge

theorem exists_change_eq_closed_iff {blocks : Indentation} (h : blocks.Deepening) {width : Nat} :
    (∃ count, blocks.change width = .closed count ∧ count ≠ 0) ↔ ∃ b ∈ blocks, width < b := by
  constructor
  · rintro ⟨count, hchange, hcount⟩
    rw [change] at hchange
    split at hchange
    · cases hchange
    · cases hchange
      obtain ⟨b, hb⟩ := List.exists_mem_of_ne_nil _ (mt List.length_eq_zero_iff.2 hcount)
      exact ⟨b, h.mem_takeWhile_iff.1 hb⟩
  · rintro ⟨b, hb, hlt⟩
    have hopened : ¬blocks.headD 0 < width := by
      rw [h.headD_lt_iff]
      intro hall
      exact Nat.lt_asymm hlt (hall.2 b hb)
    have hmem := h.mem_takeWhile_iff.2 ⟨hb, hlt⟩
    rw [change, if_neg hopened]
    exact ⟨_, rfl, mt List.length_eq_zero_iff.1 (List.ne_nil_of_mem hmem)⟩

/-- After a line, the blocks are open that it did not close, and the one that it opened. -/
theorem mem_afterLine_iff {blocks : Indentation} (h : blocks.Deepening) {width b : Nat} :
    b ∈ blocks.afterLine width ↔
      b ∈ blocks ∧ b ≤ width ∨ blocks.change width = .opened ∧ b = width := by
  rw [afterLine, change]
  split
  · next hlt =>
    have hall := (h.headD_lt_iff.1 hlt).2
    rw [List.mem_cons]
    constructor
    · rintro (rfl | hb)
      · exact .inr ⟨rfl, rfl⟩
      · exact .inl ⟨hb, Nat.le_of_lt (hall b hb)⟩
    · rintro (⟨hb, -⟩ | ⟨-, rfl⟩)
      · exact .inr hb
      · exact .inl rfl
  · simp [h.mem_dropWhile_iff]

/-- A block is open before a line if an earlier line opened it and no line since is shallower. -/
theorem mem_before_iff {width : Nat → Nat} {i b : Nat} :
    b ∈ before width i ↔ ∃ j < i, (before width j).change (width j) = .opened ∧ width j = b ∧
      ∀ k, j < k → k < i → b ≤ width k := by
  induction i with
  | zero => simp [before]
  | succ i ih =>
      rw [before, mem_afterLine_iff (deepening_before width i), ih]
      constructor
      · rintro (⟨⟨j, hj, hopened, rfl, hsince⟩, hle⟩ | ⟨hopened, rfl⟩)
        · refine ⟨j, Nat.lt_succ_of_lt hj, hopened, rfl, fun k hjk hk => ?_⟩
          rcases Nat.lt_succ_iff_lt_or_eq.1 hk with hk | rfl
          · exact hsince k hjk hk
          · exact hle
        · exact ⟨i, Nat.lt_succ_self i, hopened, rfl, fun k hik hk => by omega⟩
      · rintro ⟨j, hj, hopened, rfl, hsince⟩
        rcases Nat.lt_succ_iff_lt_or_eq.1 hj with hj | rfl
        · exact .inl ⟨⟨j, hj, hopened, rfl, fun k hjk hk => hsince k hjk (Nat.lt_succ_of_lt hk)⟩,
            hsince i hj (Nat.lt_succ_self i)⟩
        · exact .inr ⟨hopened, rfl⟩

end Indentation

/-! ## Lines that open and close blocks -/

/-- A block is opened at the start of the line. -/
def OpensAt (source : String) (i : Nat) : Prop :=
  ∃ t ∈ tokenize source, t.kind = .indent ∧ t.location = ⟨i, 1⟩

/-- A block is closed at the start of the line. -/
def ClosesAt (source : String) (i : Nat) : Prop :=
  ∃ t ∈ tokenize source, t.kind = .dedent ∧ t.location = ⟨i, 1⟩

/-- Line `j` opened a block, and no line between it and line `i` is shallower. -/
def OpenBefore (source : String) (i j : Nat) : Prop :=
  j < i ∧ OpensAt source j ∧
    ∀ k, j < k → k < i → Text.widthAt source j ≤ Text.widthAt source k

section

variable {source : String} {i : Nat}

theorem opensAt_iff_changeAt : OpensAt source i ↔ changeAt source i = .opened := by
  constructor
  · rintro ⟨t, ht, hk, hplace⟩
    have hline := mem_tokensAt_of_mem_tokenize ht (by simp [hk])
    rw [hplace] at hline
    exact ((mem_tokensAt_iff_of_indent hk).1 hline).1
  · intro h
    have hdeep := Indentation.deepening_before (Text.widthAt source) i
    obtain ⟨hfirst, hlast⟩ :=
      Text.le_length_of_widthAt ((Indentation.change_eq_opened_iff hdeep).1 h).1
    exact ⟨_, mem_tokenize_iff.2 (.inl ⟨i, hfirst, Nat.le_succ_of_le hlast,
      (mem_tokensAt_iff_of_indent rfl).2 ⟨h, rfl⟩⟩), rfl, rfl⟩

theorem opensAt_iff : OpensAt source i ↔
    0 < Text.widthAt source i ∧
      ∀ b ∈ Indentation.before (Text.widthAt source) i, b < Text.widthAt source i :=
  opensAt_iff_changeAt.trans
    (Indentation.change_eq_opened_iff (Indentation.deepening_before _ i))

theorem mem_before_widthAt_iff {b : Nat} : b ∈ Indentation.before (Text.widthAt source) i ↔
    ∃ j, OpenBefore source i j ∧ Text.widthAt source j = b := by
  rw [Indentation.mem_before_iff]
  constructor
  · rintro ⟨j, hj, hopened, rfl, hsince⟩
    exact ⟨j, ⟨hj, opensAt_iff_changeAt.2 hopened, hsince⟩, rfl⟩
  · rintro ⟨j, ⟨hj, hopened, hsince⟩, rfl⟩
    exact ⟨j, hj, opensAt_iff_changeAt.1 hopened, rfl, hsince⟩

/-- No block is open where there are no lines any more. -/
theorem le_of_mem_before {b : Nat} (h : b ∈ Indentation.before (Text.widthAt source) i) :
    1 ≤ i ∧ i ≤ (Text.lines source).length + 1 := by
  cases i with
  | zero => cases h
  | succ i =>
      refine ⟨Nat.succ_pos i, ?_⟩
      by_contra hlast
      have hwidth : Text.widthAt source i = 0 := Text.widthAt_of_length_lt (by omega)
      rw [Indentation.before, hwidth,
        Indentation.afterLine_zero (Indentation.deepening_before _ i)] at h
      cases h

theorem closesAt_iff : ClosesAt source i ↔
    ∃ b ∈ Indentation.before (Text.widthAt source) i, Text.widthAt source i < b := by
  rw [← Indentation.exists_change_eq_closed_iff (Indentation.deepening_before _ i)]
  constructor
  · rintro ⟨t, ht, hk, hplace⟩
    have hline := mem_tokensAt_of_mem_tokenize ht (by simp [hk])
    rw [hplace] at hline
    obtain ⟨count, hclosed, hcount, -⟩ := (mem_tokensAt_iff_of_dedent hk).1 hline
    exact ⟨count, hclosed, hcount⟩
  · rintro ⟨count, hclosed, hcount⟩
    obtain ⟨b, hb, -⟩ := (Indentation.exists_change_eq_closed_iff
      (Indentation.deepening_before _ i)).1 ⟨count, hclosed, hcount⟩
    obtain ⟨hfirst, hlast⟩ := le_of_mem_before hb
    exact ⟨_, mem_tokenize_iff.2 (.inl ⟨i, hfirst, hlast,
      (mem_tokensAt_iff_of_dedent rfl).2 ⟨count, hclosed, hcount, rfl⟩⟩), rfl, rfl⟩

/-- A line that neither opens nor closes a block is as deep as the innermost open block. -/
theorem widthAt_mem_before (hpos : 0 < Text.widthAt source i) (hopens : ¬OpensAt source i)
    (hcloses : ¬ClosesAt source i) :
    Text.widthAt source i ∈ Indentation.before (Text.widthAt source) i := by
  by_contra hmem
  refine hopens (opensAt_iff.2 ⟨hpos, fun b hb => ?_⟩)
  have hle : b ≤ Text.widthAt source i :=
    Nat.le_of_not_lt fun hlt => hcloses (closesAt_iff.2 ⟨b, hb, hlt⟩)
  refine Nat.lt_of_le_of_ne hle ?_
  rintro rfl
  exact hmem hb

end

/-- A line opens a block if and only if it is deeper than the blocks still open. So does a line that
is deeper than the line before it; any other line does so only if the line before it closed a block
and is itself deeper than the blocks still open. -/
theorem opensAt_iff_deeper (source : String) (i : Nat) :
    (OpensAt source i ↔ 0 < Text.widthAt source i ∧
      ∀ j, OpenBefore source i j → Text.widthAt source j < Text.widthAt source i) ∧
    (Text.widthAt source (i - 1) < Text.widthAt source i → OpensAt source i) ∧
    (OpensAt source i → Text.widthAt source i ≤ Text.widthAt source (i - 1) →
      ClosesAt source (i - 1) ∧
        ∀ j, OpenBefore source i j → Text.widthAt source j < Text.widthAt source (i - 1)) := by
  have hdeeper : OpensAt source i ↔ 0 < Text.widthAt source i ∧
      ∀ j, OpenBefore source i j → Text.widthAt source j < Text.widthAt source i := by
    simp [opensAt_iff, mem_before_widthAt_iff]
  cases i with
  | zero =>
      exact ⟨hdeeper, fun h => absurd h (Nat.lt_irrefl 0),
        fun h => absurd (hdeeper.1 h).1 (Nat.lt_irrefl 0)⟩
  | succ i =>
      rw [Nat.add_sub_cancel]
      refine ⟨hdeeper, fun hlt => hdeeper.2 ⟨Nat.zero_lt_of_lt hlt, fun j hj => ?_⟩,
        fun hopens hle => ?_⟩
      · rcases Nat.lt_succ_iff_lt_or_eq.1 hj.1 with hji | rfl
        · exact Nat.lt_of_le_of_lt (hj.2.2 i hji (Nat.lt_succ_self i)) hlt
        · exact hlt
      · obtain ⟨hpos, hall⟩ := hdeeper.1 hopens
        refine ⟨?_, fun j hj => Nat.lt_of_lt_of_le (hall j hj) hle⟩
        by_contra hcloses
        -- otherwise a block as deep as the line before is open
        have hopen : ∃ j, OpenBefore source (i + 1) j ∧
            Text.widthAt source j = Text.widthAt source i := by
          by_cases hprevious : OpensAt source i
          · exact ⟨i, ⟨Nat.lt_succ_self i, hprevious, fun k hik hk => by omega⟩, rfl⟩
          · have hmem := widthAt_mem_before (Nat.lt_of_lt_of_le hpos hle) hprevious hcloses
            rw [← mem_before_widthAt_iff, Indentation.before,
              Indentation.mem_afterLine_iff (Indentation.deepening_before _ i)]
            exact .inl ⟨hmem, Nat.le_refl _⟩
        obtain ⟨j, hj, hwidth⟩ := hopen
        have hlt := hall j hj
        omega

/-- Of two lines equally deep, the second can open a block. -/
theorem not_opensAt_iff_deeper_than_previous :
    ¬∀ (source : String) (i : Nat), 1 ≤ i → i ≤ (Text.lines source).length →
      (OpensAt source i ↔ Text.widthAt source (i - 1) < Text.widthAt source i) := by
  intro h
  have hthird := h "    a\n  b\n  c" 3 (by decide) (by decide)
  have hopens : OpensAt "    a\n  b\n  c" 3 := opensAt_iff_changeAt.2 (by decide)
  exact absurd (hthird.1 hopens) (by decide)

end IndentScript
