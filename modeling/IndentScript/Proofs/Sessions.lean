import IndentScript.Proofs.Acceptance

/-!
# Sessions

A session reads programs from one stream, each reading from where the one before stopped, be it at
an end token or at an error in the middle of a statement. A reading only ever passes tokens. If it
passes none, it is repeated by all that follow, and so every session settles within as many readings
as there are tokens.
-/

namespace IndentScript

open Grammar IndentScript.Parser

namespace Stream

/-! ## The cursor -/

/-- The outcome of the reading that comes after the given number of others. -/
def reading (s : Stream) (calls : Nat) : Except ParseError Program :=
  (s.after calls).readProgram.1

theorem readings_eq (s : Stream) (calls : Nat) :
    s.readings calls = (List.range calls).map s.reading := by
  induction calls generalizing s with
  | zero => rfl
  | succ calls ih =>
      rw [readings, ih, List.range_succ_eq_map, List.map_cons, List.map_map]
      rfl

theorem after_add (s : Stream) (i j : Nat) : s.after (i + j) = (s.after i).after j := by
  induction i generalizing s with
  | zero => rw [Nat.zero_add]; rfl
  | succ i ih => rw [Nat.succ_add, after, ih]; rfl

theorem after_succ (s : Stream) (i : Nat) : s.after (i + 1) = (s.after i).readProgram.2 :=
  after_add s i 1

/-- The tokens behind the cursor and those ahead of it are those of the stream. -/
theorem exists_prepend_after (s : Stream) (i : Nat) :
    ∃ w, s = (s.after i).prepend w ∧ w.length = s.passed i := by
  have hprepend : ∃ w, s = (s.after i).prepend w := by
    induction i with
    | zero => exact ⟨[], rfl⟩
    | succ i ih =>
        obtain ⟨w, hw⟩ := ih
        obtain ⟨v, hv⟩ := Stepwise.program.exists_prepend (s.after i)
        refine ⟨w ++ v, ?_⟩
        calc s = (s.after i).prepend w := hw
          _ = ((s.after (i + 1)).prepend v).prepend w := by rw [after_succ, readProgram, ← hv]
          _ = (s.after (i + 1)).prepend (w ++ v) := prepend_prepend w v _
  obtain ⟨w, hw⟩ := hprepend
  have hlength : s.ahead.length = w.length + (s.after i).ahead.length :=
    (congrArg (fun t => t.ahead.length) hw).trans (length_ahead_prepend w _)
  exact ⟨w, hw, by rw [passed, hlength, Nat.add_sub_cancel]⟩

/-- What is left to read is the list from the cursor on. -/
theorem toList_after (s : Stream) (i : Nat) : (s.after i).toList = s.toList.drop (s.passed i) := by
  obtain ⟨w, hw, hlength⟩ := s.exists_prepend_after i
  have hlist : s.toList = w ++ (s.after i).toList :=
    (congrArg toList hw).trans (toList_prepend w _)
  rw [hlist, ← hlength, List.drop_left]

theorem passed_lt (s : Stream) (i : Nat) : s.passed i < s.toList.length := by
  rw [passed, toList, List.length_append, List.length_singleton]
  omega

/-- The readings after some others pass what the others left. -/
theorem passed_add (s : Stream) (i j : Nat) :
    s.passed (i + j) = s.passed i + (s.after i).passed j := by
  obtain ⟨w, hw, hlength⟩ := s.exists_prepend_after i
  obtain ⟨v, hv, hlength'⟩ := (s.after i).exists_prepend_after j
  rw [← after_add] at hv
  have hs : s.ahead.length = w.length + (v.length + (s.after (i + j)).ahead.length) := by
    rw [← length_ahead_prepend, ← hv, ← length_ahead_prepend, ← hw]
  rw [← hlength, ← hlength', passed, hs]
  omega

theorem passed_mono (s : Stream) {i j : Nat} (h : i ≤ j) : s.passed i ≤ s.passed j := by
  obtain ⟨k, rfl⟩ := Nat.exists_eq_add_of_le h
  rw [passed_add]
  exact Nat.le_add_right _ _

/-! ## Sessions that settle -/

/-- A reading that succeeds stops in front of an end token. -/
theorem current_of_readProgram {s t : Stream} {p : Program} (h : s.readProgram = (.ok p, t)) :
    t.current.kind = .eof := by
  obtain ⟨body, u, hbody, hrest⟩ := outcome_bind_eq_ok h
  cases hrest
  exact statementsUntil_ends Reads.statement hbody

theorem readProgram_of_eof {s : Stream} (h : s.current.kind = .eof) :
    s.readProgram = (.ok ⟨[]⟩, s) :=
  Program.stops_program (w := []) .nil h

theorem passed_of_eof {s : Stream} (h : s.current.kind = .eof) : s.passed 1 = 0 := by
  show s.ahead.length - s.readProgram.2.ahead.length = 0
  rw [readProgram_of_eof h, Nat.sub_self]

theorem after_of_passed {s : Stream} (h : s.passed 1 = 0) (i : Nat) : s.after i = s := by
  have hone : s.after 1 = s := by
    obtain ⟨w, hw, hlength⟩ := s.exists_prepend_after 1
    rw [h, List.length_eq_zero_iff] at hlength
    rw [hlength] at hw
    exact hw.symm
  induction i with
  | zero => rfl
  | succ i ih => rw [Nat.add_comm, after_add, hone, ih]

/-- A reading that passes no token is repeated by all that follow. -/
theorem reading_of_passed {s : Stream} {i j : Nat} (h : s.passed (i + 1) = s.passed i)
    (hle : i ≤ j) : s.reading j = s.reading i := by
  obtain ⟨k, rfl⟩ := Nat.exists_eq_add_of_le hle
  have hnone : (s.after i).passed 1 = 0 := by
    rw [passed_add] at h
    omega
  rw [reading, after_add, after_of_passed hnone, reading]

/-- There are not tokens enough for every reading to pass one. -/
theorem exists_passed_eq (s : Stream) :
    ∃ i, i + 1 ≤ s.toList.length ∧ s.passed (i + 1) = s.passed i := by
  by_contra hall
  have hgrows : ∀ i ≤ s.toList.length, i ≤ s.passed i := by
    intro i
    induction i with
    | zero => exact fun _ => Nat.zero_le _
    | succ i ih =>
        intro hi
        have hle : s.passed i ≤ s.passed (i + 1) := s.passed_mono (Nat.le_succ i)
        have hne : s.passed (i + 1) ≠ s.passed i := fun h => hall ⟨i, hi, h⟩
        have hi' := ih (Nat.le_of_succ_le hi)
        omega
  exact absurd (hgrows _ (Nat.le_refl _)) (Nat.not_le_of_lt (s.passed_lt _))

/-- Every session settles. The cursor stands in the list of tokens and never moves backwards. After
a success there is nothing left but empty programs, and after a reading that passes no token its
outcome is repeated for ever. That is so from the reading on whose number is that of the tokens. -/
theorem session_settles (tokens : List Token) :
    let s := ofTokens tokens
    let n := s.toList.length
    (∀ i, s.passed i < n ∧ (s.after i).toList = s.toList.drop (s.passed i)) ∧
      (∀ i, s.passed i ≤ s.passed (i + 1)) ∧
      (∀ i p, s.reading i = .ok p → ∀ j, i < j → s.reading j = .ok ⟨[]⟩) ∧
      (∀ i, s.passed (i + 1) = s.passed i → ∀ j, i ≤ j → s.reading j = s.reading i) ∧
      ∀ number, n ≤ number → s.reading (number - 1) = s.reading (n - 1) := by
  intro s n
  refine ⟨fun i => ⟨s.passed_lt i, s.toList_after i⟩, fun i => s.passed_mono (Nat.le_succ i), ?_,
    fun i h j hle => reading_of_passed h hle, fun number hn => ?_⟩
  · intro i p hp j hij
    have hrun : (s.after i).readProgram = (.ok p, s.after (i + 1)) :=
      Prod.ext hp (s.after_succ i).symm
    have hend := current_of_readProgram hrun
    obtain ⟨k, rfl⟩ := Nat.exists_eq_add_of_le hij
    rw [reading, after_add, after_of_passed (passed_of_eof hend), readProgram_of_eof hend]
  · obtain ⟨i, hi, hstuck⟩ := s.exists_passed_eq
    have hlast : i ≤ n - 1 := Nat.le_sub_one_of_lt hi
    calc s.reading (number - 1) = s.reading i :=
          reading_of_passed hstuck (hlast.trans (Nat.sub_le_sub_right hn 1))
      _ = s.reading (n - 1) := (reading_of_passed hstuck hlast).symm

end Stream

end IndentScript
