import IndentScript.Proofs.Blame

/-!
# Steps of a parser

Every stream on the way of a run lies between the first one and the last one, and no end token is
passed on the way to the last: so the cursor of a session never leaves the list, nor gets behind its
first end token. Statements and expressions pass a token at least, and for that reason every
repetition comes to its end within as many rounds as there are tokens, with no bound that says so.
-/

namespace IndentScript

open Grammar IndentScript.Parser

namespace Parser

variable {α : Type}

/-! ## Repetition in its own time -/

/-- `item.Repeats s rounds r t`: repeated without any bound, the item is there as many times as
`rounds` says, and then the repetition ends at `t`, because the item is no longer there or because
it fails. -/
inductive Repeats (item : Parser (Option α)) : Stream → Nat → Except ParseError (List α) →
    Stream → Prop where
  | done {s t} : item.outcome s = (.ok none, t) → Repeats item s 0 (.ok []) t
  | failed {s e t} : item.outcome s = (.error e, t) → Repeats item s 0 (.error e) t
  | round {s a t rounds r u} : item.outcome s = (.ok (some a), t) → Repeats item t rounds r u →
      Repeats item s (rounds + 1) (r.map (a :: ·)) u

/-- The repetition of the item ends in fewer rounds than there are tokens, and as `many` says. -/
def EndsInTime (item : Parser (Option α)) : Prop :=
  ∀ s : Stream, ∃ rounds < s.toList.length,
    item.Repeats s rounds ((many item).outcome s).1 ((many item).outcome s).2

/-- An item that passes a token whenever it is there cannot be there more often than tokens are. -/
theorem Progresses.endsInTime {item : Parser (Option α)} (h : item.Progresses) :
    item.EndsInTime := by
  intro s
  have hrounds : ∃ rounds ≤ s.ahead.length,
      item.Repeats s rounds ((many item).outcome s).1 ((many item).outcome s).2 := by
    induction hn : s.ahead.length using Nat.strongRecOn generalizing s with
    | _ n ih =>
      subst hn
      rw [outcome_many_step h]
      rcases hitem : item.outcome s with ⟨e | (_ | a), t⟩
      · exact ⟨0, Nat.zero_le _, .failed hitem⟩
      · exact ⟨0, Nat.zero_le _, .done hitem⟩
      · have hlt := h s a t hitem
        obtain ⟨rounds, hle, hrepeats⟩ := ih _ hlt t rfl
        refine ⟨rounds + 1, by omega, ?_⟩
        have hround := Repeats.round hitem hrepeats
        rcases hmany : (many item).outcome t with ⟨e | as, u⟩ <;>
          simpa only [hmany, Except.map] using hround
  obtain ⟨rounds, hle, hrepeats⟩ := hrounds
  exact ⟨rounds, by simp [Stream.toList]; omega, hrepeats⟩

/-! ## Tokens that are passed -/

/-- Where only phrases without end tokens are read, no end token is passed. -/
theorem Reads.exists_prepend {D : List Token → α → Prop} {p : Parser α} {s : Stream}
    (h : p.Reads D s) (hD : ∀ w a, D w a → ∀ t ∈ w, t.kind ≠ .eof) :
    ∃ w, s = (p.outcome s).2.prepend w ∧ ∀ t ∈ w, t.kind ≠ .eof := by
  rcases hrun : p.outcome s with ⟨e | a, t⟩
  · obtain ⟨w, fault, u, hs, -, rfl, happlies, rest, a, hd⟩ := h.of_error hrun
    have hw : ∀ t ∈ w, t.kind ≠ .eof := fun t ht => hD _ a hd t (List.mem_append_left rest ht)
    cases fault with
    | unexpected | expected | target => exact ⟨w, hs, hw⟩
    | number =>
        obtain ⟨e, he⟩ := happlies
        have hk := Token.kind_ne_eof_of_operand? he
        refine ⟨w ++ [u.current], ?_, by simpa [or_imp, forall_and] using ⟨hw, hk⟩⟩
        rw [hs, ← Stream.prepend_prepend]
        exact congrArg _ (Stream.eq_prepend_current hk)
  · obtain ⟨w, hs, hd⟩ := h.of_ok hrun
    exact ⟨w, hs, hD w a hd⟩

end Parser

/-! ## Steps of a session -/

namespace Stream

/-- No reading passes an end token. -/
theorem exists_prepend_after_ne_eof (s : Stream) (i : Nat) :
    ∃ w, s = (s.after i).prepend w ∧ ∀ t ∈ w, t.kind ≠ .eof := by
  induction i with
  | zero => exact ⟨[], rfl, by simp⟩
  | succ i ih =>
      obtain ⟨w, hs, hw⟩ := ih
      obtain ⟨v, hv, hne⟩ := (Reads.program (s.after i)).exists_prepend fun _ _ h => h.ne_eof
      refine ⟨w ++ v, ?_, List.forall_mem_append.2 ⟨hw, hne⟩⟩
      rw [after_succ, readProgram, ← prepend_prepend, ← hv]
      exact hs

/-- Behind tokens that are no end tokens, the cursor stands in the list and not behind the first end
token of it. -/
theorem exists_cursor {s u : Stream} {w : List Token} (hs : s = u.prepend w)
    (hw : ∀ t ∈ w, t.kind ≠ .eof) :
    ∃ cursor ≤ s.toList.findIdx fun t => t.kind = .eof, u.toList = s.toList.drop cursor := by
  refine ⟨w.length, ?_, by simp [hs]⟩
  rw [hs, toList_prepend, List.findIdx_append, if_neg (by simpa using hw)]
  exact Nat.le_add_left _ _

/-- Wherever a run of a session comes, the cursor is not behind the first end token. -/
theorem exists_cursor_of_walks {s t u : Stream} {i : Nat} {trail : List Stream}
    {r : Except ParseError Program} (h : program.Walks (s.after i) trail r t)
    (hu : u ∈ s.after i :: trail) :
    ∃ cursor ≤ s.toList.findIdx fun t => t.kind = .eof, u.toList = s.toList.drop cursor := by
  obtain ⟨front, hs, hfront⟩ := s.exists_prepend_after_ne_eof i
  obtain ⟨w, hw, hne⟩ := (Reads.program (s.after i)).exists_prepend fun _ _ h => h.ne_eof
  rw [h.outcome_eq] at hw
  rcases List.mem_cons.1 hu with rfl | hu
  · exact exists_cursor hs hfront
  · -- what is passed before `u` is a part of what is passed before `t`
    obtain ⟨⟨v, hv⟩, x, hx⟩ := h.between u hu
    have hvw : v ++ x = w := by
      rw [hv, hx, prepend_prepend] at hw
      exact List.append_cancel_right (congrArg ahead hw)
    have hpassed : s = u.prepend (front ++ v) := by
      rw [← prepend_prepend, ← hv]
      exact hs
    rw [← hvw] at hne
    exact exists_cursor hpassed
      (List.forall_mem_append.2 ⟨hfront, (List.forall_mem_append.1 hne).1⟩)

/-- The cursor of a session is safe. At every single step of every reading the stream is the rest of
the list of tokens from some place on, and that place is in the list and not behind its first end
token. From every stream, a statement or an expression that is read has passed a token at least, and
the repetitions of the rules end in time: statements up to the token that stops them, declarations
behind commas, and operands behind the operators of products and of sums. -/
theorem session_steps (tokens : List Token) :
    let s := ofTokens tokens
    let firstEnd := s.toList.findIdx fun t => t.kind = .eof
    firstEnd < s.toList.length ∧
      (∀ i, (∃ trail, program.Walks (s.after i) trail (s.reading i) (s.after (i + 1))) ∧
        ∀ trail r t, program.Walks (s.after i) trail r t → ∀ u ∈ s.after i :: trail,
          ∃ cursor ≤ firstEnd, u.toList = s.toList.drop cursor) ∧
      (∀ u a t, statement.outcome u = (.ok a, t) → ∃ w, w ≠ [] ∧ u = t.prepend w) ∧
      (∀ u e t, expression.outcome u = (.ok e, t) → ∃ w, w ≠ [] ∧ u = t.prepend w) ∧
      (∀ stop, (statementBefore stop statement).EndsInTime) ∧
      further.EndsInTime ∧
      (tail? (BinaryOp.ofKindAt? .multiplicative) (primary expression)).EndsInTime ∧
      (tail? (BinaryOp.ofKindAt? .additive) (multiplicative expression)).EndsInTime := by
  intro s firstEnd
  refine ⟨?_, fun i => ⟨?_, fun trail r t hwalk u => exists_cursor_of_walks hwalk⟩,
    fun u a t hrun => ?_, fun u e t hrun => ?_, fun stop => ?_, progresses_further.endsInTime,
    ?_, ?_⟩
  · exact List.findIdx_lt_length_of_exists ⟨s.last, by simp [toList], by simp [s.last_kind]⟩
  · obtain ⟨trail, hwalk⟩ := Stepwise.program (s.after i)
    exact ⟨trail, by rw [after_succ]; exact hwalk⟩
  · obtain ⟨w, hw, hphrase⟩ := (Reads.statement u).of_ok hrun
    exact ⟨w, hphrase.ne_nil, hw⟩
  · obtain ⟨w, hw, hphrase⟩ := (Reads.expression u).of_ok hrun
    obtain ⟨x, v, rfl, -⟩ := hphrase.starts
    exact ⟨x :: v, List.cons_ne_nil x v, hw⟩
  · exact (progresses_statementBefore stop Reads.statement).endsInTime
  · exact (progresses_tail? (Level.node?_ofBinary .multiplicative)
      (Reads.primary Reads.expression)).endsInTime
  · exact (progresses_tail? (Level.node?_ofBinary .additive)
      (Reads.atLevel Reads.expression .multiplicative)).endsInTime

end Stream

end IndentScript
