import IndentScript.Proofs.Phrases
import IndentScript.Proofs.Soundness

/-!
# Repetition without bounds

An item that passes a token whenever it is there is repeated until it is not: the bound on the
rounds never shows. All items that the rules repeat are of this kind, since each starts with a token
of its own.
-/

namespace IndentScript.Parser

open Grammar

variable {α : Type} {item : Parser (Option α)}

/-- Whenever the item is there, it has passed a token. -/
def Progresses (item : Parser (Option α)) : Prop :=
  ∀ s a t, item.outcome s = (.ok (some a), t) → t.ahead.length < s.ahead.length

namespace Reads

variable {s : Stream} {D : List Token → α → Prop} {p : Parser α}

/-- A success has passed a phrase. -/
theorem of_ok {a : α} {t : Stream} (h : p.Reads D s) (hrun : p.outcome s = (.ok a, t)) :
    ∃ w, s = t.prepend w ∧ D w a := by
  obtain ⟨w, v, u, rfl, hstop, hfit⟩ := h
  cases v with
  | ok b =>
      cases hstop.symm.trans hrun
      exact ⟨w, rfl, hfit⟩
  | error f => cases hstop.1.symm.trans hrun

/-- A failure has passed the beginning of a phrase. -/
theorem of_error {e : ParseError} {t : Stream} (h : p.Reads D s)
    (hrun : p.outcome s = (.error e, t)) :
    ∃ (w : List Token) (fault : Fault) (u : Stream), s = u.prepend w ∧
      e = fault.blame u.current ∧ t = fault.leaves u ∧ fault.AppliesTo u.current ∧
      ∃ rest a, D (w ++ rest) a := by
  obtain ⟨w, v, u, rfl, hstop, hfit⟩ := h
  cases v with
  | ok b => cases hstop.symm.trans hrun
  | error fault =>
      cases hstop.1.symm.trans hrun
      exact ⟨w, fault, u, rfl, rfl, rfl, hstop.2, hfit⟩

theorem progresses {D : List Token → Option α → Prop} (h : ∀ s, item.Reads D s)
    (hd : ∀ w a, D w (some a) → w ≠ []) : item.Progresses := by
  intro s a t hrun
  obtain ⟨w, rfl, hw⟩ := (h s).of_ok hrun
  have hpos := List.length_pos_iff.2 (hd w a hw)
  rw [Stream.length_ahead_prepend]
  omega

end Reads

/-! ## Rounds -/

theorem manyUpTo_eq (h : item.Progresses) {m n : Nat} {s : Stream} (hm : s.ahead.length < m)
    (hn : s.ahead.length < n) : (manyUpTo item m).outcome s = (manyUpTo item n).outcome s := by
  induction m generalizing n s with
  | zero => omega
  | succ m ih =>
      cases n with
      | zero => omega
      | succ n =>
          rw [outcome_manyUpTo_succ, outcome_manyUpTo_succ]
          rcases hrun : item.outcome s with ⟨e | (_ | a), t⟩
          · rfl
          · rfl
          · have hlt := h s a t hrun
            simp only
            rw [ih (n := n) (by omega) (by omega)]

/-- A repetition is the item and then the repetition, or nothing. -/
theorem outcome_many_step (h : item.Progresses) (s : Stream) :
    (many item).outcome s =
      match item.outcome s with
      | (.ok (some a), t) =>
        match (many item).outcome t with
        | (.ok as, u) => (.ok (a :: as), u)
        | (.error e, u) => (.error e, u)
      | (.ok none, t) => (.ok [], t)
      | (.error e, t) => (.error e, t) := by
  rw [outcome_many, outcome_manyUpTo_succ]
  rcases hrun : item.outcome s with ⟨e | (_ | a), t⟩
  · rfl
  · rfl
  · have hrounds : (manyUpTo item s.ahead.length).outcome t = (many item).outcome t :=
      manyUpTo_eq h (h s a t hrun) (Nat.lt_add_one _)
    rcases hrest : (many item).outcome t with ⟨e | as, u⟩ <;> simp only [hrounds, hrest]

theorem many_eq (h : item.Progresses) :
    many item = item >>= fun r =>
      match r with
      | some a => many item >>= fun as => pure (a :: as)
      | none => pure [] := by
  refine ext_outcome fun s => ?_
  rw [outcome_many_step h, outcome_bind]
  rcases item.outcome s with ⟨e | (_ | a), t⟩
  · rfl
  · rfl
  · simp only [outcome_bind]
    rcases (many item).outcome t with ⟨e | as, u⟩ <;> rfl

namespace Stops

theorem many_nil {s t : Stream} (hitem : item.Stops s (.ok none) t) :
    (many item).Stops s (.ok []) t := by
  have hrun : item.outcome s = (.ok none, t) := hitem
  simp only [Stops, outcome_many, outcome_manyUpTo_succ, hrun]

theorem many_cons (h : item.Progresses) {s t u : Stream} {a : α} {v : Except Fault (List α)}
    (hitem : item.Stops s (.ok (some a)) t) (hmany : (many item).Stops t v u) :
    (many item).Stops s (v.map (a :: ·)) u := by
  have hrun : item.outcome s = (.ok (some a), t) := hitem
  cases v with
  | ok as =>
      have hrest : (many item).outcome t = (.ok as, u) := hmany
      show (many item).outcome s = _
      rw [outcome_many_step h, hrun]
      simp only [hrest]
  | error fault =>
      refine ⟨?_, hmany.2⟩
      rw [outcome_many_step h, hrun]
      simp only [hmany.1]

end Stops

/-- A repetition ends in front of something that is not the item. -/
theorem many_ends (h : item.Progresses) {s t : Stream} {as : List α}
    (hrun : (many item).outcome s = (.ok as, t)) :
    ∃ u, item.outcome u = (.ok none, t) := by
  induction as generalizing s with
  | nil =>
      rw [outcome_many_step h] at hrun
      rcases hitem : item.outcome s with ⟨e | (_ | a), u⟩
      · simp [hitem] at hrun
      · simp only [hitem, Prod.mk.injEq, true_and] at hrun
        exact ⟨s, hrun ▸ hitem⟩
      · simp only [hitem] at hrun
        split at hrun <;> simp at hrun
  | cons a as ih =>
      rw [outcome_many_step h] at hrun
      rcases hitem : item.outcome s with ⟨e | (_ | b), u⟩
      · simp [hitem] at hrun
      · simp [hitem] at hrun
      · simp only [hitem] at hrun
        split at hrun
        · next hrest =>
          simp only [Prod.mk.injEq, Except.ok.injEq, List.cons.injEq] at hrun
          obtain ⟨⟨-, rfl⟩, rfl⟩ := hrun
          exact ih hrest
        · simp at hrun

/-! ## Items of the rules -/

theorem progresses_tail? {ω : Type} {ofKind? : Kind → Option ω} {node : ω → Expr → Expr → Expr}
    {level : Level} {operand : Parser Expr} (hnode : ∀ k, level.node? k = (ofKind? k).map node)
    (h : ∀ s, operand.Reads (Phrase level.operand) s) : (tail? ofKind? operand).Progresses := by
  refine Reads.progresses (Reads.tail? hnode h) ?_
  rintro w r ⟨t, v, rfl, -⟩
  exact List.cons_ne_nil t v

theorem progresses_further : further.Progresses := by
  refine Reads.progresses Reads.further ?_
  rintro w d ⟨c, v, rfl, -⟩
  exact List.cons_ne_nil c v

theorem progresses_statementBefore (stop : Kind) {nested : Parser Stmt}
    (h : ∀ s, nested.Reads Sentence s) : (statementBefore stop nested).Progresses :=
  Reads.progresses (Reads.statementBefore stop h) fun _ _ hs => hs.ne_nil

/-- Statements are read until the token that stops them. -/
theorem statementsUntil_ends {stop : Kind} {nested : Parser Stmt} (h : ∀ s, nested.Reads Sentence s)
    {s t : Stream} {body : List Stmt}
    (hrun : (statementsUntil stop nested).outcome s = (.ok body, t)) : t.current.kind = stop := by
  rw [statementsUntil] at hrun
  obtain ⟨u, hu⟩ := many_ends (progresses_statementBefore stop h) hrun
  rw [statementBefore, outcome_peek_bind] at hu
  split at hu
  · next hk =>
    cases hu
    exact hk
  · obtain ⟨a, v, _, hv⟩ := outcome_bind_eq_ok hu
    cases hv

end IndentScript.Parser
