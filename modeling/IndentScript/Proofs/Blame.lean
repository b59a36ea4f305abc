import IndentScript.Proofs.Determined
import IndentScript.Proofs.Sessions

/-!
# Errors that tell the truth

Where a reading fails, its error can be checked against the tokens: those in front of the cursor and
the one at it. Each rule is followed with the tokens that were passed before it was entered, since
what an error says may be about them: a name is missed behind `let` or a comma only, and a name is
refused as a target only as the operand of an operator.
-/

namespace IndentScript

open Grammar IndentScript.Parser

/-! ## What an error says -/

/-- The kinds of the operators of arithmetic, comparison and logic. -/
def Kind.isInfix : Kind → Bool
  | and | or | is | not | equal | notEqual | less | lessEqual | greater | greaterEqual
  | plus | minus | star | slash | percent => true
  | _ => false

/-- The kinds of the operators of an assignment. -/
def Kind.assigns : Kind → Bool
  | assign | plusAssign | minusAssign | starAssign | slashAssign => true
  | _ => false

theorem Kind.isInfix_of_node? {level : Level} {k : Kind} {node : Expr → Expr → Expr}
    (h : level.node? k = some node) : k.isInfix = true := by
  cases level <;> cases k <;> cases h <;> rfl

theorem Kind.assigns_of_ofKind? {k : Kind} {op : AssignOp} (h : AssignOp.ofKind? k = some op) :
    k.assigns = true := by
  cases k <;> cases h <;> rfl

/-- The tokens end in something that is not a name by itself. -/
inductive NoTarget : List Token → Prop where
  | other {w x} : x.kind ≠ .ident → NoTarget (w ++ [x])
  | operand {w o x} : o.kind.isInfix = true → NoTarget (w ++ [o, x])

/-- `e.Truthful front t`: with the tokens `front` passed and `t` at the cursor, the error is
right. -/
inductive ParseError.Truthful : List Token → Token → ParseError → Prop where
  | unexpected {front t} : t.kind.startsPhrase = false →
      Truthful front t (.unexpectedToken t.kind t.text t.location)
  | noThen {front t} : t.kind ≠ .thenWord →
      Truthful front t (.expectedToken .thenWord t.kind t.location)
  | noParen {front t} : t.kind ≠ .rightParen →
      Truthful front t (.expectedToken .rightParen t.kind t.location)
  | noName {front x t} : x.kind = .letWord ∨ x.kind = .comma → t.kind ≠ .ident →
      Truthful (front ++ [x]) t (.expectedToken .ident t.kind t.location)
  | target {front t} : t.kind.assigns = true → NoTarget front →
      Truthful front t (.invalidAssignmentTarget t.location)
  | integer {front x t} : x.kind = .int → Numeral.int64? x.text = none →
      Truthful (front ++ [x]) t (.invalidNumberLiteral x.text x.location)
  | fraction {front x t} : x.kind = .float →
      (∀ v, Numeral.binary64? x.text = some v → v.isFinite = false) →
      Truthful (front ++ [x]) t (.invalidNumberLiteral x.text x.location)

theorem NoTarget.prepend {w : List Token} (h : NoTarget w) (front : List Token) :
    NoTarget (front ++ w) := by
  cases h with
  | other hx =>
      rw [← List.append_assoc]
      exact .other hx
  | operand ho =>
      rw [← List.append_assoc]
      exact .operand ho

/-- Below the assignments, an expression that is not a name does not look like one at its end. -/
theorem Grammar.Phrase.noTarget {level : Level} {w : List Token} {e : Expr} (h : Phrase level w e)
    (hlevel : level ≠ .assignment) : (∃ name, e = .ident name) ∨ NoTarget w := by
  induction h with
  | @terminal t e ht =>
      cases ht with
      | ident => exact .inl ⟨_, rfl⟩
      | int hk | float hk | string hk | trueWord hk | falseWord hk | nilWord hk =>
          exact .inr (.other (w := []) (by simp [hk]))
  | @group l w r e hl _ hr => exact .inr (.other (w := l :: w) (by simp [hr]))
  | @tighter level _ _ _ ih => exact ih (by cases level <;> decide)
  | @chain level w o v node l r _ hnode _ hright _ ih
  | @pair level w o v node l r _ hnode _ hright _ ih =>
      refine .inr ?_
      rcases ih (by cases level <;> decide) with ⟨name, rfl⟩ | hv
      · obtain ⟨x, rfl, -⟩ := hright.eq_of_ident
        exact .operand (Kind.isInfix_of_node? hnode)
      · have hprepend := hv.prepend (w ++ [o])
        rwa [List.append_assoc] at hprepend
  | assign => exact absurd rfl hlevel

/-- A number token is blamed for its text. -/
theorem Token.truthful_of_operand? {x : Token} {e : ParseError} (h : x.operand? = some (.error e))
    (front : List Token) (t : Token) : e.Truthful (front ++ [x]) t := by
  rw [Token.operand?] at h
  split at h
  · next hk =>
    split at h
    · simp at h
    · next hnone =>
      cases h
      exact .integer hk hnone
  · next hk =>
    split at h
    · next v hv =>
      split at h
      · simp at h
      · next hfin =>
        cases h
        refine .fraction hk fun v' hv' => ?_
        rw [hv] at hv'
        cases hv'
        simpa using hfin
    · next hnone =>
      cases h
      exact .fraction hk fun v hv => by simp [hnone] at hv
  all_goals cases h

theorem Token.startsPhrase_of_operand? {t : Token} (h : t.operand? = none)
    (hk : t.kind ≠ .leftParen) : t.kind.startsPhrase = false := by
  rw [Token.operand?_eq_none_iff] at h
  revert h hk
  cases t.kind <;> simp [Kind.isOperand, Kind.startsPhrase]

namespace Parser

variable {α β : Type}

/-- Behind the tokens `front`, the parser fails on the stream with truthful errors only. -/
def Blames (front : List Token) (p : Parser α) (s : Stream) : Prop :=
  ∀ e t, p.outcome s = (.error e, t) → ∃ w, s = t.prepend w ∧ e.Truthful (front ++ w) t.current

namespace Blames

variable {front : List Token} {s : Stream}

theorem congr {p q : Parser α} (h : p.outcome s = q.outcome s) (hq : q.Blames front s) :
    p.Blames front s :=
  fun e t hrun => hq e t (h ▸ hrun)

theorem pure (a : α) : (Pure.pure a : Parser α).Blames front s := by
  intro e t hrun
  cases hrun

theorem throw {e : ParseError} (h : e.Truthful front s.current) :
    (MonadExcept.throw e : Parser α).Blames front s := by
  intro e' t hrun
  cases hrun
  exact ⟨[], rfl, by rwa [List.append_nil]⟩

theorem unexpected (h : s.current.kind.startsPhrase = false) :
    (Parser.unexpected : Parser α).Blames front s :=
  (throw (.unexpected h)).congr rfl

theorem bind {p : Parser α} {f : α → Parser β} (hsteps : p.Stepwise) (hp : p.Blames front s)
    (hf : ∀ w a t, s = t.prepend w → p.outcome s = (.ok a, t) → (f a).Blames (front ++ w) t) :
    (p >>= f).Blames front s := by
  intro e t hrun
  rw [outcome_bind] at hrun
  rcases h : p.outcome s with ⟨e' | a, u⟩
  · simp only [h] at hrun
    cases hrun
    exact hp e t h
  · simp only [h] at hrun
    obtain ⟨w, hw⟩ := hsteps.exists_prepend s
    rw [h] at hw
    obtain ⟨v, hv, htruthful⟩ := hf w a u hw h e t hrun
    refine ⟨w ++ v, ?_, by rwa [← List.append_assoc]⟩
    rw [← Stream.prepend_prepend, ← hv]
    exact hw

theorem peek_bind {f : Token → Parser α} (h : (f s.current).Blames front s) :
    (Parser.peek >>= f).Blames front s :=
  h.congr (outcome_peek_bind f s)

theorem advance_bind {f : Unit → Parser α} (hs : s.current.kind ≠ .eof)
    (h : (f ()).Blames (front ++ [s.current]) s.next) : (Parser.advance >>= f).Blames front s := by
  intro e t hrun
  rw [outcome_advance_bind] at hrun
  obtain ⟨w, hw, htruthful⟩ := h e t hrun
  refine ⟨s.current :: w, ?_, by rwa [List.append_assoc] at htruthful⟩
  calc s = s.next.prepend [s.current] := Stream.eq_prepend_current hs
    _ = t.prepend (s.current :: w) := by rw [hw, Stream.prepend_prepend]; rfl

theorem accept_bind {kind : Kind} {f : Bool → Parser α} (hk : kind ≠ .eof)
    (hfound : s.current.kind = kind → (f true).Blames (front ++ [s.current]) s.next)
    (hother : s.current.kind ≠ kind → (f false).Blames front s) :
    (Parser.accept kind >>= f).Blames front s := by
  by_cases h : s.current.kind = kind
  · exact (advance_bind (h ▸ hk) (hfound h)).congr (outcome_accept_bind f h)
  · exact (hother h).congr (outcome_bind_ok (Stops.accept_other h))

theorem expect_bind {kind : Kind} {f : Token → Parser α} (hk : kind ≠ .eof)
    (hmissing : s.current.kind ≠ kind →
      (ParseError.expectedToken kind s.current.kind s.current.location).Truthful front s.current)
    (hfound : s.current.kind = kind → (f s.current).Blames (front ++ [s.current]) s.next) :
    (Parser.expect kind >>= f).Blames front s := by
  by_cases h : s.current.kind = kind
  · exact (advance_bind (h ▸ hk) (hfound h)).congr (outcome_expect_bind f h)
  · exact (throw (hmissing h)).congr (Stops.expect_other h).bind_error.1

theorem operator?_bind {ω : Type} {ofKind? : Kind → Option ω} {f : Option ω → Parser α}
    (heof : ofKind? .eof = none)
    (hfound : ∀ op, (f (some op)).Blames (front ++ [s.current]) s.next)
    (hother : (f none).Blames front s) : (Parser.operator? ofKind? >>= f).Blames front s := by
  cases h : ofKind? s.current.kind with
  | none => exact hother.congr (outcome_bind_ok (Stops.operator?_none h))
  | some op =>
      have hne := Kind.ne_eof_of_ofKind? heof h
      exact (advance_bind hne (hfound op)).congr (outcome_operator?_bind f h)

end Blames

/-- The parser fails in this way on every stream with fewer than `n` tokens ahead. -/
def BlamesBelow (n : Nat) (p : Parser α) : Prop :=
  ∀ front s, s.ahead.length < n → p.Blames front s

namespace BlamesBelow

variable {n : Nat}

theorem pure (a : α) : BlamesBelow n (Pure.pure a : Parser α) :=
  fun _ _ _ => .pure a

theorem bind {p : Parser α} {f : α → Parser β} (hsteps : p.Stepwise) (hp : BlamesBelow n p)
    (hf : ∀ a, BlamesBelow n (f a)) : BlamesBelow n (p >>= f) := by
  intro front s hs
  refine .bind hsteps (hp front s hs) fun w a t ht _ => hf a _ t ?_
  rw [ht, Stream.length_ahead_prepend] at hs
  omega

theorem many {item : Parser (Option α)} (hsteps : item.Stepwise) (h : BlamesBelow n item) :
    BlamesBelow n (Parser.many item) := by
  have hrounds : ∀ rounds, BlamesBelow n (Parser.manyUpTo item rounds) := by
    intro rounds
    induction rounds with
    | zero => exact pure []
    | succ rounds ih =>
        refine bind hsteps h fun a => ?_
        cases a with
        | none => exact pure []
        | some a => exact bind (.manyUpTo hsteps rounds) ih fun as => pure (a :: as)
  exact fun front s hs => (hrounds _ front s hs).congr (outcome_many item s)

/-! ## Expressions -/

theorem primary {nested : Parser Expr} (hsteps : nested.Stepwise) (h : BlamesBelow n nested) :
    BlamesBelow (n + 1) (Parser.primary nested) := by
  intro front s hs
  refine .peek_bind ?_
  cases hop : s.current.operand? with
  | some r =>
      refine .advance_bind (Token.kind_ne_eof_of_operand? hop) ?_
      cases r with
      | ok e => exact .pure e
      | error e => exact .throw (Token.truthful_of_operand? hop front s.next.current)
  | none =>
      refine .accept_bind (by decide) (fun hl => ?_)
        (fun hl => .unexpected (Token.startsPhrase_of_operand? hop hl))
      have hlt := Stream.length_next_lt (s := s) (by simp [hl])
      refine .bind hsteps (h _ s.next (by omega)) fun w e t _ _ => ?_
      exact .expect_bind (by decide) .noParen fun _ => .pure _

variable {ω : Type} {ofKind? : Kind → Option ω} {node : ω → Expr → Expr → Expr}
  {operand : Parser Expr}

theorem tail? (heof : ofKind? .eof = none) (hsteps : operand.Stepwise)
    (h : BlamesBelow n operand) : BlamesBelow n (Parser.tail? ofKind? operand) := by
  intro front s hs
  refine .operator?_bind heof (fun op => ?_) (.pure none)
  have hle := s.length_next_le
  exact .bind hsteps (h _ s.next (by omega)) fun w e t _ _ => .pure _

theorem single (heof : ofKind? .eof = none) (hsteps : operand.Stepwise)
    (h : BlamesBelow n operand) : BlamesBelow n (Parser.single ofKind? node operand) := by
  refine bind hsteps h fun left => bind (.tail? hsteps) (tail? heof hsteps h) fun r => ?_
  cases r with
  | none => exact pure left
  | some r => exact pure (node r.1 left r.2)

theorem chain (heof : ofKind? .eof = none) (hsteps : operand.Stepwise)
    (h : BlamesBelow n operand) : BlamesBelow n (Parser.chain ofKind? node operand) :=
  bind hsteps h fun _ => bind (.many (.tail? hsteps))
    (many (.tail? hsteps) (tail? heof hsteps h)) fun _ => pure _

theorem disjunction {nested : Parser Expr} (hsteps : nested.Stepwise)
    (h : BlamesBelow n nested) : BlamesBelow (n + 1) (Parser.disjunction nested) := by
  have ha := hsteps.primary
  exact single rfl (.single (.single (.single (.chain (.chain ha)))))
    (single rfl (.single (.single (.chain (.chain ha))))
      (single rfl (.single (.chain (.chain ha)))
        (single rfl (.chain (.chain ha))
          (chain rfl (.chain ha) (chain rfl ha (primary hsteps h))))))

/-- What is refused as a target is a phrase of the next level that is not a name. -/
theorem assignment (h : BlamesBelow n Parser.expression) :
    BlamesBelow (n + 1) (Parser.assignment Parser.expression) := by
  intro front s hs
  refine .bind (.disjunction .expression) (disjunction .expression h front s hs)
    fun w left t ht hrun => .peek_bind ?_
  have hle : t.ahead.length ≤ s.ahead.length := by rw [ht, Stream.length_ahead_prepend]; omega
  cases hop : AssignOp.ofKind? t.current.kind with
  | none => exact .pure left
  | some op =>
      obtain ⟨v, hv, hphrase⟩ := (Reads.atLevel Reads.expression .disjunction s).of_ok hrun
      have hvw : v = w := List.append_cancel_right (congrArg Stream.ahead (hv.symm.trans ht))
      have hlooks := hphrase.noTarget (by decide)
      cases left with
      | ident name =>
          have hne := Kind.ne_eof_of_ofKind? rfl hop
          have hlt := Stream.length_next_lt hne
          refine .advance_bind hne ?_
          exact .bind .expression (h _ t.next (by omega)) fun _ e _ _ _ => .pure _
      | _ =>
          have htarget : NoTarget w := hvw ▸ hlooks.resolve_left (by simp)
          exact .throw (.target (Kind.assigns_of_ofKind? hop) (htarget.prepend front))

theorem expression (n : Nat) : BlamesBelow n Parser.expression := by
  induction n with
  | zero => exact fun _ _ hs => absurd hs (Nat.not_lt_zero _)
  | succ n ih =>
      rw [expression_eq]
      exact assignment ih

/-! ## Statements -/

/-- A declaration is read behind `let` or a comma only. -/
theorem declaration {front : List Token} {x : Token} (hx : x.kind = .letWord ∨ x.kind = .comma)
    (s : Stream) : Parser.declaration.Blames (front ++ [x]) s := by
  refine .expect_bind (by decide) (.noName hx) fun _ => ?_
  refine .accept_bind (by decide) (fun _ => ?_) (fun _ => .pure _)
  exact .bind .expression (expression _ _ _ (Nat.lt_add_one _)) fun _ e _ _ _ => .pure _

theorem further : BlamesBelow n Parser.further := by
  intro front s _
  refine .accept_bind (by decide) (fun hc => ?_) (fun _ => .pure none)
  exact .bind .declaration (declaration (.inr hc) s.next) fun _ d _ _ _ => .pure _

theorem declarations {front : List Token} {x : Token} (hx : x.kind = .letWord) (s : Stream) :
    Parser.declarations.Blames (front ++ [x]) s := by
  refine .bind .declaration (declaration (.inl hx) s) fun w d t _ _ => ?_
  have hmany := many .further (further (n := t.ahead.length + 1))
  exact .bind (.many .further) (hmany _ t (Nat.lt_add_one _)) fun _ ds _ _ _ => .pure _

theorem statementBefore (stop : Kind) (h : BlamesBelow n Parser.statement) :
    BlamesBelow n (Parser.statementBefore stop Parser.statement) := by
  intro front s hs
  refine .peek_bind ?_
  split
  · exact .pure none
  · exact .bind .statement (h front s hs) fun _ a _ _ _ => .pure _

theorem statementsUntil (stop : Kind) (h : BlamesBelow n Parser.statement) :
    BlamesBelow n (Parser.statementsUntil stop Parser.statement) :=
  many (.statementBefore stop .statement) (statementBefore stop h)

/-- The statements of a block are read up to a dedent, so it is never missed. -/
theorem block (h : BlamesBelow n Parser.statement) :
    BlamesBelow n (Parser.block Parser.statement) := by
  intro front s hs
  refine .bind (.statementsUntil .dedent .statement) (statementsUntil .dedent h front s hs)
    fun w body t _ hrun => ?_
  have hend := statementsUntil_ends Reads.statement hrun
  exact .expect_bind (by decide) (fun hmissing => absurd hend hmissing) fun _ => .pure _

theorem conditional (h : BlamesBelow n Parser.statement) :
    BlamesBelow n (Parser.conditional Parser.statement) := by
  refine bind .expression (expression n) fun c front s hs => ?_
  refine .expect_bind (by decide) .noThen fun _ => ?_
  have hle := s.length_next_le
  refine bind .statement h (fun a front t ht => ?_) _ s.next (by omega)
  refine .accept_bind (by decide) (fun _ => ?_) (fun _ => .pure _)
  have hle := t.length_next_le
  exact .bind .statement (h _ t.next (by omega)) fun _ b _ _ _ => .pure _

theorem statementOf (h : BlamesBelow n Parser.statement) :
    BlamesBelow (n + 1) (Parser.statementOf Parser.statement) := by
  intro front s hs
  refine .peek_bind ?_
  split
  · next hi =>
    have hlt := Stream.length_next_lt (s := s) (by simp [hi])
    exact .advance_bind (by simp [hi]) (block h _ s.next (by omega))
  · next hl =>
    refine .advance_bind (by simp [hl]) ?_
    exact .bind .declarations (declarations hl s.next) fun _ ds _ _ _ => .pure _
  · next hi =>
    have hlt := Stream.length_next_lt (s := s) (by simp [hi])
    exact .advance_bind (by simp [hi]) (conditional h _ s.next (by omega))
  · exact .bind .expression (expression _ front s hs) fun _ e _ _ _ => .pure _

theorem statement (n : Nat) : BlamesBelow n Parser.statement := by
  induction n with
  | zero => exact fun _ _ hs => absurd hs (Nat.not_lt_zero _)
  | succ n ih =>
      rw [statement_eq]
      exact statementOf ih

theorem program (n : Nat) : BlamesBelow n Parser.program :=
  bind (.statementsUntil .eof .statement) (statementsUntil .eof (statement n)) fun _ => pure _

end BlamesBelow

end Parser

/-! ## Errors of a session -/

namespace Stream

/-- Every error of a session is right about the tokens of the list: about the one at the cursor
where the reading fails, and those in front of it. -/
theorem reading_error_truthful {tokens : List Token} {i : Nat} {e : ParseError}
    (h : (ofTokens tokens).reading i = .error e) :
    ∃ front t rest, (ofTokens tokens).toList = front ++ t :: rest ∧
      front.length = (ofTokens tokens).passed (i + 1) ∧ e.Truthful front t := by
  generalize ofTokens tokens = s at h ⊢
  obtain ⟨front, hs, hfront⟩ := s.exists_prepend_after i
  have hrun : (s.after i).readProgram = (.error e, s.after (i + 1)) :=
    Prod.ext h (s.after_succ i).symm
  obtain ⟨w, hw, htruthful⟩ := BlamesBelow.program _ front _ (Nat.lt_add_one _) e _ hrun
  obtain ⟨rest, hrest⟩ := (s.after (i + 1)).toList_eq_current_cons
  have hwhole : s = (s.after (i + 1)).prepend (front ++ w) := by
    rw [← prepend_prepend, ← hw, ← hs]
  have hlist : s.toList = front ++ w ++ (s.after (i + 1)).current :: rest := by
    rw [← hrest, ← toList_prepend, ← hwhole]
  refine ⟨front ++ w, (s.after (i + 1)).current, rest, hlist, ?_, htruthful⟩
  obtain ⟨v, hv, hlength⟩ := s.exists_prepend_after (i + 1)
  have hvw : v = front ++ w := List.append_cancel_right (congrArg ahead (hv.symm.trans hwhole))
  rw [← hvw, hlength]

/-- In `let nil a + b = c` the name is missed at first. The next reading starts at `nil`, and
refuses `b` as a target, because it stands behind an operator. -/
theorem reading_error_truthful_sum :
    let tokens : List Token := [⟨.letWord, "let", ⟨1, 1⟩⟩, ⟨.nilWord, "nil", ⟨1, 5⟩⟩,
      ⟨.ident, "a", ⟨1, 9⟩⟩, ⟨.plus, "+", ⟨1, 11⟩⟩, ⟨.ident, "b", ⟨1, 13⟩⟩,
      ⟨.assign, "=", ⟨1, 15⟩⟩, ⟨.ident, "c", ⟨1, 17⟩⟩]
    (ofTokens tokens).reading 1 = .error (.invalidAssignmentTarget ⟨1, 15⟩) ∧
      ∃ front t rest, (ofTokens tokens).toList = front ++ t :: rest ∧
        front.length = (ofTokens tokens).passed 2 ∧
        (ParseError.invalidAssignmentTarget ⟨1, 15⟩).Truthful front t := by
  intro tokens
  have hfails : (ofTokens tokens).reading 1 = .error (.invalidAssignmentTarget ⟨1, 15⟩) := rfl
  exact ⟨hfails, reading_error_truthful hfails⟩

end Stream

end IndentScript
