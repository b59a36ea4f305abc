import IndentScript.Parser.Walks

/-!
# Rules that refer to themselves

A rule that passes a token before it refers to itself is guarded. The bounds on rounds and on
depth never show in a guarded rule: `fix_eq` says that its parser is the rule applied to the parser
itself. Expressions and statements are such rules.
-/

namespace IndentScript.Parser

variable {α β ω : Type}

/-! ## Parsers that agree on short streams -/

/-- The parsers have the same outcomes on streams with fewer than `n` tokens ahead. -/
def AgreeBelow (n : Nat) (p q : Parser α) : Prop :=
  ∀ s, s.ahead.length < n → p.outcome s = q.outcome s

namespace AgreeBelow

variable {n : Nat}

theorem refl (n : Nat) (p : Parser α) : AgreeBelow n p p :=
  fun _ _ => rfl

theorem bind {p q : Parser α} {f g : α → Parser β} (hp : p.Stepwise) (hpq : AgreeBelow n p q)
    (hfg : ∀ a, AgreeBelow n (f a) (g a)) : AgreeBelow n (p >>= f) (q >>= g) := by
  intro s hs
  rw [outcome_bind, outcome_bind, ← hpq s hs]
  obtain ⟨w, hw⟩ := hp.exists_prepend s
  rcases h : p.outcome s with ⟨e | a, t⟩
  · rfl
  · have hlength : s.ahead.length = w.length + t.ahead.length := by
      rw [hw, h, Stream.length_ahead_prepend]
    exact hfg a t (by omega)

/-- After a token that is not an end token, agreement on shorter streams is enough. -/
theorem next {p q : Parser α} {s : Stream} (h : AgreeBelow n p q) (hs : s.ahead.length < n + 1)
    (hk : s.current.kind ≠ .eof) : p.outcome s.next = q.outcome s.next := by
  have hlt := Stream.length_next_lt hk
  exact h _ (by omega)

theorem manyUpTo {p q : Parser (Option α)} (hp : p.Stepwise) (h : AgreeBelow n p q)
    (rounds : Nat) : AgreeBelow n (Parser.manyUpTo p rounds) (Parser.manyUpTo q rounds) := by
  induction rounds with
  | zero => exact refl n _
  | succ rounds ih =>
    refine bind hp h fun a => ?_
    cases a with
    | none => exact refl n _
    | some a => exact bind (Stepwise.manyUpTo hp rounds) ih fun as => refl n _

theorem many {p q : Parser (Option α)} (hp : p.Stepwise) (h : AgreeBelow n p q) :
    AgreeBelow n (Parser.many p) (Parser.many q) :=
  fun s hs => manyUpTo hp h (s.ahead.length + 1) s hs

end AgreeBelow

/-! ## Guarded rules -/

/-- A rule that only passes tokens, and at least one before it refers to itself. -/
structure Guarded (rule : Parser α → Parser α) : Prop where
  stepwise : ∀ p, p.Stepwise → (rule p).Stepwise
  agree : ∀ n p q, p.Stepwise → AgreeBelow n p q → AgreeBelow (n + 1) (rule p) (rule q)

namespace Guarded

variable {rule : Parser α → Parser α}

/-- Depths beyond the tokens ahead make no difference. -/
theorem unroll_eq (h : Guarded rule) (m n : Nat) (s : Stream) (hm : s.ahead.length < m)
    (hn : s.ahead.length < n) : unroll rule m s = unroll rule n s := by
  induction m generalizing n s with
  | zero => omega
  | succ m ih =>
    cases n with
    | zero => omega
    | succ n =>
      refine h.agree s.ahead.length _ _ (Stepwise.unroll h.stepwise m) (fun t ht => ?_) s
        (Nat.lt_succ_self _)
      exact ih n t (by omega) (by omega)

/-- The parser of a guarded rule is the rule applied to it. -/
theorem fix_eq (h : Guarded rule) : fix rule = rule (fix rule) := by
  refine ext_outcome fun s => ?_
  refine h.agree s.ahead.length _ _ (Stepwise.unroll h.stepwise _) (fun t ht => ?_) s
    (Nat.lt_succ_self _)
  exact h.unroll_eq _ _ t ht (Nat.lt_succ_self _)

end Guarded

/-! ## Expressions -/

namespace AgreeBelow

variable {n : Nat} {p q : Parser Expr}

theorem tail? {ofKind? : Kind → Option ω} (h : AgreeBelow n p q) :
    AgreeBelow n (Parser.tail? ofKind? p) (Parser.tail? ofKind? q) := by
  refine bind (Stepwise.operator? ofKind?) (refl n _) fun op => ?_
  cases op with
  | none => exact refl n _
  | some op =>
    intro s hs
    simp only [outcome_bind, h s hs]

theorem single {ofKind? : Kind → Option ω} {node : ω → Expr → Expr → Expr} (hp : p.Stepwise)
    (h : AgreeBelow n p q) :
    AgreeBelow n (Parser.single ofKind? node p) (Parser.single ofKind? node q) :=
  bind hp h fun _ => bind (Stepwise.tail? hp) (tail? h) fun _ => refl n _

theorem chain {ofKind? : Kind → Option ω} {node : ω → Expr → Expr → Expr} (hp : p.Stepwise)
    (h : AgreeBelow n p q) :
    AgreeBelow n (Parser.chain ofKind? node p) (Parser.chain ofKind? node q) :=
  bind hp h fun _ => bind (Stepwise.many (Stepwise.tail? hp)) (many (Stepwise.tail? hp) (tail? h))
    fun _ => refl n _

theorem primary (h : AgreeBelow n p q) :
    AgreeBelow (n + 1) (Parser.primary p) (Parser.primary q) := by
  intro s hs
  simp only [Parser.primary]
  rw [outcome_bind_ok (outcome_peek s), outcome_bind_ok (outcome_peek s)]
  cases s.current.operand? with
  | some value => rfl
  | none =>
    by_cases hk : s.current.kind = .leftParen
    · have ha : (accept .leftParen).outcome s = (.ok true, s.next) := by simp [outcome_accept, hk]
      rw [outcome_bind_ok ha, outcome_bind_ok ha]
      simp only [if_true]
      rw [outcome_bind, outcome_bind, h.next hs (by rw [hk]; decide)]
    · have ha : (accept .leftParen).outcome s = (.ok false, s) := by simp [outcome_accept, hk]
      rw [outcome_bind_ok ha, outcome_bind_ok ha]
      rfl

theorem disjunction (hp : p.Stepwise) (h : AgreeBelow n p q) :
    AgreeBelow (n + 1) (Parser.disjunction p) (Parser.disjunction q) := by
  have ha := Stepwise.primary hp
  exact single (.single (.single (.single (.chain (.chain ha)))))
    (single (.single (.single (.chain (.chain ha)))) (single (.single (.chain (.chain ha)))
      (single (.chain (.chain ha)) (chain (.chain ha) (chain ha (primary h))))))

theorem assignment (hp : p.Stepwise) (h : AgreeBelow n p q) :
    AgreeBelow (n + 1) (Parser.assignment p) (Parser.assignment q) := by
  refine bind (Stepwise.disjunction hp) (disjunction hp h) fun left s hs => ?_
  rw [outcome_bind_ok (outcome_peek s), outcome_bind_ok (outcome_peek s)]
  cases hop : AssignOp.ofKind? s.current.kind with
  | none => rfl
  | some op =>
    cases left with
    | ident name =>
      simp only
      rw [outcome_bind_ok (outcome_advance s), outcome_bind_ok (outcome_advance s),
        outcome_bind, outcome_bind, h.next hs (Kind.ne_eof_of_ofKind? rfl hop)]
    | _ => rfl

end AgreeBelow

theorem guarded_assignment : Guarded assignment :=
  ⟨fun _ hp => hp.assignment, fun _ _ _ hp h => h.assignment hp⟩

/-- An expression is an assignment whose nested expressions are expressions. -/
theorem expression_eq : expression = assignment expression :=
  guarded_assignment.fix_eq

/-! ## Statements -/

namespace AgreeBelow

variable {n : Nat} {p q : Parser Stmt}

theorem statementsUntil (stop : Kind) (hp : p.Stepwise) (h : AgreeBelow n p q) :
    AgreeBelow n (Parser.statementsUntil stop p) (Parser.statementsUntil stop q) := by
  refine many (.statementBefore stop hp) (bind .peek (refl n _) fun t => ?_)
  split
  · exact refl n _
  · exact bind hp h fun s => refl n _

theorem block (hp : p.Stepwise) (h : AgreeBelow n p q) :
    AgreeBelow n (Parser.block p) (Parser.block q) :=
  bind (.statementsUntil .dedent hp) (statementsUntil .dedent hp h) fun _ => refl n _

theorem conditional (hp : p.Stepwise) (h : AgreeBelow n p q) :
    AgreeBelow n (Parser.conditional p) (Parser.conditional q) := by
  refine bind .expression (refl n _) fun c => bind (.expect .thenWord) (refl n _) fun _ =>
    bind hp h fun s => bind (.accept .elseWord) (refl n _) fun found => ?_
  cases found with
  | true => exact bind hp h fun a => refl n _
  | false => exact refl n _

theorem statementOf (hp : p.Stepwise) (h : AgreeBelow n p q) :
    AgreeBelow (n + 1) (Parser.statementOf p) (Parser.statementOf q) := by
  intro s hs
  simp only [Parser.statementOf]
  rw [outcome_bind_ok (outcome_peek s), outcome_bind_ok (outcome_peek s)]
  split
  · next hk =>
    rw [outcome_bind_ok (outcome_advance s), outcome_bind_ok (outcome_advance s)]
    exact (block hp h).next hs (by rw [hk]; decide)
  · rfl
  · next hk =>
    rw [outcome_bind_ok (outcome_advance s), outcome_bind_ok (outcome_advance s)]
    exact (conditional hp h).next hs (by rw [hk]; decide)
  · rfl

end AgreeBelow

theorem guarded_statementOf : Guarded statementOf :=
  ⟨fun _ hp => hp.statementOf, fun _ _ _ hp h => h.statementOf hp⟩

/-- A statement is read by the rule for statements, with statements inside it. -/
theorem statement_eq : statement = statementOf statement :=
  guarded_statementOf.fix_eq

end IndentScript.Parser
