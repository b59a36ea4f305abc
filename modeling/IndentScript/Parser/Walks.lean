import IndentScript.Parser.Lemmas
import IndentScript.Parser.Stmt

/-!
# Walks

A run of a parser is a sequence of single steps, each of which passes one token. Every routine goes
in such steps, so what it leaves is what it was given without some tokens in front, and every stream
on the way lies between the two.
-/

namespace IndentScript.Parser

variable {α β ω : Type}

/-! ## Single steps -/

/-- `p.Walks s trail r t`: on the stream `s` the parser goes through the streams of the trail, one
for each time that it passes the current token, and stops at `t` with the value or the error `r`. -/
inductive Walks : {α : Type} → Parser α → Stream → List Stream → Except ParseError α → Stream →
    Prop where
  | pure {α : Type} (a : α) (s : Stream) : Walks (Pure.pure a) s [] (.ok a) s
  | throw {α : Type} (e : ParseError) (s : Stream) :
      Walks (MonadExcept.throw e : Parser α) s [] (.error e) s
  | get (s : Stream) : Walks MonadState.get s [] (.ok s) s
  | advance (s : Stream) : Walks advance s [s.next] (.ok ()) s.next
  | bind {α β : Type} {p : Parser α} {f : α → Parser β} {s t u : Stream} {a : α}
      {r : Except ParseError β} {trail trail' : List Stream} :
      Walks p s trail (.ok a) t → Walks (f a) t trail' r u → Walks (p >>= f) s (trail ++ trail') r u
  | bind_error {α β : Type} {p : Parser α} {f : α → Parser β} {s t : Stream} {e : ParseError}
      {trail : List Stream} :
      Walks p s trail (.error e) t → Walks (p >>= f) s trail (.error e) t

namespace Walks

variable {p : Parser α} {s t : Stream} {r : Except ParseError α} {trail : List Stream}

/-- What a run comes to is the outcome of the parser. -/
theorem outcome_eq (h : p.Walks s trail r t) : p.outcome s = (r, t) := by
  induction h with
  | pure | throw | get | advance => rfl
  | bind _ _ ih ih' => rw [outcome_bind_ok ih, ih']
  | bind_error _ ih => rw [outcome_bind_error ih]

theorem exists_prepend (h : p.Walks s trail r t) : ∃ w, s = t.prepend w := by
  induction h with
  | pure | throw | get => exact ⟨[], rfl⟩
  | advance s => exact s.exists_prepend_next
  | bind _ _ ih ih' =>
      obtain ⟨w, rfl⟩ := ih
      obtain ⟨w', rfl⟩ := ih'
      exact ⟨w ++ w', by simp⟩
  | bind_error _ ih => exact ih

/-- Every stream of a run lies between the first and the last. -/
theorem between (h : p.Walks s trail r t) :
    ∀ u ∈ trail, (∃ v, s = u.prepend v) ∧ ∃ w, u = t.prepend w := by
  induction h with
  | pure | throw | get => simp
  | advance s => simpa using ⟨s.exists_prepend_next, [], rfl⟩
  | bind hp hf ih ih' =>
      intro u hu
      obtain ⟨w, hw⟩ := hp.exists_prepend
      obtain ⟨w', hw'⟩ := hf.exists_prepend
      rcases List.mem_append.1 hu with hu | hu
      · obtain ⟨hv, x, rfl⟩ := ih u hu
        exact ⟨hv, x ++ w', by rw [hw']; simp⟩
      · obtain ⟨⟨v, rfl⟩, hx⟩ := ih' u hu
        exact ⟨⟨w ++ v, by rw [hw]; simp⟩, hx⟩
  | bind_error _ ih => exact ih

end Walks

/-- Every outcome of the parser is that of a run. -/
def Stepwise (p : Parser α) : Prop :=
  ∀ s, ∃ trail, p.Walks s trail (p.outcome s).1 (p.outcome s).2

namespace Stepwise

/-- Some tokens are passed, and the stream behind them is left. -/
theorem exists_prepend {p : Parser α} (h : p.Stepwise) (s : Stream) :
    ∃ w, s = (p.outcome s).2.prepend w := by
  obtain ⟨trail, hwalk⟩ := h s
  exact hwalk.exists_prepend

theorem pure (a : α) : Stepwise (Pure.pure a : Parser α) :=
  fun s => ⟨[], .pure a s⟩

theorem throw (e : ParseError) : Stepwise (MonadExcept.throw e : Parser α) :=
  fun s => ⟨[], .throw e s⟩

theorem get : Stepwise (MonadState.get : Parser Stream) :=
  fun s => ⟨[], .get s⟩

theorem advance : Stepwise advance :=
  fun s => ⟨[s.next], .advance s⟩

theorem bind {p : Parser α} {f : α → Parser β} (hp : p.Stepwise) (hf : ∀ a, (f a).Stepwise) :
    (p >>= f).Stepwise := by
  intro s
  obtain ⟨trail, hwalk⟩ := hp s
  rcases h : p.outcome s with ⟨e | a, t⟩
  · rw [h] at hwalk
    rw [outcome_bind_error h]
    exact ⟨trail, .bind_error hwalk⟩
  · rw [h] at hwalk
    obtain ⟨trail', hwalk'⟩ := hf a t
    rw [outcome_bind_ok h]
    exact ⟨trail ++ trail', .bind hwalk hwalk'⟩

theorem peek : Stepwise peek :=
  bind get fun s => pure s.current

theorem unexpected : Stepwise (Parser.unexpected : Parser α) :=
  bind peek fun _ => throw _

theorem accept (kind : Kind) : Stepwise (Parser.accept kind) := by
  refine bind peek fun t => ?_
  split
  · exact bind advance fun _ => pure true
  · exact pure false

theorem expect (kind : Kind) : Stepwise (Parser.expect kind) := by
  refine bind peek fun t => ?_
  split
  · exact bind advance fun _ => pure t
  · exact throw _

theorem operator? (ofKind? : Kind → Option ω) : Stepwise (Parser.operator? ofKind?) := by
  refine bind peek fun t => ?_
  split
  · exact bind advance fun _ => pure _
  · exact pure none

theorem manyUpTo {item : Parser (Option α)} (h : item.Stepwise) (rounds : Nat) :
    (Parser.manyUpTo item rounds).Stepwise := by
  induction rounds with
  | zero => exact pure []
  | succ rounds ih =>
      refine bind h fun a => ?_
      cases a with
      | none => exact pure []
      | some a => exact bind ih fun as => pure (a :: as)

theorem many {item : Parser (Option α)} (h : item.Stepwise) : (Parser.many item).Stepwise :=
  bind get fun s => manyUpTo h (s.ahead.length + 1)

theorem unroll {rule : Parser α → Parser α} (h : ∀ p, p.Stepwise → (rule p).Stepwise)
    (depth : Nat) : Stepwise (Parser.unroll rule depth) := by
  induction depth with
  | zero => exact unexpected
  | succ depth ih => exact h _ ih

theorem fix {rule : Parser α → Parser α} (h : ∀ p, p.Stepwise → (rule p).Stepwise) :
    (Parser.fix rule).Stepwise :=
  bind get fun s => unroll h (s.ahead.length + 1)

/-! ### Expressions -/

theorem tail? {ofKind? : Kind → Option ω} {operand : Parser Expr} (h : operand.Stepwise) :
    (Parser.tail? ofKind? operand).Stepwise := by
  refine bind (operator? ofKind?) fun op => ?_
  cases op with
  | none => exact pure none
  | some op => exact bind h fun right => pure (some (op, right))

theorem single {ofKind? : Kind → Option ω} {node : ω → Expr → Expr → Expr} {operand : Parser Expr}
    (h : operand.Stepwise) : (Parser.single ofKind? node operand).Stepwise := by
  refine bind h fun left => bind (tail? h) fun t => ?_
  cases t with
  | none => exact pure left
  | some t => exact pure _

theorem chain {ofKind? : Kind → Option ω} {node : ω → Expr → Expr → Expr} {operand : Parser Expr}
    (h : operand.Stepwise) : (Parser.chain ofKind? node operand).Stepwise :=
  bind h fun _ => bind (many (tail? h)) fun _ => pure _

theorem primary {nested : Parser Expr} (h : nested.Stepwise) :
    (Parser.primary nested).Stepwise := by
  refine bind peek fun t => ?_
  cases t.operand? with
  | some value =>
      refine bind advance fun _ => ?_
      cases value with
      | ok e => exact pure e
      | error e => exact throw e
  | none =>
      refine bind (accept .leftParen) fun found => ?_
      cases found with
      | true => exact bind h fun inner => bind (expect .rightParen) fun _ => pure _
      | false => exact unexpected

theorem disjunction {nested : Parser Expr} (h : nested.Stepwise) :
    (Parser.disjunction nested).Stepwise :=
  single (single (single (single (chain (chain (primary h))))))

theorem assignment {nested : Parser Expr} (h : nested.Stepwise) :
    (Parser.assignment nested).Stepwise := by
  refine bind (disjunction h) fun left => bind peek fun t => ?_
  split
  · exact pure _
  · exact bind advance fun _ => bind h fun value => pure _
  · exact throw _

theorem expression : Stepwise expression :=
  fix fun _ h => h.assignment

/-! ### Statements -/

theorem declaration : Stepwise declaration := by
  refine bind (expect .ident) fun name => bind (accept .assign) fun found => ?_
  cases found with
  | true => exact bind expression fun e => pure _
  | false => exact pure _

theorem further : Stepwise further := by
  refine bind (accept .comma) fun found => ?_
  cases found with
  | true => exact bind declaration fun d => pure _
  | false => exact pure none

theorem declarations : Stepwise declarations :=
  bind declaration fun _ => bind (many further) fun _ => pure _

theorem statementBefore (stop : Kind) {nested : Parser Stmt} (h : nested.Stepwise) :
    (Parser.statementBefore stop nested).Stepwise := by
  refine bind peek fun t => ?_
  split
  · exact pure none
  · exact bind h fun a => pure _

theorem statementsUntil (stop : Kind) {nested : Parser Stmt} (h : nested.Stepwise) :
    (Parser.statementsUntil stop nested).Stepwise :=
  many (statementBefore stop h)

theorem block {nested : Parser Stmt} (h : nested.Stepwise) : (Parser.block nested).Stepwise :=
  bind (statementsUntil .dedent h) fun _ => bind (expect .dedent) fun _ => pure _

theorem conditional {nested : Parser Stmt} (h : nested.Stepwise) :
    (Parser.conditional nested).Stepwise := by
  refine bind expression fun c => bind (expect .thenWord) fun _ => bind h fun a =>
    bind (accept .elseWord) fun found => ?_
  cases found with
  | true => exact bind h fun b => pure _
  | false => exact pure _

theorem statementOf {nested : Parser Stmt} (h : nested.Stepwise) :
    (Parser.statementOf nested).Stepwise := by
  refine bind peek fun t => ?_
  split
  · exact bind advance fun _ => block h
  · exact bind advance fun _ => bind declarations fun _ => pure _
  · exact bind advance fun _ => conditional h
  · exact bind expression fun _ => pure _

theorem statement : Stepwise statement :=
  fix fun _ h => h.statementOf

theorem program : Stepwise program :=
  bind (statementsUntil .eof statement) fun _ => pure _

end Stepwise

end IndentScript.Parser
