import IndentScript.Parser.Routines
import IndentScript.Proofs.Determined
import IndentScript.Proofs.Sessions

/-!
# Cursors and streams

A routine does with the tokens from its cursor on what the parser of the same rule does with a
stream of them, and it leaves the list as it is. This is shown rule by rule, so no rule looks at a
token behind the cursor or asks for the place of the cursor itself. Hence a session of calls is a
session of readings, and to go on from a cursor is to start anew with the tokens from there on. The
bounds on rounds and on depth, too, show as little in the routines as they do in the parsers.
-/

namespace IndentScript

namespace Stream

theorem toList_ofTokens_eq_completed (tokens : List Token) :
    (ofTokens tokens).toList = completed tokens := by
  rw [ofTokens, completed]
  split
  · next hnone => simp [toList, List.getLast?_eq_none_iff.1 hnone]
  · next t hlast =>
    obtain ⟨front, rfl⟩ := List.getLast?_eq_some_iff.1 hlast
    split
    · next hk => simp [toList, hk]
    · next hk => simp [toList, hk]

/-- A stream is the stream of its own list. -/
theorem ofTokens_toList (s : Stream) : ofTokens s.toList = s := by
  obtain ⟨ahead, last, hlast⟩ := s
  rw [ofTokens, toList]
  simp only [List.getLast?_concat]
  rw [dif_pos hlast]
  simp

theorem ext_toList {s t : Stream} (h : s.toList = t.toList) : s = t := by
  rw [← ofTokens_toList s, h, ofTokens_toList]

theorem toList_next (s : Stream) :
    s.next.toList = if s.toList.length ≤ 1 then s.toList else s.toList.tail := by
  obtain ⟨ahead, last, hlast⟩ := s
  cases ahead <;> simp [next, toList]

end Stream

namespace Cursor

variable (c : Cursor)

/-- The tokens from the current one on. -/
def rest : Stream :=
  .ofTokens (c.tokens.drop c.position)

theorem completed_drop : completed (c.tokens.drop c.position) = c.tokens.drop c.position := by
  apply completed_of_last
  rw [List.getLast?_drop, if_neg (Nat.not_le_of_lt c.position_lt)]
  exact c.last_kind

theorem toList_rest : c.rest.toList = c.tokens.drop c.position := by
  rw [rest, Stream.toList_ofTokens_eq_completed, completed_drop]

theorem current_rest : c.rest.current = c.current := by
  obtain ⟨v, hv⟩ := c.rest.toList_eq_current_cons
  rw [toList_rest, List.drop_eq_getElem_cons c.position_lt] at hv
  exact (List.cons.inj hv).1.symm

theorem remaining_eq : c.remaining = c.rest.ahead.length + 1 := by
  have hlength := congrArg List.length c.toList_rest
  simp only [Stream.toList, List.length_append, List.length_singleton, List.length_drop] at hlength
  exact hlength.symm

theorem rest_next : c.next.rest = c.rest.next := by
  apply Stream.ext_toList
  have hlength : c.rest.toList.length = c.tokens.length - c.position := by
    rw [toList_rest, List.length_drop]
  rw [Stream.toList_next, hlength, toList_rest, toList_rest]
  unfold next
  by_cases hend : c.tokens.length ≤ c.position + 1
  · rw [dif_pos (by simpa [atEnd] using hend), if_pos (by omega)]
  · rw [dif_neg (by simpa [atEnd] using hend), if_neg (by omega), List.tail_drop]

theorem tokens_next : c.next.tokens = c.tokens := by
  unfold next
  split <;> rfl

/-- The place of the cursor is what the tokens from there on leave of the list. -/
theorem position_add : c.position + c.rest.toList.length = c.tokens.length := by
  have hlt := c.position_lt
  rw [toList_rest, List.length_drop]
  omega

theorem ext_rest {c d : Cursor} (htokens : c.tokens = d.tokens) (hrest : c.rest = d.rest) :
    c = d := by
  have hc := c.position_add
  have hd := d.position_add
  rw [htokens, hrest] at hc
  have hposition : c.position = d.position := by omega
  obtain ⟨tokens, position, hlt, hlast⟩ := c
  cases htokens
  cases hposition
  rfl

end Cursor

/-- The operators of the level are those that the kinds stand for. -/
def BinaryOp.Level.OfKinds (level : BinaryOp.Level) (kinds : List Kind) : Prop :=
  ∀ k, BinaryOp.ofKindAt? level k = if kinds.contains k then BinaryOp.ofKind? k else none

theorem BinaryOp.Level.ofKinds_multiplicative :
    multiplicative.OfKinds [.star, .slash, .percent] := by
  intro k
  cases k <;> rfl

theorem BinaryOp.Level.ofKinds_additive : additive.OfKinds [.plus, .minus] := by
  intro k
  cases k <;> rfl

namespace Routine

variable {α β : Type}

/-! ## Outcomes of routines -/

theorem outcome_bind_ok {q : Routine α} {f : α → Routine β} {c d : Cursor} {a : α}
    (h : q.outcome c = (.ok a, d)) : (q >>= f).outcome c = (f a).outcome d := by
  have h : q c = _ := h
  show ExceptT.bind q f c = _
  simp only [ExceptT.bind, ExceptT.mk, bind, StateT.bind, h]
  rfl

theorem outcome_bind_error {q : Routine α} {f : α → Routine β} {c d : Cursor} {e : ParseError}
    (h : q.outcome c = (.error e, d)) : (q >>= f).outcome c = (.error e, d) := by
  have h : q c = _ := h
  show ExceptT.bind q f c = _
  simp only [ExceptT.bind, ExceptT.mk, bind, StateT.bind, h]
  rfl

theorem outcome_peek_bind (f : Token → Routine α) (c : Cursor) :
    (peek >>= f).outcome c = (f c.current).outcome c :=
  rfl

theorem outcome_advance_bind (f : Token → Routine α) (c : Cursor) :
    (advance >>= f).outcome c = (f c.current).outcome c.next :=
  rfl

theorem outcome_check (kind : Kind) (c : Cursor) :
    (check kind).outcome c = (.ok (decide (c.current.kind = kind)), c) :=
  rfl

theorem outcome_accept (kind : Kind) (c : Cursor) :
    (accept kind).outcome c =
      if c.current.kind = kind then (.ok true, c.next) else (.ok false, c) := by
  rw [accept, outcome_bind_ok (outcome_check kind c)]
  by_cases h : c.current.kind = kind <;> simp [h] <;> rfl

theorem outcome_expect (kind : Kind) (c : Cursor) :
    (expect kind).outcome c =
      if c.current.kind = kind then (.ok c.current, c.next)
      else (.error (.expectedToken kind c.current.kind c.current.location), c) := by
  rw [expect, outcome_bind_ok (outcome_check kind c)]
  by_cases h : c.current.kind = kind <;> simp [h] <;> rfl

/-- A token that was looked at is of the kind that is asked for. -/
theorem outcome_expect_bind {kind : Kind} {c : Cursor} (f : Token → Routine α)
    (hk : c.current.kind = kind) : (expect kind >>= f).outcome c = (f c.current).outcome c.next := by
  have hexpect : (expect kind).outcome c = (.ok c.current, c.next) := by
    rw [outcome_expect, if_pos hk]
  exact outcome_bind_ok hexpect

/-! ## The simulation -/

/-- At the cursor, the routine comes to what the parser comes to on the tokens from there on, and
leaves the list as it is. -/
structure Follows (q : Routine α) (p : Parser α) (c : Cursor) : Prop where
  result : (q.outcome c).1 = (p.outcome c.rest).1
  rest : (q.outcome c).2.rest = (p.outcome c.rest).2
  tokens : (q.outcome c).2.tokens = c.tokens

namespace Follows

variable {c d : Cursor}

/-- What holds from the cursor on that the first steps lead to holds from the start. -/
theorem congr {q q' : Routine α} {p p' : Parser α} (hq : q.outcome c = q'.outcome d)
    (hp : p.outcome c.rest = p'.outcome d.rest) (hd : d.tokens = c.tokens) (h : q'.Follows p' d) :
    q.Follows p c := by
  constructor
  · rw [hq, hp, h.result]
  · rw [hq, hp, h.rest]
  · rw [hq, h.tokens, hd]

theorem stop {q : Routine α} {p : Parser α} {r : Except ParseError α}
    (hq : q.outcome c = (r, c)) (hp : p.outcome c.rest = (r, c.rest)) : q.Follows p c := by
  constructor <;> simp [hq, hp]

theorem step {q : Routine α} {p : Parser α} {r : Except ParseError α}
    (hq : q.outcome c = (r, c.next)) (hp : p.outcome c.rest = (r, c.rest.next)) :
    q.Follows p c := by
  constructor <;> simp [hq, hp, c.rest_next, c.tokens_next]

theorem pure (a : α) : (Pure.pure a : Routine α).Follows (Pure.pure a) c :=
  stop rfl rfl

theorem throw (e : ParseError) :
    (MonadExcept.throw e : Routine α).Follows (MonadExcept.throw e) c :=
  stop rfl rfl

theorem bind {q : Routine α} {p : Parser α} {f : α → Routine β} {g : α → Parser β}
    (hq : q.Follows p c) (hf : ∀ a d, (f a).Follows (g a) d) : (q >>= f).Follows (p >>= g) c := by
  rcases hrun : q.outcome c with ⟨e | a, d⟩
  all_goals
    obtain ⟨hresult, hrest, htokens⟩ := hq
    rw [hrun] at hresult hrest htokens
  · have hp : p.outcome c.rest = (.error e, d.rest) := Prod.ext hresult.symm hrest.symm
    constructor
    · rw [outcome_bind_error hrun, Parser.outcome_bind_error hp]
    · rw [outcome_bind_error hrun, Parser.outcome_bind_error hp]
    · rw [outcome_bind_error hrun, htokens]
  · have hp : p.outcome c.rest = (.ok a, d.rest) := Prod.ext hresult.symm hrest.symm
    exact (hf a d).congr (outcome_bind_ok hrun) (Parser.outcome_bind_ok hp) htokens

theorem of_peek {f : Token → Routine α} {p : Parser α} (h : (f c.current).Follows p c) :
    (peek >>= f).Follows p c :=
  h.congr (outcome_peek_bind f c) rfl rfl

theorem peek_bind {f : Token → Routine α} {g : Token → Parser α}
    (h : (f c.current).Follows (g c.current) c) : (peek >>= f).Follows (Parser.peek >>= g) c := by
  apply h.congr (outcome_peek_bind f c) _ rfl
  rw [Parser.outcome_peek_bind, c.current_rest]

theorem advance_bind {f : Token → Routine α} {g : Unit → Parser α}
    (h : (f c.current).Follows (g ()) c.next) :
    (advance >>= f).Follows (Parser.advance >>= g) c := by
  apply h.congr (outcome_advance_bind f c) _ c.tokens_next
  rw [Parser.outcome_advance_bind, c.rest_next]

theorem unexpected : (Routine.unexpected : Routine α).Follows Parser.unexpected c :=
  peek_bind (throw _)

theorem check_bind {kind : Kind} {f : Bool → Routine α} {g : Token → Parser α}
    (h : (f (decide (c.current.kind = kind))).Follows (g c.current) c) :
    (check kind >>= f).Follows (Parser.peek >>= g) c := by
  apply h.congr (outcome_bind_ok (outcome_check kind c)) _ rfl
  rw [Parser.outcome_peek_bind, c.current_rest]

theorem accept (kind : Kind) : (Routine.accept kind).Follows (Parser.accept kind) c := by
  by_cases h : c.current.kind = kind
  · apply step
    · rw [outcome_accept, if_pos h]
    · rw [Parser.outcome_accept, c.current_rest, if_pos h]
  · apply stop
    · rw [outcome_accept, if_neg h]
    · rw [Parser.outcome_accept, c.current_rest, if_neg h]

theorem expect (kind : Kind) : (Routine.expect kind).Follows (Parser.expect kind) c := by
  by_cases h : c.current.kind = kind
  · apply step
    · rw [outcome_expect, if_pos h]
    · rw [Parser.outcome_expect, c.current_rest, if_pos h]
  · apply stop
    · rw [outcome_expect, if_neg h]
    · rw [Parser.outcome_expect, c.current_rest, if_neg h]

theorem expect_bind {kind : Kind} {f : Token → Routine α} {g : Unit → Parser α}
    (hk : c.current.kind = kind) (h : (f c.current).Follows (g ()) c.next) :
    (Routine.expect kind >>= f).Follows (Parser.advance >>= g) c := by
  apply h.congr (outcome_expect_bind f hk) _ c.tokens_next
  rw [Parser.outcome_advance_bind, c.rest_next]

/-- A round adds to what was found what the parser finds, and what follows goes on from there. The
parser finds all items before it adds them, the loop adds them one by one. -/
theorem round {q : Routine (Option β)} {next : β → Routine β} {item : Parser (Option α)}
    {others : Parser (List α)} {add : β → α → β} {b : β}
    (h : q.Follows (item >>= fun a => Pure.pure (a.map (add b))) c)
    (hnext : ∀ b' d, (next b').Follows (others >>= fun as => Pure.pure (as.foldl add b')) d) :
    (q >>= fun b' => match b' with
      | some b' => next b'
      | none => Pure.pure b).Follows
      ((item >>= fun a => match a with
        | some a => others >>= fun as => Pure.pure (a :: as)
        | none => Pure.pure []) >>= fun as => Pure.pure (as.foldl add b)) c := by
  have hitems : ((item >>= fun a => match a with
        | some a => others >>= fun as => Pure.pure (a :: as)
        | none => Pure.pure []) >>= fun as => Pure.pure (as.foldl add b)) =
      (item >>= fun a => Pure.pure (a.map (add b))) >>= fun b' => match b' with
        | some b' => others >>= fun as => Pure.pure (as.foldl add b')
        | none => Pure.pure b := by
    simp only [bind_assoc, pure_bind]
    congr 1
    funext a
    cases a <;> simp
  rw [hitems]
  refine bind h fun b' d => ?_
  cases b' with
  | none => exact pure b
  | some b' => exact hnext b' d

theorem loop {round : β → Routine (Option β)} {item : Parser (Option α)} {add : β → α → β}
    (h : ∀ b d, (round b).Follows (item >>= fun a => Pure.pure (a.map (add b))) d) (b : β) :
    (Routine.loop round b).Follows
      (Parser.many item >>= fun as => Pure.pure (as.foldl add b)) c := by
  have hrounds : ∀ rounds b d, (loopUpTo round rounds b).Follows
      (Parser.manyUpTo item rounds >>= fun as => Pure.pure (as.foldl add b)) d := by
    intro rounds
    induction rounds with
    | zero => exact fun b d => pure b
    | succ rounds ih => exact fun b d => Follows.round (h b d) ih
  have hloop : (Routine.loop round b).outcome c = (loopUpTo round c.remaining b).outcome c := rfl
  apply (hrounds c.remaining b c).congr hloop _ rfl
  rw [c.remaining_eq, Parser.outcome_bind, Parser.outcome_bind, Parser.outcome_many]

/-- A loop that puts what it finds at the end of a list. -/
theorem collect {round : List α → Routine (Option (List α))} {item : Parser (Option α)}
    (h : ∀ found d, (round found).Follows
      (item >>= fun a => Pure.pure (a.map fun a => found ++ [a])) d) (found : List α) :
    (Routine.loop round found).Follows
      (Parser.many item >>= fun as => Pure.pure (found ++ as)) c := by
  have hfold : ∀ as : List α, as.foldl (fun found a => found ++ [a]) found = found ++ as := by
    intro as
    induction as generalizing found with
    | nil => simp
    | cons a as ih => simp [ih]
  simpa only [hfold] using loop h found

theorem fix {rule : Routine α → Routine α} {rule' : Parser α → Parser α}
    (h : ∀ q p, (∀ d, q.Follows p d) → ∀ d, (rule q).Follows (rule' p) d) :
    (Routine.fix rule).Follows (Parser.fix rule') c := by
  have hunroll : ∀ depth d, (Routine.unroll rule depth).Follows (Parser.unroll rule' depth) d := by
    intro depth
    induction depth with
    | zero => exact fun d => unexpected
    | succ depth ih => exact h _ _ ih
  have hfix : (Routine.fix rule).outcome c = (Routine.unroll rule c.remaining).outcome c := rfl
  apply (hunroll c.remaining c).congr hfix _ rfl
  rw [Parser.outcome_fix, c.remaining_eq]
  rfl

/-! ### Expressions -/

/-- An operator of one of the kinds is one of the level. -/
theorem operator? {kinds : List Kind} {level : BinaryOp.Level}
    (hkinds : level.OfKinds kinds) :
    (Routine.operator? kinds).Follows (Parser.operator? (BinaryOp.ofKindAt? level)) c := by
  have hk := hkinds c.current.kind
  apply peek_bind
  by_cases hmem : kinds.contains c.current.kind = true
  · rw [if_pos hmem] at hk
    rw [if_pos hmem, hk]
    cases BinaryOp.ofKind? c.current.kind with
    | none => exact pure none
    | some op => exact advance_bind (pure (some op))
  · rw [if_neg hmem] at hk
    rw [if_neg hmem, hk]
    exact pure none

section

variable {operand : Routine Expr} {operand' : Parser Expr}

theorem tail?_bind {kinds : List Kind} {level : BinaryOp.Level} (hkinds : level.OfKinds kinds)
    {f : Option BinaryOp → Routine α} {k : Option (BinaryOp × Expr) → Parser α}
    (hnone : ∀ d, (f none).Follows (k none) d)
    (hsome : ∀ op d, (f (some op)).Follows (operand' >>= fun right => k (some (op, right))) d) :
    (Routine.operator? kinds >>= f).Follows
      (Parser.tail? (BinaryOp.ofKindAt? level) operand' >>= k) c := by
  rw [Parser.tail?, bind_assoc]
  refine bind (operator? hkinds) fun op d => ?_
  cases op with
  | none => simpa using hnone d
  | some op => simpa using hsome op d

theorem single {kinds : List Kind} {level : BinaryOp.Level} (hkinds : level.OfKinds kinds)
    (h : ∀ d, operand.Follows operand' d) :
    (Routine.single kinds operand).Follows
      (Parser.single (BinaryOp.ofKindAt? level) Expr.binary operand') c := by
  refine bind (h c) fun left d => tail?_bind hkinds (fun d => pure left) fun op d => ?_
  exact bind (h d) fun right d => pure (Expr.binary op left right)

theorem operation? {kinds : List Kind} {level : BinaryOp.Level} (hkinds : level.OfKinds kinds)
    (h : ∀ d, operand.Follows operand' d) (left : Expr) :
    (Routine.operation? kinds operand left).Follows
      (Parser.tail? (BinaryOp.ofKindAt? level) operand' >>= fun t =>
        Pure.pure (t.map fun t => Expr.binary t.1 left t.2)) c := by
  refine tail?_bind hkinds (fun d => pure none) fun op d => ?_
  exact bind (h d) fun right d => pure (some (Expr.binary op left right))

theorem chain {kinds : List Kind} {level : BinaryOp.Level} (hkinds : level.OfKinds kinds)
    (h : ∀ d, operand.Follows operand' d) :
    (Routine.chain kinds operand).Follows
      (Parser.chain (BinaryOp.ofKindAt? level) Expr.binary operand') c :=
  bind (h c) fun first _ => loop (fun left _ => operation? hkinds h left) first

theorem accept_bind {op : LogicalOp} {kind : Kind}
    (hkind : ∀ k, LogicalOp.ofKindAt? op k = if k = kind then some op else none)
    {f : Bool → Routine α} {g : Option LogicalOp → Parser α}
    (hfound : ∀ d, (f true).Follows (g (some op)) d) (hother : ∀ d, (f false).Follows (g none) d) :
    (Routine.accept kind >>= f).Follows (Parser.operator? (LogicalOp.ofKindAt? op) >>= g) c := by
  have haccept := outcome_accept kind c
  have hoperator := Parser.outcome_operator? (LogicalOp.ofKindAt? op) c.rest
  rw [c.current_rest, hkind] at hoperator
  by_cases h : c.current.kind = kind
  · rw [if_pos h] at haccept hoperator
    apply (hfound c.next).congr (outcome_bind_ok haccept) _ c.tokens_next
    rw [Parser.outcome_bind_ok hoperator, c.rest_next]
  · rw [if_neg h] at haccept hoperator
    exact (hother c).congr (outcome_bind_ok haccept) (Parser.outcome_bind_ok hoperator) rfl

theorem logical {op : LogicalOp} {kind : Kind}
    (hkind : ∀ k, LogicalOp.ofKindAt? op k = if k = kind then some op else none)
    (h : ∀ d, operand.Follows operand' d) :
    (Routine.logical op kind operand).Follows
      (Parser.single (LogicalOp.ofKindAt? op) Expr.logical operand') c := by
  refine bind (h c) fun left d => ?_
  rw [Parser.tail?, bind_assoc]
  refine accept_bind hkind (fun d => ?_) (fun d => ?_)
  · simpa using bind (h d) fun right d => pure (Expr.logical op left right)
  · simpa using pure left

theorem literal {value : Except ParseError Expr} (hvalue : c.current.operand? = some value) :
    Routine.literal.Follows (Parser.advance >>= fun _ => (value : Parser Expr)) c := by
  apply advance_bind
  simp only [hvalue]
  cases value with
  | ok e => exact pure e
  | error e => exact throw e

variable {nested : Routine Expr} {nested' : Parser Expr}

theorem group (hk : c.current.kind = .leftParen) (h : ∀ d, nested.Follows nested' d) :
    (Routine.group nested).Follows (Parser.primary nested') c := by
  have hnone : c.rest.current.operand? = none := by
    rw [c.current_rest, Token.operand?_eq_none_iff, hk]
    rfl
  have hinner : (nested >>= fun inner => Routine.expect .rightParen >>= fun _ =>
      Pure.pure (Expr.group inner)).Follows (nested' >>= fun inner =>
        Parser.expect .rightParen >>= fun _ => Pure.pure (Expr.group inner)) c.next :=
    bind (h _) fun inner d => bind (expect .rightParen) fun _ d => pure (Expr.group inner)
  apply hinner.congr (outcome_expect_bind _ hk) _ c.tokens_next
  rw [Parser.primary, Parser.outcome_peek_bind, hnone, c.rest_next]
  exact Parser.outcome_accept_bind _ (c.current_rest ▸ hk)

/-- The parser reads a token that is an expression by itself before it looks at its value. -/
theorem of_operand? {q : Routine Expr} {value : Except ParseError Expr}
    (hop : c.current.operand? = some value)
    (h : q.Follows (Parser.advance >>= fun _ => (value : Parser Expr)) c) :
    q.Follows (Parser.primary nested') c := by
  apply h.congr rfl _ rfl
  rw [Parser.primary, Parser.outcome_peek_bind, c.current_rest, hop]

theorem not_primary (hop : c.current.kind.isOperand = false) (hk : c.current.kind ≠ .leftParen) :
    Routine.unexpected.Follows (Parser.primary nested') c := by
  rw [← Token.operand?_eq_none_iff, ← c.current_rest] at hop
  rw [← c.current_rest] at hk
  apply unexpected.congr rfl _ rfl
  rw [Parser.primary, Parser.outcome_peek_bind, hop]
  exact Parser.outcome_bind_ok (Parser.Stops.accept_other hk)

theorem primary (h : ∀ d, nested.Follows nested' d) :
    (Routine.primary nested).Follows (Parser.primary nested') c := by
  have hliteral (hk : c.current.kind.isOperand = true) :
      Routine.literal.Follows (Parser.primary nested') c := by
    cases hop : c.current.operand? with
    | none =>
        rw [Token.operand?_eq_none_iff, hk] at hop
        cases hop
    | some value => exact of_operand? hop (literal hop)
  apply of_peek
  cases hk : c.current.kind with
  | leftParen => exact group hk h
  | ident =>
      have hop : c.current.operand? = some (.ok (.ident c.current.text)) := by
        rw [Token.operand?, hk]
      apply of_operand? hop
      rw [Routine.identifier, bind_assoc]
      exact expect_bind hk (pure _)
  | int | float | string | trueWord | falseWord | nilWord => exact hliteral (by rw [hk]; rfl)
  | _ => exact not_primary (by rw [hk]; rfl) (by rw [hk]; decide)

theorem multiplicative (h : ∀ d, nested.Follows nested' d) :
    (Routine.multiplicative nested).Follows (Parser.multiplicative nested') c :=
  chain BinaryOp.Level.ofKinds_multiplicative fun _ => primary h

theorem disjunction (h : ∀ d, nested.Follows nested' d) :
    (Routine.disjunction nested).Follows (Parser.disjunction nested') c := by
  have hsum d : (Routine.additive nested).Follows (Parser.additive nested') d :=
    chain BinaryOp.Level.ofKinds_additive fun d => multiplicative h
  have hrelation d : (Routine.relational nested).Follows (Parser.relational nested') d :=
    single (by intro k; cases k <;> rfl) hsum
  have hequality d : (Routine.equality nested).Follows (Parser.equality nested') d :=
    single (by intro k; cases k <;> rfl) hrelation
  have hconjunction d : (Routine.conjunction nested).Follows (Parser.conjunction nested') d :=
    logical (by intro k; cases k <;> rfl) hequality
  exact logical (by intro k; cases k <;> rfl) hconjunction

theorem assignment (h : ∀ d, nested.Follows nested' d) :
    (Routine.assignment nested).Follows (Parser.assignment nested') c := by
  refine bind (disjunction h) fun left d => peek_bind ?_
  cases AssignOp.ofKind? d.current.kind with
  | none => exact pure left
  | some op =>
      cases left with
      | ident name => exact advance_bind (bind (h _) fun e _ => pure (Expr.assign op name e))
      | _ => exact of_peek (throw _)

end

theorem expression : Routine.expression.Follows Parser.expression c :=
  fix fun _ _ h _ => assignment h

/-! ### Statements -/

theorem declaration : Routine.declaration.Follows Parser.declaration c := by
  rw [Routine.declaration, Routine.identifier, bind_assoc]
  refine bind (expect .ident) fun name d => bind (accept .assign) fun found d => ?_
  cases found with
  | true => exact bind expression fun e d => pure _
  | false => exact pure _

theorem further (found : List Declaration) : (Routine.further found).Follows
    (Parser.further >>= fun d => Pure.pure (d.map fun d => found ++ [d])) c := by
  rw [Parser.further, bind_assoc]
  refine bind (accept .comma) fun more d => ?_
  cases more with
  | true => simpa using bind declaration fun next _ => pure (some (found ++ [next]))
  | false => simpa using pure none

/-- The word that the statement was known by is asked for once more. -/
theorem declarationStatement (hk : c.current.kind = .letWord) :
    Routine.declarationStatement.Follows (Parser.advance >>= fun _ =>
      Parser.declarations >>= fun ds => Pure.pure (Stmt.declare ds)) c := by
  apply expect_bind hk
  rw [Parser.declarations, bind_assoc]
  refine bind declaration fun first d => ?_
  have hloop : (Routine.loop Routine.further [first]).Follows
      (Parser.many Parser.further >>= fun ds => Pure.pure ([first] ++ ds)) d :=
    collect (fun found _ => further found) [first]
  simpa using hloop.bind fun ds d => pure (Stmt.declare ds)

section

variable {nested : Routine Stmt} {nested' : Parser Stmt}

theorem statementBefore (stop : Kind) (h : ∀ d, nested.Follows nested' d) (found : List Stmt) :
    (Routine.statementBefore stop nested found).Follows (Parser.statementBefore stop nested' >>=
      fun s => Pure.pure (s.map fun s => found ++ [s])) c := by
  rw [Parser.statementBefore, bind_assoc]
  apply check_bind
  by_cases hk : c.current.kind = stop
  · simpa [hk] using pure none
  · simpa [hk] using bind (h c) fun a _ => pure (some (found ++ [a]))

theorem statementsUntil (stop : Kind) (h : ∀ d, nested.Follows nested' d) :
    (Routine.statementsUntil stop nested).Follows (Parser.statementsUntil stop nested') c := by
  have hloop : (Routine.statementsUntil stop nested).Follows
      (Parser.statementsUntil stop nested' >>= fun ss => Pure.pure ([] ++ ss)) c :=
    collect (fun found _ => statementBefore stop h found) []
  simpa using hloop

theorem block (h : ∀ d, nested.Follows nested' d) (hk : c.current.kind = .indent) :
    (Routine.block nested).Follows (Parser.advance >>= fun _ => Parser.block nested') c := by
  apply expect_bind hk
  exact bind (statementsUntil .dedent h) fun body d => bind (expect .dedent) fun _ d =>
    pure (Stmt.block body)

theorem conditional (h : ∀ d, nested.Follows nested' d) (hk : c.current.kind = .ifWord) :
    (Routine.conditional nested).Follows
      (Parser.advance >>= fun _ => Parser.conditional nested') c := by
  apply expect_bind hk
  refine bind expression fun condition d => bind (expect .thenWord) fun _ d =>
    bind (h d) fun consequent d => bind (accept .elseWord) fun found d => ?_
  cases found with
  | true => exact bind (h d) fun alternate d => pure _
  | false => exact pure _

theorem statementOf (h : ∀ d, nested.Follows nested' d) :
    (Routine.statementOf nested).Follows (Parser.statementOf nested') c := by
  apply peek_bind
  cases hk : c.current.kind with
  | indent => exact block h hk
  | letWord => exact declarationStatement hk
  | ifWord => exact conditional h hk
  | _ => exact bind expression fun e _ => pure (Stmt.expression e)

end

theorem statement : Routine.statement.Follows Parser.statement c :=
  fix fun _ _ h _ => statementOf h

theorem program : Routine.program.Follows Parser.program c :=
  bind (statementsUntil .eof fun _ => statement) fun body _ => pure (Program.mk body)

theorem outcome_eq {q q' : Routine α} {p : Parser α} (h : q.Follows p c) (h' : q'.Follows p c) :
    q.outcome c = q'.outcome c := by
  apply Prod.ext
  · rw [h.result, h'.result]
  · apply Cursor.ext_rest
    · rw [h.tokens, h'.tokens]
    · rw [h.rest, h'.rest]

end Follows

/-! ## Bounds that never show -/

theorem ext_follows {q q' : Routine α} {p : Parser α} (h : ∀ c, q.Follows p c)
    (h' : ∀ c, q'.Follows p c) : q = q' :=
  funext fun c => (h c).outcome_eq (h' c)

theorem expression_eq : expression = assignment expression := by
  apply ext_follows (fun c => Follows.expression)
  intro c
  rw [Parser.expression_eq]
  exact Follows.assignment fun _ => Follows.expression

theorem statement_eq : statement = statementOf statement := by
  apply ext_follows (fun c => Follows.statement)
  intro c
  rw [Parser.statement_eq]
  exact Follows.statementOf fun _ => Follows.statement

/-- The loop goes on for as long as its rounds say. -/
def Unbounded (round : β → Routine (Option β)) : Prop :=
  ∀ b, loop round b = do
    match ← round b with
    | some b' => loop round b'
    | none => return b

theorem unbounded_of_progresses {round : β → Routine (Option β)} {item : Parser (Option α)}
    {add : β → α → β} (hitem : item.Progresses)
    (h : ∀ b c, (round b).Follows (item >>= fun a => pure (a.map (add b))) c) :
    Unbounded round := by
  intro b
  apply ext_follows (fun c => Follows.loop h b)
  intro c
  rw [Parser.many_eq hitem]
  exact Follows.round (h b c) fun b' d => Follows.loop h b'

theorem unbounded_further : Unbounded further :=
  unbounded_of_progresses Parser.progresses_further fun found _ => Follows.further found

theorem unbounded_statementBefore (stop : Kind) : Unbounded (statementBefore stop statement) :=
  unbounded_of_progresses (Parser.progresses_statementBefore stop Parser.Reads.statement)
    fun found _ => Follows.statementBefore stop (fun _ => Follows.statement) found

theorem unbounded_factors :
    Unbounded (operation? [.star, .slash, .percent] (primary expression)) :=
  unbounded_of_progresses
    (Parser.progresses_tail? (Grammar.Level.node?_ofBinary .multiplicative)
      (Parser.Reads.primary Parser.Reads.expression))
    fun left _ => Follows.operation? BinaryOp.Level.ofKinds_multiplicative
      (fun _ => Follows.primary fun _ => Follows.expression) left

theorem unbounded_terms : Unbounded (operation? [.plus, .minus] (multiplicative expression)) :=
  unbounded_of_progresses
    (Parser.progresses_tail? (Grammar.Level.node?_ofBinary .additive)
      (Parser.Reads.atLevel Parser.Reads.expression .multiplicative))
    fun left _ => Follows.operation? BinaryOp.Level.ofKinds_additive
      (fun _ => Follows.multiplicative fun _ => Follows.expression) left

end Routine

namespace Cursor

/-! ## Sessions -/

theorem rest_start (tokens : List Token) : (start tokens).rest = .ofTokens tokens := by
  apply Stream.ext_toList
  rw [toList_rest, Stream.toList_ofTokens_eq_completed]
  rfl

theorem result_readProgram (c : Cursor) : c.readProgram.1 = c.rest.readProgram.1 :=
  Routine.Follows.program.result

theorem rest_readProgram (c : Cursor) : c.readProgram.2.rest = c.rest.readProgram.2 :=
  Routine.Follows.program.rest

theorem tokens_readProgram (c : Cursor) : c.readProgram.2.tokens = c.tokens :=
  Routine.Follows.program.tokens

theorem rest_after (c : Cursor) (calls : Nat) : (c.after calls).rest = c.rest.after calls := by
  induction calls generalizing c with
  | zero => rfl
  | succ calls ih => rw [after, ih, rest_readProgram, Stream.after]

theorem tokens_after (c : Cursor) (calls : Nat) : (c.after calls).tokens = c.tokens := by
  induction calls generalizing c with
  | zero => rfl
  | succ calls ih => rw [after, ih, tokens_readProgram]

/-- The calls of a session are the readings of the stream, and the place of the cursor is the number
of tokens that the readings passed. -/
theorem session_eq_readings (tokens : List Token) (calls : Nat) :
    let c := (start tokens).after calls
    let s := Stream.ofTokens tokens
    c.tokens = s.toList ∧ c.position = s.passed calls ∧ c.readProgram.1 = s.reading calls := by
  intro c s
  have hrest : c.rest = s.after calls := by rw [rest_after, rest_start]
  have htokens : c.tokens = s.toList := by
    rw [Stream.toList_ofTokens_eq_completed]
    exact tokens_after _ calls
  refine ⟨htokens, ?_, ?_⟩
  · have hplace := c.position_add
    simp only [htokens, hrest, Stream.toList, List.length_append, List.length_singleton] at hplace
    rw [Stream.passed]
    omega
  · rw [result_readProgram, hrest, Stream.reading]

/-- To go on is to start anew. Wherever a session has left the cursor, the next call comes to the
same program or to the same error as a first call on the tokens from there on, and the two cursors
then stand at the same token. -/
theorem resume_eq_restart (tokens : List Token) (calls : Nat) :
    let c := (start tokens).after calls
    let fresh := start (c.tokens.drop c.position)
    c.tokens = completed tokens ∧ fresh.tokens = c.tokens.drop c.position ∧
      c.readProgram.1 = fresh.readProgram.1 ∧
      c.readProgram.2.position = c.position + fresh.readProgram.2.position ∧
      c.readProgram.2.current = fresh.readProgram.2.current := by
  intro c fresh
  have htokens : fresh.tokens = c.tokens.drop c.position := c.completed_drop
  have hrest : fresh.rest = c.rest := rest_start _
  have hafter : fresh.readProgram.2.rest = c.readProgram.2.rest := by
    rw [rest_readProgram, hrest, rest_readProgram]
  refine ⟨tokens_after _ calls, htokens, ?_, ?_, ?_⟩
  · rw [result_readProgram, result_readProgram, hrest]
  · have hplace := c.readProgram.2.position_add
    have hplace' := fresh.readProgram.2.position_add
    have hlt := c.position_lt
    rw [tokens_readProgram] at hplace
    rw [tokens_readProgram, htokens, hafter, List.length_drop] at hplace'
    omega
  · rw [← current_rest, ← current_rest, hafter]

/-- In `let nil a + b = c` the first call fails at `nil`, and the second one goes on from there. -/
example :
    let c := start [⟨.letWord, "let", ⟨1, 1⟩⟩, ⟨.nilWord, "nil", ⟨1, 5⟩⟩, ⟨.ident, "a", ⟨1, 9⟩⟩,
      ⟨.plus, "+", ⟨1, 11⟩⟩, ⟨.ident, "b", ⟨1, 13⟩⟩, ⟨.assign, "=", ⟨1, 15⟩⟩]
    (c.after 1).position = 1 ∧ (c.after 2).position = 5 := by
  decide

end Cursor

end IndentScript
