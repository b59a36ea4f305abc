import IndentScript.Proofs.Rounds
import Mathlib.Data.List.Forall2

/-!
# What decides a run

What a parser does is decided by the tokens that it passes and the one that it stops at, whatever
stands behind them. Even of these it sees only the part that the rules ask for: two runs over tokens
that are alike pass equally many of them and stop in the same way.
-/

namespace IndentScript

open Grammar IndentScript.Parser

/-! ## Tokens that the rules cannot tell apart -/

namespace Kind

/-- The kind that stands for a kind in the rules: words for comparison are read like the signs. -/
def role : Kind → Kind
  | is => equal
  | not => notEqual
  | k => k

/-- Whether a kind stands for no other. -/
def isAlone : Kind → Bool
  | is | not | equal | notEqual => false
  | _ => true

/-- Whether the rules ask for the text of a token of the kind. -/
def hasText : Kind → Bool
  | ident | int | float | string => true
  | _ => false

/-- Whether a token of the kind is an expression by itself. -/
def isOperand : Kind → Bool
  | ident | int | float | string | trueWord | falseWord | nilWord => true
  | _ => false

theorem eq_of_role {k l : Kind} (h : k.role = l.role) (hl : l.isAlone = true) : k = l := by
  have hrole : l.role = l := by cases l <;> first | rfl | cases hl
  rw [hrole] at h
  subst h
  cases k <;> first | rfl | cases hl

end Kind

namespace Token

theorem operand?_eq_none_iff {t : Token} : t.operand? = none ↔ t.kind.isOperand = false := by
  rw [operand?]
  split
  · split <;> simp [*, Kind.isOperand]
  · split
    · split <;> simp [*, Kind.isOperand]
    · simp [*, Kind.isOperand]
  all_goals simp_all [Kind.isOperand]

/-- The text of a number is asked for, and it is the text that has no value. -/
theorem hasText_of_operand?_error {t : Token} {e : ParseError}
    (h : t.operand? = some (.error e)) : t.kind.hasText = true := by
  rw [operand?] at h
  split at h
  all_goals simp_all [Kind.hasText]

/-- The rules cannot tell the tokens apart. -/
structure Alike (t t' : Token) : Prop where
  role : t.kind.role = t'.kind.role
  text : t.kind.hasText = true → t.text = t'.text

namespace Alike

variable {t t' : Token}

theorem refl (t : Token) : t.Alike t := ⟨rfl, fun _ => rfl⟩

instance : Std.Refl Alike := ⟨refl⟩

theorem symm (h : t.Alike t') : t'.Alike t := by
  refine ⟨h.role.symm, fun htext => (h.text ?_).symm⟩
  have halone : t'.kind.isAlone = true := by
    revert htext
    cases t'.kind <;> simp [Kind.hasText, Kind.isAlone]
  rwa [Kind.eq_of_role h.role halone]

theorem kind_eq (h : t.Alike t') {k : Kind} (hk : k.isAlone = true) (ht : t.kind = k) :
    t'.kind = k :=
  Kind.eq_of_role (by rw [← h.role, ht]) hk

theorem kind_ne (h : t.Alike t') {k : Kind} (hk : k.isAlone = true) (ht : t.kind ≠ k) :
    t'.kind ≠ k :=
  fun ht' => ht (h.symm.kind_eq hk ht')

/-- Tokens that are alike are by themselves the same expression, or both are none. -/
theorem terminal (h : t.Alike t') {e : Expr} (ht : Terminal t e) : Terminal t' e := by
  cases ht with
  | int hk hv => exact .int (h.kind_eq rfl hk) (h.text (by simp [hk, Kind.hasText]) ▸ hv)
  | float hk hv hfin =>
      exact .float (h.kind_eq rfl hk) (h.text (by simp [hk, Kind.hasText]) ▸ hv) hfin
  | string hk hv => exact .string (h.kind_eq rfl hk) (h.text (by simp [hk, Kind.hasText]) ▸ hv)
  | trueWord hk => exact .trueWord (h.kind_eq rfl hk)
  | falseWord hk => exact .falseWord (h.kind_eq rfl hk)
  | nilWord hk => exact .nilWord (h.kind_eq rfl hk)
  | ident hk =>
      rw [h.text (by simp [hk, Kind.hasText])]
      exact .ident (h.kind_eq rfl hk)

theorem operand?_none (h : t.Alike t') (ht : t.operand? = none) : t'.operand? = none := by
  rw [Token.operand?_eq_none_iff] at ht ⊢
  cases hk : t'.kind.isOperand with
  | false => rfl
  | true =>
      have halone : t'.kind.isAlone = true := by
        revert hk
        cases t'.kind <;> simp [Kind.isOperand, Kind.isAlone]
      rw [Kind.eq_of_role h.role halone, hk] at ht
      cases ht

theorem operand?_error (h : t.Alike t') {e : ParseError} (ht : t.operand? = some (.error e)) :
    ∃ e', t'.operand? = some (.error e') := by
  cases ht' : t'.operand? with
  | none => simp [h.symm.operand?_none ht'] at ht
  | some r =>
      cases r with
      | ok e' =>
          have := Token.operand?_eq_ok_iff.2 (h.symm.terminal (Token.operand?_eq_ok_iff.1 ht'))
          simp [this] at ht
      | error e' => exact ⟨e', rfl⟩

end Alike

end Token

theorem AssignOp.ofKind?_role (k : Kind) : AssignOp.ofKind? k.role = AssignOp.ofKind? k := by
  cases k <;> rfl

theorem LogicalOp.ofKindAt?_role (op : LogicalOp) (k : Kind) :
    LogicalOp.ofKindAt? op k.role = LogicalOp.ofKindAt? op k := by
  cases k <;> rfl

theorem BinaryOp.ofKindAt?_role (l : BinaryOp.Level) (k : Kind) :
    BinaryOp.ofKindAt? l k.role = BinaryOp.ofKindAt? l k := by
  cases k <;> rfl

/-! ## Runs that go alike -/

namespace Parser

variable {α β : Type}

theorem forall₂_append_left {w v x : List Token} (h : List.Forall₂ Token.Alike (w ++ v) x) :
    ∃ w' v', x = w' ++ v' ∧ List.Forall₂ Token.Alike w w' ∧ List.Forall₂ Token.Alike v v' := by
  refine ⟨x.take w.length, x.drop w.length, (List.take_append_drop _ x).symm, ?_, ?_⟩
  · simpa using List.forall₂_take w.length h
  · simpa using List.forall₂_drop w.length h

/-- On the stream `s` the parser is decided by the tokens up to where it stops: in front of others
that are alike it passes equally many of them and stops in the same way. -/
def Determined (p : Parser α) (s : Stream) : Prop :=
  ∃ (w : List Token) (v : Except Fault α) (u : Stream), s = u.prepend w ∧
    ∀ w' u', List.Forall₂ Token.Alike w w' → u.current.Alike u'.current →
      p.Stops (u'.prepend w') v u'

/-- The parser is decided in this way on every stream with fewer than `n` tokens ahead. -/
def DeterminedBelow (n : Nat) (p : Parser α) : Prop :=
  ∀ s, s.ahead.length < n → p.Determined s

theorem alike_current {w w' : List Token} {u u' : Stream} (hw : List.Forall₂ Token.Alike w w')
    (hu : u.current.Alike u'.current) : (u.prepend w).current.Alike (u'.prepend w').current := by
  cases hw with
  | nil => exact hu
  | cons hx _ => exact hx

namespace Determined

variable {s : Stream} {p : Parser α}

theorem fault {f : Fault} (h : ∀ s', s.current.Alike s'.current → p.Stops s' (.error f) s') :
    p.Determined s := by
  refine ⟨[], .error f, s, rfl, fun w' u' hw hu => ?_⟩
  cases hw
  exact h u' hu

theorem pure (a : α) (s : Stream) : (Pure.pure a : Parser α).Determined s := by
  refine ⟨[], .ok a, s, rfl, fun w' u' hw _ => ?_⟩
  cases hw
  exact Stops.pure a u'

theorem unexpected (s : Stream) : (Parser.unexpected : Parser α).Determined s :=
  fault fun s' _ => Stops.unexpected s'

/-- What the current token decides without being passed. -/
theorem stay {q : Parser α} (hq : q.Determined s)
    (h : ∀ s', s.current.Alike s'.current → p.outcome s' = q.outcome s') : p.Determined s := by
  obtain ⟨w, v, u, rfl, hrun⟩ := hq
  exact ⟨w, v, u, rfl, fun w' u' hw hu =>
    (hrun w' u' hw hu).congr (h _ (alike_current hw hu))⟩

/-- What the current token decides and is passed for. -/
theorem step {q : Parser α} (hs : s.current.kind ≠ .eof) (hq : q.Determined s.next)
    (h : ∀ s', s.current.Alike s'.current → p.outcome s' = q.outcome s'.next) : p.Determined s := by
  obtain ⟨w, v, u, hnext, hrun⟩ := hq
  refine ⟨s.current :: w, v, u, ?_, fun w' u' hw hu => ?_⟩
  · calc s = s.next.prepend [s.current] := Stream.eq_prepend_current hs
      _ = u.prepend (s.current :: w) := by rw [hnext]; simp
  · cases hw with
    | cons hx hw => exact (hrun _ u' hw hu).congr (h (u'.prepend _) hx)

theorem bind {f : α → Parser β} (hp : p.Determined s)
    (hf : ∀ a t, t.ahead.length ≤ s.ahead.length → p.outcome s = (.ok a, t) → (f a).Determined t) :
    (p >>= f).Determined s := by
  obtain ⟨w, v, t, rfl, hrun⟩ := hp
  cases v with
  | error fault => exact ⟨w, .error fault, t, rfl, fun w' u' hw hu => (hrun w' u' hw hu).bind_error⟩
  | ok a =>
      have hself : p.outcome (t.prepend w) = (.ok a, t) :=
        hrun w t (List.forall₂_refl w) (.refl t.current)
      obtain ⟨x, v, u, rfl, hrun'⟩ := hf a t (by simp) hself
      refine ⟨w ++ x, v, u, by simp, fun w' u' hw hu => ?_⟩
      obtain ⟨w₁, w₂, rfl, hw₁, hw₂⟩ := forall₂_append_left hw
      have hp : p.Stops ((u'.prepend w₂).prepend w₁) (.ok a) (u'.prepend w₂) :=
        hrun w₁ _ hw₁ (alike_current hw₂ hu)
      simpa using hp.bind (hrun' w₂ u' hw₂ hu)

theorem accept_bind {kind : Kind} {f : Bool → Parser α} (hk : kind ≠ .eof)
    (halone : kind.isAlone = true) (hfound : s.current.kind = kind → (f true).Determined s.next)
    (hother : s.current.kind ≠ kind → (f false).Determined s) :
    (Parser.accept kind >>= f).Determined s := by
  by_cases h : s.current.kind = kind
  · exact step (h ▸ hk) (hfound h) fun s' hs' =>
      outcome_bind_ok (Stops.accept (hs'.kind_eq halone h))
  · exact stay (hother h) fun s' hs' =>
      outcome_bind_ok (Stops.accept_other (hs'.kind_ne halone h))

/-- What goes on with an expected token may use no more of it than can be told. -/
theorem expect_bind {kind : Kind} {f : Token → Parser α} (hk : kind ≠ .eof)
    (halone : kind.isAlone = true)
    (hf : s.current.kind = kind → ∀ t', s.current.Alike t' → f t' = f s.current)
    (hfound : s.current.kind = kind → (f s.current).Determined s.next) :
    (Parser.expect kind >>= f).Determined s := by
  by_cases h : s.current.kind = kind
  · refine step (h ▸ hk) (hfound h) fun s' hs' => ?_
    rw [outcome_bind_ok (Stops.expect (hs'.kind_eq halone h)), hf h _ hs']
  · exact fault fun s' hs' => Stops.bind_error (Stops.expect_other (hs'.kind_ne halone h))

theorem operator?_bind {ω : Type} {ofKind? : Kind → Option ω} {f : Option ω → Parser α}
    (heof : ofKind? .eof = none) (hrole : ∀ k, ofKind? k.role = ofKind? k)
    (hfound : ∀ op, ofKind? s.current.kind = some op → (f (some op)).Determined s.next)
    (hother : ofKind? s.current.kind = none → (f none).Determined s) :
    (Parser.operator? ofKind? >>= f).Determined s := by
  have hsame : ∀ s' : Stream, s.current.Alike s'.current →
      ofKind? s'.current.kind = ofKind? s.current.kind := by
    intro s' hs'
    rw [← hrole, ← hs'.role, hrole]
  cases h : ofKind? s.current.kind with
  | none =>
      exact stay (hother h) fun s' hs' =>
        outcome_bind_ok (Stops.operator?_none ((hsame s' hs').trans h))
  | some op =>
      exact step (Kind.ne_eof_of_ofKind? heof h) (hfound op h) fun s' hs' =>
        outcome_bind_ok (Stops.operator? ((hsame s' hs').trans h))

end Determined

/-- What follows an opening parenthesis. -/
def group (nested : Parser Expr) : Parser Expr := do
  let inner ← nested
  let _ ← expect .rightParen
  return .group inner

namespace DeterminedBelow

variable {n : Nat}

theorem bind {p : Parser α} {f : α → Parser β} (hp : DeterminedBelow n p)
    (hf : ∀ a, DeterminedBelow n (f a)) : DeterminedBelow n (p >>= f) :=
  fun s hs => .bind (hp s hs) fun a t ht _ => hf a t (by omega)

theorem pure (a : α) : DeterminedBelow n (Pure.pure a : Parser α) :=
  fun s _ => .pure a s

/-- A repetition is decided if its item is: each round is over fewer tokens. -/
theorem many {item : Parser (Option α)} (hprogress : item.Progresses)
    (h : DeterminedBelow n item) : DeterminedBelow n (Parser.many item) := by
  intro s
  induction hlen : s.ahead.length using Nat.strongRecOn generalizing s with
  | ind len ih =>
      intro hs
      rw [many_eq hprogress]
      refine .bind (h s (hlen ▸ hs)) fun r t _ hrun => ?_
      cases r with
      | none => exact .pure [] t
      | some a =>
          have hlt : t.ahead.length < len := hlen ▸ hprogress s a t hrun
          exact .bind (ih _ hlt t rfl (by omega)) fun as u _ _ => .pure (a :: as) u

/-! ## Expressions -/

theorem primary {nested : Parser Expr} (h : DeterminedBelow n nested) :
    DeterminedBelow (n + 1) (Parser.primary nested) := by
  intro s hs
  cases hop : s.current.operand? with
  | some r =>
      cases r with
      | ok e =>
          refine .step (Token.kind_ne_eof_of_operand? hop) (.pure e s.next) fun s' hs' => ?_
          have hop' := Token.operand?_eq_ok_iff.2 (hs'.terminal (Token.operand?_eq_ok_iff.1 hop))
          rw [Parser.primary, outcome_peek_bind, hop']
          rfl
      | error e =>
          refine Determined.fault (f := .number) fun s' hs' => ?_
          obtain ⟨e', hop'⟩ := hs'.operand?_error hop
          refine ⟨?_, e', hop'⟩
          rw [Parser.primary, outcome_peek_bind, hop', Token.operand?_eq_error hop']
          rfl
  | none =>
      have hrun : ∀ s', s.current.Alike s'.current → (Parser.primary nested).outcome s' =
          (accept .leftParen >>= fun found => if found then group nested else Parser.unexpected).outcome
            s' := by
        intro s' hs'
        rw [Parser.primary, outcome_peek_bind, hs'.operand?_none hop]
        rfl
      refine .stay (.accept_bind (by decide) rfl (fun hl => ?_) (fun _ => .unexpected s)) hrun
      have hlt : s.next.ahead.length < s.ahead.length := Stream.length_next_lt (by simp [hl])
      refine .bind (h s.next (by omega)) fun e t _ _ => ?_
      exact .expect_bind (by decide) rfl (fun _ _ _ => rfl) fun _ => .pure _ _

variable {ω : Type} {ofKind? : Kind → Option ω} {node : ω → Expr → Expr → Expr}
  {operand : Parser Expr}

theorem tail? (heof : ofKind? .eof = none) (hrole : ∀ k, ofKind? k.role = ofKind? k)
    (h : DeterminedBelow n operand) : DeterminedBelow n (Parser.tail? ofKind? operand) := by
  intro s hs
  refine .operator?_bind heof hrole (fun op hop => ?_) (fun _ => .pure none s)
  have hle := s.length_next_le
  exact .bind (h s.next (by omega)) fun e t _ _ => .pure _ t

theorem single (heof : ofKind? .eof = none) (hrole : ∀ k, ofKind? k.role = ofKind? k)
    (h : DeterminedBelow n operand) :
    DeterminedBelow n (Parser.single ofKind? node operand) := by
  refine bind h fun left => bind (tail? heof hrole h) fun r => ?_
  cases r with
  | none => exact pure left
  | some r => exact pure (node r.1 left r.2)

theorem chain (heof : ofKind? .eof = none) (hrole : ∀ k, ofKind? k.role = ofKind? k)
    (hprogress : (Parser.tail? ofKind? operand).Progresses) (h : DeterminedBelow n operand) :
    DeterminedBelow n (Parser.chain ofKind? node operand) :=
  bind h fun _ => bind (many hprogress (tail? heof hrole h)) fun _ => pure _

theorem disjunction (h : DeterminedBelow n expression) :
    DeterminedBelow (n + 1) (Parser.disjunction expression) := by
  have hreads := Reads.atLevel Reads.expression
  have hmul : DeterminedBelow (n + 1) (multiplicative expression) :=
    chain rfl (BinaryOp.ofKindAt?_role .multiplicative)
      (progresses_tail? (Level.node?_ofBinary .multiplicative) (hreads .primary)) (primary h)
  have hadd : DeterminedBelow (n + 1) (additive expression) :=
    chain rfl (BinaryOp.ofKindAt?_role .additive)
      (progresses_tail? (Level.node?_ofBinary .additive) (hreads .multiplicative)) hmul
  have hrel : DeterminedBelow (n + 1) (relational expression) :=
    single rfl (BinaryOp.ofKindAt?_role .relational) hadd
  have heq : DeterminedBelow (n + 1) (equality expression) :=
    single rfl (BinaryOp.ofKindAt?_role .equality) hrel
  have hand : DeterminedBelow (n + 1) (conjunction expression) :=
    single rfl (LogicalOp.ofKindAt?_role .and) heq
  exact single rfl (LogicalOp.ofKindAt?_role .or) hand

theorem assignment (h : DeterminedBelow n expression) :
    DeterminedBelow (n + 1) (Parser.assignment expression) := by
  intro s hs
  refine .bind (disjunction h s hs) fun left t hle _ => ?_
  have hsame : ∀ t' : Stream, t.current.Alike t'.current →
      AssignOp.ofKind? t'.current.kind = AssignOp.ofKind? t.current.kind := by
    intro t' ht'
    rw [← AssignOp.ofKind?_role, ← ht'.role, AssignOp.ofKind?_role]
  cases hop : AssignOp.ofKind? t.current.kind with
  | none =>
      refine .stay (.pure left t) fun t' ht' => ?_
      rw [outcome_peek_bind, hsame t' ht', hop]
  | some op =>
      cases left with
      | ident name =>
          have hne := Kind.ne_eof_of_ofKind? rfl hop
          have hlt := Stream.length_next_lt hne
          refine .step hne (.bind (h t.next (by omega)) fun e u _ _ => .pure (Expr.assign op name e) u)
            fun t' ht' => ?_
          rw [outcome_peek_bind, hsame t' ht', hop]
          rfl
      | _ =>
          refine Determined.fault (f := .target) fun t' ht' => ?_
          rw [← hsame t' ht'] at hop
          refine ⟨?_, by simp [Fault.AppliesTo, hop]⟩
          rw [outcome_peek_bind, hop]
          rfl

theorem expression (n : Nat) : DeterminedBelow n Parser.expression := by
  induction n with
  | zero => exact fun s hs => absurd hs (Nat.not_lt_zero _)
  | succ n ih =>
      rw [expression_eq]
      exact assignment ih

/-! ## Statements -/

theorem declaration : DeterminedBelow n Parser.declaration := by
  intro s hs
  refine .expect_bind (by decide) rfl (fun hx t' ht' => ?_) fun _ => ?_
  · rw [ht'.text (by simp [hx, Kind.hasText])]
  · refine .accept_bind (by decide) rfl (fun _ => ?_) (fun _ => .pure _ _)
    exact .bind (expression _ _ (Nat.lt_add_one _)) fun e t _ _ => .pure _ t

theorem further : DeterminedBelow n Parser.further := by
  intro s hs
  refine .accept_bind (by decide) rfl (fun _ => ?_) (fun _ => .pure none s)
  exact .bind (declaration _ (Nat.lt_add_one _)) fun d t _ _ => .pure _ t

theorem declarations : DeterminedBelow n Parser.declarations :=
  bind declaration fun _ => bind (many progresses_further further) fun _ => pure _

theorem statementBefore {stop : Kind} (hstop : stop.isAlone = true)
    (h : DeterminedBelow n statement) : DeterminedBelow n (Parser.statementBefore stop statement) := by
  intro s hs
  by_cases hk : s.current.kind = stop
  · refine .stay (.pure none s) fun s' hs' => ?_
    rw [Parser.statementBefore, outcome_peek_bind, if_pos (hs'.kind_eq hstop hk)]
  · refine .stay (.bind (h s hs) fun a t _ _ => .pure (some a) t) fun s' hs' => ?_
    rw [Parser.statementBefore, outcome_peek_bind, if_neg (hs'.kind_ne hstop hk)]

theorem statementsUntil {stop : Kind} (hstop : stop.isAlone = true)
    (h : DeterminedBelow n statement) : DeterminedBelow n (Parser.statementsUntil stop statement) :=
  many (progresses_statementBefore stop Reads.statement) (statementBefore hstop h)

theorem block (h : DeterminedBelow n statement) : DeterminedBelow n (Parser.block statement) := by
  refine bind (statementsUntil rfl h) fun body s hs => ?_
  exact .expect_bind (by decide) rfl (fun _ _ _ => rfl) fun _ => .pure _ _

theorem conditional (h : DeterminedBelow n statement) :
    DeterminedBelow n (Parser.conditional statement) := by
  refine bind (expression n) fun c s hs => ?_
  refine .expect_bind (by decide) rfl (fun _ _ _ => rfl) fun _ => ?_
  have hle := s.length_next_le
  refine .bind (h s.next (by omega)) fun a t _ _ => ?_
  refine .accept_bind (by decide) rfl (fun _ => ?_) (fun _ => .pure _ t)
  have hle := t.length_next_le
  exact .bind (h t.next (by omega)) fun b u _ _ => .pure _ u

theorem statementOf (h : DeterminedBelow n statement) :
    DeterminedBelow (n + 1) (Parser.statementOf statement) := by
  intro s hs
  by_cases hi : s.current.kind = .indent
  · have hlt := Stream.length_next_lt (s := s) (by simp [hi])
    refine .step (by simp [hi]) (block h s.next (by omega)) fun s' hs' => ?_
    rw [Parser.statementOf, outcome_peek_bind, hs'.kind_eq rfl hi]
    rfl
  by_cases hl : s.current.kind = .letWord
  · have hdeclares := bind (n := n + 1) declarations fun ds => pure (Stmt.declare ds)
    have hlt := Stream.length_next_lt (s := s) (by simp [hl])
    refine .step (by simp [hl]) (hdeclares s.next (by omega)) fun s' hs' => ?_
    rw [Parser.statementOf, outcome_peek_bind, hs'.kind_eq rfl hl]
    rfl
  by_cases hf : s.current.kind = .ifWord
  · have hlt := Stream.length_next_lt (s := s) (by simp [hf])
    refine .step (by simp [hf]) (conditional h s.next (by omega)) fun s' hs' => ?_
    rw [Parser.statementOf, outcome_peek_bind, hs'.kind_eq rfl hf]
    rfl
  · have hexpression := bind (expression (n + 1)) fun e => pure (Stmt.expression e)
    refine .stay (hexpression s hs) fun s' hs' => ?_
    rw [Parser.statementOf, outcome_peek_bind]
    split
    · next hk => exact absurd hk (hs'.kind_ne rfl hi)
    · next hk => exact absurd hk (hs'.kind_ne rfl hl)
    · next hk => exact absurd hk (hs'.kind_ne rfl hf)
    · rfl

theorem statement (n : Nat) : DeterminedBelow n Parser.statement := by
  induction n with
  | zero => exact fun s hs => absurd hs (Nat.not_lt_zero _)
  | succ n ih =>
      rw [statement_eq]
      exact statementOf ih

theorem program (n : Nat) : DeterminedBelow n Parser.program :=
  bind (statementsUntil rfl (statement n)) fun _ => pure _

end DeterminedBelow

/-- On every stream the reading of a program is decided by the tokens up to where it stops. -/
theorem determined_program (s : Stream) : Parser.program.Determined s :=
  DeterminedBelow.program _ s (Nat.lt_add_one _)

end Parser

end IndentScript
