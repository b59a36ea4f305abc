import IndentScript.Parser.Recursion

/-!
# Runs of a parser

A run passes some tokens and then stops, with a value or with a fault. What it stops at is the
stream whose current token decides: the first token that is not passed, or the number token whose
text has no value. A fault together with that token is the error, so runs can be compared without
the texts and places that only errors show.
-/

namespace IndentScript

/-! ## Faults -/

/-- What a token is blamed for. -/
inductive Fault where
  /-- No rule goes on with the token. -/
  | unexpected
  /-- A rule can go on with the given kind only. -/
  | expected (kind : Kind)
  /-- The operator has no name in front of it. -/
  | target
  /-- The text of the number has no value. -/
  | number
deriving DecidableEq, Repr

namespace Fault

/-- The error that blames the token. -/
def blame (t : Token) : Fault → ParseError
  | unexpected => .unexpectedToken t.kind t.text t.location
  | expected kind => .expectedToken kind t.kind t.location
  | target => .invalidAssignmentTarget t.location
  | number => .invalidNumberLiteral t.text t.location

/-- What is known of a token that is blamed for the fault. -/
def AppliesTo (t : Token) : Fault → Prop
  | unexpected => True
  | expected kind => t.kind ≠ kind
  | target => AssignOp.ofKind? t.kind ≠ none
  | number => ∃ e, t.operand? = some (.error e)

/-- The stream as a fault at its current token leaves it: only a number is passed before it is
judged. -/
def leaves (s : Stream) : Fault → Stream
  | number => s.next
  | _ => s

end Fault

namespace Parser

variable {α β : Type}

/-! ## Where a run stops -/

/-- On the stream `s` the parser stops at `u`, with a value or with a fault of the token there. -/
def Stops (p : Parser α) (s : Stream) (verdict : Except Fault α) (u : Stream) : Prop :=
  match verdict with
  | .ok a => p.outcome s = (.ok a, u)
  | .error f => p.outcome s = (.error (f.blame u.current), f.leaves u) ∧ f.AppliesTo u.current

namespace Stops

theorem congr {p q : Parser α} {s t u : Stream} {v : Except Fault α}
    (h : p.outcome s = q.outcome t) (hq : q.Stops t v u) : p.Stops s v u := by
  cases v with
  | ok a => exact h.trans hq
  | error f => exact ⟨h.trans hq.1, hq.2⟩

theorem bind {p : Parser α} {f : α → Parser β} {s t u : Stream} {a : α} {v : Except Fault β}
    (hp : p.Stops s (.ok a) t) (hf : (f a).Stops t v u) : (p >>= f).Stops s v u :=
  hf.congr (outcome_bind_ok hp)

theorem bind_error {p : Parser α} {f : α → Parser β} {s u : Stream} {fault : Fault}
    (hp : p.Stops s (.error fault) u) : (p >>= f).Stops s (.error fault) u :=
  ⟨outcome_bind_error hp.1, hp.2⟩

theorem pure (a : α) (s : Stream) : (Pure.pure a : Parser α).Stops s (.ok a) s := rfl

theorem map {p : Parser α} {f : α → β} {s u : Stream} {v : Except Fault α} (h : p.Stops s v u) :
    (p >>= fun a => Pure.pure (f a)).Stops s (v.map f) u := by
  cases v with
  | ok a => exact h.bind (pure (f a) u)
  | error fault => exact h.bind_error

theorem unexpected (s : Stream) : (Parser.unexpected : Parser α).Stops s (.error .unexpected) s :=
  ⟨rfl, trivial⟩

theorem accept {kind : Kind} {s : Stream} (h : s.current.kind = kind) :
    (Parser.accept kind).Stops s (.ok true) s.next := by
  simp [Stops, outcome_accept, h]

theorem accept_other {kind : Kind} {s : Stream} (h : s.current.kind ≠ kind) :
    (Parser.accept kind).Stops s (.ok false) s := by
  simp [Stops, outcome_accept, h]

theorem expect {kind : Kind} {s : Stream} (h : s.current.kind = kind) :
    (Parser.expect kind).Stops s (.ok s.current) s.next := by
  simp [Stops, outcome_expect, h]

theorem expect_other {kind : Kind} {s : Stream} (h : s.current.kind ≠ kind) :
    (Parser.expect kind).Stops s (.error (.expected kind)) s := by
  simp [Stops, outcome_expect, h, Fault.blame, Fault.leaves, Fault.AppliesTo]

theorem operator? {ω : Type} {ofKind? : Kind → Option ω} {s : Stream} {op : ω}
    (h : ofKind? s.current.kind = some op) :
    (Parser.operator? ofKind?).Stops s (.ok (some op)) s.next := by
  simp [Stops, outcome_operator?, h]

theorem operator?_none {ω : Type} {ofKind? : Kind → Option ω} {s : Stream}
    (h : ofKind? s.current.kind = none) :
    (Parser.operator? ofKind?).Stops s (.ok none) s := by
  simp [Stops, outcome_operator?, h]

end Stops

/-- Looking at the current token changes nothing but what is done next. -/
theorem outcome_peek_bind (f : Token → Parser α) (s : Stream) :
    (peek >>= f).outcome s = (f s.current).outcome s :=
  outcome_bind_ok (outcome_peek s)

theorem outcome_advance_bind (f : Unit → Parser α) (s : Stream) :
    (advance >>= f).outcome s = (f ()).outcome s.next :=
  outcome_bind_ok (outcome_advance s)

/-- A token that is accepted is passed, and so is one that is expected or stands for an operator. -/
theorem outcome_accept_bind {kind : Kind} {s : Stream} (f : Bool → Parser α)
    (h : s.current.kind = kind) :
    (accept kind >>= f).outcome s = (advance >>= fun _ => f true).outcome s :=
  (outcome_bind_ok (Stops.accept h)).trans (outcome_advance_bind (fun _ => f true) s).symm

theorem outcome_expect_bind {kind : Kind} {s : Stream} (f : Token → Parser α)
    (h : s.current.kind = kind) :
    (expect kind >>= f).outcome s = (advance >>= fun _ => f s.current).outcome s :=
  (outcome_bind_ok (Stops.expect h)).trans (outcome_advance_bind (fun _ => f s.current) s).symm

theorem outcome_operator?_bind {ω : Type} {ofKind? : Kind → Option ω} {s : Stream} {op : ω}
    (f : Option ω → Parser α) (h : ofKind? s.current.kind = some op) :
    (operator? ofKind? >>= f).outcome s = (advance >>= fun _ => f (some op)).outcome s :=
  (outcome_bind_ok (Stops.operator? h)).trans (outcome_advance_bind (fun _ => f (some op)) s).symm

/-- What a sequence answers, its parts have answered one after the other. -/
theorem outcome_bind_eq_ok {p : Parser α} {f : α → Parser β} {s u : Stream} {b : β}
    (h : (p >>= f).outcome s = (.ok b, u)) :
    ∃ a t, p.outcome s = (.ok a, t) ∧ (f a).outcome t = (.ok b, u) := by
  rw [outcome_bind] at h
  rcases hp : p.outcome s with ⟨e | a, t⟩
  · simp [hp] at h
  · exact ⟨a, t, rfl, by simpa [hp] using h⟩

/-! ## What a run passes -/

/-- On the stream `s` the parser keeps to the phrases `D`: what it passes derives the value it
answers, and if it fails, what stands before the blamed token begins a phrase. -/
def Reads (D : List Token → α → Prop) (p : Parser α) (s : Stream) : Prop :=
  ∃ w v u, s = u.prepend w ∧ p.Stops s v u ∧
    match v with
    | .ok a => D w a
    | .error _ => ∃ rest a, D (w ++ rest) a

namespace Reads

variable {D : List Token → α → Prop} {E : List Token → β → Prop} {s : Stream}

theorem congr {p q : Parser α} (h : p.outcome s = q.outcome s) (hq : q.Reads D s) :
    p.Reads D s := by
  obtain ⟨w, v, u, hs, hstop, hfit⟩ := hq
  exact ⟨w, v, u, hs, hstop.congr h, hfit⟩

theorem ok {p : Parser α} {w : List Token} {a : α} {u : Stream} (hs : s = u.prepend w)
    (h : p.Stops s (.ok a) u) (hd : D w a) : p.Reads D s :=
  ⟨w, .ok a, u, hs, h, hd⟩

/-- A fault before anything is passed is no harm, provided there is a phrase at all. -/
theorem fail {p : Parser α} {fault : Fault} (h : p.Stops s (.error fault) s)
    (hd : ∃ w a, D w a) : p.Reads D s := by
  obtain ⟨w, a, hd⟩ := hd
  exact ⟨[], .error fault, s, rfl, h, w, a, hd⟩

theorem pure {a : α} (h : D [] a) : (Pure.pure a : Parser α).Reads D s :=
  ok rfl (Stops.pure a s) h

theorem unexpected (hd : ∃ w a, D w a) : (Parser.unexpected : Parser α).Reads D s :=
  fail (Stops.unexpected s) hd

/-- A sequence keeps to `E` if each part does its share and the first part can always be gone on
with. -/
theorem bind {p : Parser α} {f : α → Parser β} (hp : p.Reads D s)
    (hf : ∀ w a t, s = t.prepend w → p.outcome s = (.ok a, t) → D w a →
      (f a).Reads (fun v b => E (w ++ v) b) t)
    (hend : ∀ w a, D w a → ∃ v b, E (w ++ v) b) : (p >>= f).Reads E s := by
  obtain ⟨w, v, t, rfl, hstop, hfit⟩ := hp
  cases v with
  | error fault =>
      obtain ⟨rest, a, hd⟩ := hfit
      obtain ⟨rest', b, he⟩ := hend _ a hd
      exact ⟨w, .error fault, t, rfl, hstop.bind_error, rest ++ rest', b, by simpa using he⟩
  | ok a =>
      obtain ⟨w', v, u, rfl, hstop', hfit'⟩ := hf w a t rfl hstop hfit
      refine ⟨w ++ w', v, u, by simp, hstop.bind hstop', ?_⟩
      cases v with
      | ok b => exact hfit'
      | error fault =>
          obtain ⟨rest, b, he⟩ := hfit'
          exact ⟨rest, b, by simpa using he⟩

/-- What is only computed from the value of a complete phrase needs no further tokens. -/
theorem map {p : Parser α} {f : α → β} (hp : p.Reads D s) (h : ∀ w a, D w a → E w (f a)) :
    (p >>= fun a => Pure.pure (f a)).Reads E s := by
  refine bind hp (fun w a t _ _ hd => pure ?_) (fun w a hd => ⟨[], f a, ?_⟩)
  · simpa using h w a hd
  · simpa using h w a hd

theorem peek_bind {f : Token → Parser α} (h : (f s.current).Reads D s) :
    (Parser.peek >>= f).Reads D s :=
  h.congr (outcome_peek_bind f s)

/-- Passing the current token puts it in front of what is read after it. -/
theorem advance_bind {f : Unit → Parser α} (hs : s.current.kind ≠ .eof)
    (h : (f ()).Reads (fun w a => D (s.current :: w) a) s.next) :
    (Parser.advance >>= f).Reads D s := by
  obtain ⟨w, v, u, hnext, hstop, hfit⟩ := h
  refine ⟨s.current :: w, v, u, ?_, hstop.congr (outcome_advance_bind f s), hfit⟩
  calc s = s.next.prepend [s.current] := Stream.eq_prepend_current hs
    _ = u.prepend (s.current :: w) := by rw [hnext]; simp

theorem accept_bind {kind : Kind} {f : Bool → Parser α} (hk : kind ≠ .eof)
    (hfound : s.current.kind = kind → (f true).Reads (fun w a => D (s.current :: w) a) s.next)
    (hother : s.current.kind ≠ kind → (f false).Reads D s) :
    (Parser.accept kind >>= f).Reads D s := by
  by_cases h : s.current.kind = kind
  · exact (advance_bind (h ▸ hk) (hfound h)).congr (outcome_accept_bind f h)
  · exact (hother h).congr (outcome_bind_ok (Stops.accept_other h))

theorem expect_bind {kind : Kind} {f : Token → Parser α} (hk : kind ≠ .eof) (hd : ∃ w a, D w a)
    (hfound : s.current.kind = kind →
      (f s.current).Reads (fun w a => D (s.current :: w) a) s.next) :
    (Parser.expect kind >>= f).Reads D s := by
  by_cases h : s.current.kind = kind
  · exact (advance_bind (h ▸ hk) (hfound h)).congr (outcome_expect_bind f h)
  · exact fail (Stops.expect_other h).bind_error hd

theorem operator?_bind {ω : Type} {ofKind? : Kind → Option ω} {f : Option ω → Parser α}
    (hk : ofKind? .eof = none)
    (hfound : ∀ op, ofKind? s.current.kind = some op →
      (f (some op)).Reads (fun w a => D (s.current :: w) a) s.next)
    (hother : ofKind? s.current.kind = none → (f none).Reads D s) :
    (Parser.operator? ofKind? >>= f).Reads D s := by
  cases h : ofKind? s.current.kind with
  | none => exact (hother h).congr (outcome_bind_ok (Stops.operator?_none h))
  | some op =>
      have hne := Kind.ne_eof_of_ofKind? hk h
      exact (advance_bind hne (hfound op h)).congr (outcome_operator?_bind f h)

theorem manyUpTo {item : Parser (Option α)} {D : List Token → Option α → Prop}
    {E : List Token → List α → Prop} (h : ∀ s, item.Reads D s) (hnil : E [] [])
    (hnone : ∀ w, D w none → E w [])
    (hcons : ∀ w v a as, D w (some a) → E v as → E (w ++ v) (a :: as)) (rounds : Nat) (s : Stream) :
    (Parser.manyUpTo item rounds).Reads E s := by
  induction rounds generalizing s with
  | zero => exact pure hnil
  | succ rounds ih =>
      refine bind (h s) (fun w a t _ _ hd => ?_) (fun w a hd => ?_)
      · cases a with
        | none => exact pure (by simpa using hnone w hd)
        | some a =>
            refine bind (ih t) (fun v as _ _ _ he => pure ?_) (fun v as he => ⟨[], a :: as, ?_⟩)
            · simpa using hcons w v a as hd he
            · simpa using hcons w v a as hd he
      · cases a with
        | none => exact ⟨[], [], by simpa using hnone w hd⟩
        | some a => exact ⟨[], [a], by simpa using hcons w [] a [] hd hnil⟩

theorem many {item : Parser (Option α)} {D : List Token → Option α → Prop}
    {E : List Token → List α → Prop} (h : ∀ s, item.Reads D s) (hnil : E [] [])
    (hnone : ∀ w, D w none → E w [])
    (hcons : ∀ w v a as, D w (some a) → E v as → E (w ++ v) (a :: as)) (s : Stream) :
    (Parser.many item).Reads E s :=
  (manyUpTo h hnil hnone hcons _ s).congr (outcome_many item s)

/-- A rule that keeps to the phrases as long as its own nested uses do, always does. -/
theorem unroll {rule : Parser α → Parser α} (hd : ∃ w a, D w a)
    (h : ∀ depth, (∀ s, Reads D (Parser.unroll rule depth) s) →
      ∀ s, (rule (Parser.unroll rule depth)).Reads D s) (depth : Nat) (s : Stream) :
    Reads D (Parser.unroll rule depth) s := by
  induction depth generalizing s with
  | zero => exact (unexpected hd).congr rfl
  | succ depth ih => exact (h depth ih s).congr rfl

theorem fix {rule : Parser α → Parser α} (hd : ∃ w a, D w a)
    (h : ∀ depth, (∀ s, Reads D (Parser.unroll rule depth) s) →
      ∀ s, (rule (Parser.unroll rule depth)).Reads D s) (s : Stream) :
    (Parser.fix rule).Reads D s :=
  (unroll hd h (s.ahead.length + 1) s).congr (outcome_fix rule s)

end Reads

end Parser

end IndentScript
