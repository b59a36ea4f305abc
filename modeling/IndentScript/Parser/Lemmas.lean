import IndentScript.Parser.Basic

/-!
# What the basic parsers do

Each operation is characterised by its outcome on a stream: the value or the error, and the stream
it leaves. Two parsers with the same outcomes are the same parser.
-/

namespace IndentScript

/-- Operators are not spelt by end tokens. -/
theorem Kind.ne_eof_of_ofKind? {ω : Type} {ofKind? : Kind → Option ω} (heof : ofKind? .eof = none)
    {k : Kind} {op : ω} (h : ofKind? k = some op) : k ≠ .eof := by
  rintro rfl
  simp [heof] at h

namespace Stream

/-- A stream whose current token is not an end token has tokens ahead. -/
theorem ahead_ne_nil {s : Stream} (h : s.current.kind ≠ .eof) : s.ahead ≠ [] := by
  intro hnil
  apply h
  simp [current, hnil, s.last_kind]

theorem length_next_le (s : Stream) : s.next.ahead.length ≤ s.ahead.length := by
  simp [next]

theorem length_next_lt {s : Stream} (h : s.current.kind ≠ .eof) :
    s.next.ahead.length < s.ahead.length := by
  have hpos := List.length_pos_iff.2 (ahead_ne_nil h)
  simp only [next, List.length_tail]
  omega

/-- The stream with the given tokens in front. -/
def prepend (w : List Token) (s : Stream) : Stream :=
  { s with ahead := w ++ s.ahead }

@[simp] theorem prepend_prepend (w v : List Token) (s : Stream) :
    (s.prepend v).prepend w = s.prepend (w ++ v) := by
  simp [prepend]

@[simp] theorem current_prepend_cons (x : Token) (w : List Token) (s : Stream) :
    (s.prepend (x :: w)).current = x := rfl

@[simp] theorem toList_prepend (w : List Token) (s : Stream) :
    (s.prepend w).toList = w ++ s.toList := by
  simp [prepend, toList]

@[simp] theorem length_ahead_prepend (w : List Token) (s : Stream) :
    (s.prepend w).ahead.length = w.length + s.ahead.length := by
  simp [prepend]

/-- A token that is not an end token can be taken off the stream. -/
theorem eq_prepend_current {s : Stream} (h : s.current.kind ≠ .eof) :
    s = s.next.prepend [s.current] := by
  obtain ⟨ahead, last, hlast⟩ := s
  cases ahead with
  | nil => exact absurd hlast h
  | cons t rest => rfl

theorem toList_eq_current_cons (s : Stream) : ∃ v, s.toList = s.current :: v := by
  obtain ⟨ahead, last, hlast⟩ := s
  cases ahead with
  | nil => exact ⟨[], rfl⟩
  | cons t rest => exact ⟨rest ++ [last], rfl⟩

theorem getElem?_toList_prepend (w : List Token) (s : Stream) :
    (s.prepend w).toList[w.length]? = some s.current := by
  obtain ⟨v, hv⟩ := s.toList_eq_current_cons
  rw [toList_prepend, hv]
  simp

theorem exists_prepend_next (s : Stream) : ∃ w, s = s.next.prepend w := by
  obtain ⟨ahead, last, hlast⟩ := s
  cases ahead with
  | nil => exact ⟨[], rfl⟩
  | cons t rest => exact ⟨[t], rfl⟩

end Stream

namespace Parser

variable {α β : Type}

theorem ext_outcome {p q : Parser α} (h : ∀ s, p.outcome s = q.outcome s) : p = q :=
  funext h

@[simp] theorem outcome_pure (a : α) (s : Stream) : (pure a : Parser α).outcome s = (.ok a, s) :=
  rfl

@[simp] theorem outcome_throw (e : ParseError) (s : Stream) :
    (throw e : Parser α).outcome s = (.error e, s) :=
  rfl

theorem outcome_bind (p : Parser α) (f : α → Parser β) (s : Stream) :
    (p >>= f).outcome s =
      match p.outcome s with
      | (.ok a, t) => (f a).outcome t
      | (.error e, t) => (.error e, t) := by
  rcases h : p.outcome s with ⟨e | a, t⟩
  all_goals
    have h : p s = _ := h
    show ExceptT.bind p f s = _
    simp only [ExceptT.bind, ExceptT.mk, bind, StateT.bind, h]
    rfl

theorem outcome_bind_ok {p : Parser α} {f : α → Parser β} {s t : Stream} {a : α}
    (h : p.outcome s = (.ok a, t)) : (p >>= f).outcome s = (f a).outcome t := by
  rw [outcome_bind, h]

theorem outcome_bind_error {p : Parser α} {f : α → Parser β} {s t : Stream} {e : ParseError}
    (h : p.outcome s = (.error e, t)) : (p >>= f).outcome s = (.error e, t) := by
  rw [outcome_bind, h]

@[simp] theorem outcome_peek (s : Stream) : peek.outcome s = (.ok s.current, s) := rfl

@[simp] theorem outcome_advance (s : Stream) : advance.outcome s = (.ok (), s.next) := rfl

@[simp] theorem outcome_unexpected (s : Stream) :
    (unexpected : Parser α).outcome s =
      (.error (.unexpectedToken s.current.kind s.current.text s.current.location), s) :=
  rfl

theorem outcome_accept (kind : Kind) (s : Stream) :
    (accept kind).outcome s =
      if s.current.kind = kind then (.ok true, s.next) else (.ok false, s) := by
  rw [accept, outcome_bind_ok (outcome_peek s)]
  split <;> rfl

theorem outcome_expect (kind : Kind) (s : Stream) :
    (expect kind).outcome s =
      if s.current.kind = kind then (.ok s.current, s.next)
      else (.error (.expectedToken kind s.current.kind s.current.location), s) := by
  rw [expect, outcome_bind_ok (outcome_peek s)]
  split <;> rfl

theorem outcome_operator? {ω : Type} (ofKind? : Kind → Option ω) (s : Stream) :
    (operator? ofKind?).outcome s =
      match ofKind? s.current.kind with
      | some op => (.ok (some op), s.next)
      | none => (.ok none, s) := by
  rw [operator?, outcome_bind_ok (outcome_peek s)]
  rcases h : ofKind? s.current.kind with _ | op
  · simp
  · rw [outcome_bind_ok (outcome_advance s)]
    rfl

theorem outcome_manyUpTo_succ (item : Parser (Option α)) (rounds : Nat) (s : Stream) :
    (manyUpTo item (rounds + 1)).outcome s =
      match item.outcome s with
      | (.ok (some a), t) =>
        match (manyUpTo item rounds).outcome t with
        | (.ok as, u) => (.ok (a :: as), u)
        | (.error e, u) => (.error e, u)
      | (.ok none, t) => (.ok [], t)
      | (.error e, t) => (.error e, t) := by
  rw [manyUpTo, outcome_bind]
  rcases item.outcome s with ⟨e | (_ | a), t⟩
  · rfl
  · rfl
  · simp only [outcome_bind]
    rcases (manyUpTo item rounds).outcome t with ⟨e | as, u⟩ <;> rfl

theorem outcome_many (item : Parser (Option α)) (s : Stream) :
    (many item).outcome s = (manyUpTo item (s.ahead.length + 1)).outcome s :=
  rfl

theorem outcome_fix (rule : Parser α → Parser α) (s : Stream) :
    (fix rule).outcome s = unroll rule (s.ahead.length + 1) s :=
  rfl

end Parser

end IndentScript
