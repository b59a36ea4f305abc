import IndentScript.Parser.Session
import IndentScript.Proofs.Completeness
import Mathlib.Data.List.TakeWhile

/-!
# The accepted programs

A list of tokens is read as a program exactly if the tokens before its first end token derive that
program. If reading fails, the tokens before the blamed one can be gone on with: they begin the
tokens of some program, so no token is passed that rules out every program.
-/

namespace IndentScript

open Grammar IndentScript.Parser

namespace Stream

/-- What is added to a list to make it a stream consists of end tokens. -/
theorem toList_ofTokens (tokens : List Token) :
    ∃ v, (ofTokens tokens).toList = tokens ++ v ∧ ∀ t ∈ v, t.kind = .eof := by
  rw [ofTokens]
  split
  · next hnone =>
    rw [List.getLast?_eq_none_iff] at hnone
    exact ⟨[missingEnd tokens], by simp [toList, hnone], by simp [missingEnd]⟩
  · next t hlast =>
    split
    · obtain ⟨front, rfl⟩ := List.getLast?_eq_some_iff.1 hlast
      exact ⟨[], by simp [toList], by simp⟩
    · exact ⟨[missingEnd tokens], rfl, by simp [missingEnd]⟩

theorem ahead_ofTokens_prefix (tokens : List Token) : (ofTokens tokens).ahead <+: tokens := by
  rw [ofTokens]
  split
  · exact List.nil_prefix
  · split
    · exact tokens.dropLast_prefix
    · exact List.prefix_rfl

/-- A stream holds the tokens before its first end token, and then that token. -/
theorem exists_eof (s : Stream) :
    ∃ (w : List Token) (u : Stream), s = u.prepend w ∧ u.current.kind = .eof ∧
      ∀ t ∈ w, t.kind ≠ .eof := by
  obtain ⟨ahead, last, hlast⟩ := s
  induction ahead with
  | nil => exact ⟨[], ⟨[], last, hlast⟩, rfl, hlast, by simp⟩
  | cons t rest ih =>
      by_cases ht : t.kind = .eof
      · exact ⟨[], ⟨t :: rest, last, hlast⟩, rfl, ht, by simp⟩
      · obtain ⟨w, u, hs, hu, hw⟩ := ih
        have hcons : (⟨t :: rest, last, hlast⟩ : Stream) = u.prepend (t :: w) := by
          rw [show t :: w = [t] ++ w from rfl, ← prepend_prepend, ← hs]
          rfl
        exact ⟨t :: w, u, hcons, hu, by simpa [ht] using hw⟩

theorem takeWhile_append_eof {v : List Token} (hv : ∀ t ∈ v, t.kind = .eof) (w : List Token) :
    (w ++ v).takeWhile (fun t => t.kind ≠ .eof) = w.takeWhile (fun t => t.kind ≠ .eof) := by
  induction w with
  | nil =>
      cases v with
      | nil => rfl
      | cons t v => simp [hv t (by simp)]
  | cons t w ih => simp only [List.cons_append, List.takeWhile_cons, ih]

/-- The tokens before the first end token, as a list of their own. -/
theorem takeWhile_ofTokens {tokens w : List Token} {u : Stream} (hs : ofTokens tokens = u.prepend w)
    (hu : u.current.kind = .eof) (hw : ∀ t ∈ w, t.kind ≠ .eof) :
    tokens.takeWhile (fun t => t.kind ≠ .eof) = w := by
  obtain ⟨v, htokens, hv⟩ := toList_ofTokens tokens
  obtain ⟨rest, hrest⟩ := u.toList_eq_current_cons
  have hw' : ∀ t ∈ w, decide (t.kind ≠ .eof) = true := by simpa using hw
  calc tokens.takeWhile (fun t => t.kind ≠ .eof)
      = (tokens ++ v).takeWhile (fun t => t.kind ≠ .eof) := (takeWhile_append_eof hv tokens).symm
    _ = (w ++ u.current :: rest).takeWhile (fun t => t.kind ≠ .eof) := by
        rw [← htokens, hs, toList_prepend, hrest]
    _ = w := by
        rw [List.takeWhile_append_of_pos hw', List.takeWhile_cons]
        simp [hu]

theorem findIdx_ofTokens {tokens w : List Token} {u : Stream} (hs : ofTokens tokens = u.prepend w)
    (hu : u.current.kind = .eof) (hw : ∀ t ∈ w, t.kind ≠ .eof) :
    tokens.findIdx (fun t => t.kind = .eof) = w.length := by
  have hle : tokens.findIdx (fun t => t.kind = .eof) ≤ tokens.length := List.findIdx_le_length
  have htake : tokens.takeWhile (fun t => t.kind ≠ .eof) =
      tokens.take (tokens.findIdx fun t => t.kind = .eof) := by
    simp [List.takeWhile_eq_take_findIdx_not]
  rw [takeWhile_ofTokens hs hu hw] at htake
  rw [htake, List.length_take]
  exact (Nat.min_eq_left hle).symm

end Stream

/-! ## Soundness and completeness -/

namespace Program

/-- A program that is read stands before the first end token. -/
theorem sentences_of_ofTokens {tokens : List Token} {p : Program} (h : ofTokens tokens = .ok p) :
    ∃ w u, Stream.ofTokens tokens = u.prepend w ∧ u.current.kind = .eof ∧
      program.outcome (Stream.ofTokens tokens) = (.ok p, u) ∧ Sentences w p.statements := by
  rcases hrun : program.outcome (Stream.ofTokens tokens) with ⟨r, u⟩
  obtain rfl : r = .ok p := by simpa [ofTokens, hrun] using h
  obtain ⟨w, hs, hw⟩ := (Reads.program _).of_ok hrun
  obtain ⟨body, t, hbody, hrest⟩ := outcome_bind_eq_ok hrun
  cases hrest
  exact ⟨w, u, hs, statementsUntil_ends Reads.statement hbody, rfl, hw⟩

theorem stops_program {w : List Token} {p : Program} (h : Sentences w p.statements) {u : Stream}
    (hu : u.current.kind = .eof) : program.Stops (u.prepend w) (.ok p) u := by
  have hend : u.current.kind.continuesSentence = false := by rw [hu]; rfl
  have hbody := stops_statementsUntil rfl h hend (stops_statementsUntil_stop hu)
  rw [Except.map, List.append_nil] at hbody
  exact hbody.map

/-- A program that stands before the first end token is read. -/
theorem ofTokens_of_sentences {tokens : List Token} {p : Program}
    (h : Sentences (tokens.takeWhile fun t => t.kind ≠ .eof) p.statements) :
    ofTokens tokens = .ok p := by
  obtain ⟨w, u, hs, hu, hw⟩ := (Stream.ofTokens tokens).exists_eof
  rw [Stream.takeWhile_ofTokens hs hu hw] at h
  have hrun : program.outcome (u.prepend w) = (.ok p, u) := stops_program h hu
  rw [ofTokens, hs, hrun]

/-- Reading answers with a program exactly if the tokens before the first end token derive it. -/
theorem ofTokens_eq_ok_iff (tokens : List Token) (p : Program) :
    ofTokens tokens = .ok p ↔
      Sentences (tokens.takeWhile fun t => t.kind ≠ .eof) p.statements := by
  constructor
  · intro h
    obtain ⟨w, u, hs, hu, -, hw⟩ := sentences_of_ofTokens h
    rwa [Stream.takeWhile_ofTokens hs hu hw.ne_eof]
  · exact ofTokens_of_sentences

/-- End tokens behind the tokens of a program make no difference. -/
theorem ofTokens_append_eq_ok_iff {w v : List Token} (hw : ∀ t ∈ w, t.kind ≠ .eof)
    (hv : ∀ t ∈ v, t.kind = .eof) (p : Program) :
    ofTokens (w ++ v) = .ok p ↔ Sentences w p.statements := by
  have htokens : (w ++ v).takeWhile (fun t => t.kind ≠ .eof) = w := by
    rw [Stream.takeWhile_append_eof hv, List.takeWhile_eq_self_iff]
    simpa using hw
  constructor
  · intro h
    obtain ⟨x, u, hs, hu, -, hx⟩ := sentences_of_ofTokens h
    rwa [← htokens, Stream.takeWhile_ofTokens hs hu hx.ne_eof]
  · intro h
    exact ofTokens_of_sentences (htokens.symm ▸ h)

/-! ## Viable prefixes -/

/-- How many of the tokens reading passes. -/
def cursor (tokens : List Token) : Nat :=
  (Stream.ofTokens tokens).passed 1

/-- Where the token stands that reading is stopped by. A program goes up to the first end token; a
token is blamed under the cursor, except that a number is passed before it is judged. -/
def stoppedAt (tokens : List Token) : Nat :=
  match ofTokens tokens with
  | .ok _ => tokens.findIdx fun t => t.kind = .eof
  | .error (.invalidNumberLiteral _ _) => cursor tokens - 1
  | .error _ => cursor tokens

/-- Reading ends as its run does; a fault is blamed on the token that the run stops at. -/
theorem ofTokens_of_stops {tokens w : List Token} {v : Except Fault Program} {u : Stream}
    (hs : Stream.ofTokens tokens = u.prepend w) (hstop : program.Stops (u.prepend w) v u) :
    ofTokens tokens = v.mapError fun fault => fault.blame u.current := by
  rw [ofTokens, hs]
  cases v with
  | ok p => rw [show program.outcome (u.prepend w) = (.ok p, u) from hstop]; rfl
  | error fault => rw [hstop.1]; rfl

theorem stoppedAt_of_ok {tokens w : List Token} {p : Program} {u : Stream}
    (hs : Stream.ofTokens tokens = u.prepend w)
    (hstop : program.Stops (u.prepend w) (.ok p) u) : stoppedAt tokens = w.length := by
  have hrun : program.outcome (Stream.ofTokens tokens) = (.ok p, u) := hs ▸ hstop
  have hok : ofTokens tokens = .ok p := by rw [ofTokens, hrun]
  obtain ⟨x, t, hs', ht, hrun', hx⟩ := sentences_of_ofTokens hok
  cases hrun.symm.trans hrun'
  have hwx : w = x := List.append_cancel_right (congrArg Stream.ahead (hs.symm.trans hs'))
  simp only [stoppedAt, hok]
  rw [Stream.findIdx_ofTokens hs' ht hx.ne_eof, hwx]

theorem stoppedAt_of_error {tokens w : List Token} {fault : Fault} {u : Stream}
    (hs : Stream.ofTokens tokens = u.prepend w)
    (hstop : program.Stops (u.prepend w) (.error fault) u) : stoppedAt tokens = w.length := by
  obtain ⟨hrun, happlies⟩ := hstop
  simp only [stoppedAt, ofTokens, cursor, Stream.passed, Stream.after, Stream.readProgram, hs, hrun]
  cases fault with
  | unexpected | expected | target => simp [Fault.blame, Fault.leaves]
  | number =>
      obtain ⟨e, he⟩ := happlies
      have hlt := Stream.length_next_lt (Token.kind_ne_eof_of_operand? he)
      have hnext : u.next.ahead.length + 1 = u.ahead.length := by
        simp only [Stream.next, List.length_tail] at hlt ⊢
        omega
      simp only [Fault.blame, Fault.leaves, Stream.length_ahead_prepend]
      omega

theorem take_length {tokens w : List Token} {u : Stream}
    (hs : Stream.ofTokens tokens = u.prepend w) : tokens.take w.length = w := by
  have hprefix : w <+: tokens := by
    have hahead := Stream.ahead_ofTokens_prefix tokens
    rw [hs] at hahead
    exact (List.prefix_append w u.ahead).trans hahead
  exact (List.prefix_iff_eq_take.1 hprefix).symm

/-- The error of a failed reading blames the token that it is stopped by. -/
theorem error_blames {tokens : List Token} {e : ParseError} (h : ofTokens tokens = .error e) :
    ∃ t, ∃ fault : Fault, (Stream.ofTokens tokens).toList[stoppedAt tokens]? = some t ∧
      e = fault.blame t ∧ fault.AppliesTo t := by
  rcases hrun : program.outcome (Stream.ofTokens tokens) with ⟨r, t⟩
  obtain rfl : r = .error e := by simpa [ofTokens, hrun] using h
  obtain ⟨w, fault, u, hs, rfl, rfl, happlies, -⟩ := (Reads.program _).of_error hrun
  refine ⟨u.current, fault, ?_, rfl, happlies⟩
  rw [stoppedAt_of_error hs ⟨hs ▸ hrun, happlies⟩, hs, Stream.getElem?_toList_prepend]

/-- The tokens that a failed reading passes begin a program. -/
theorem exists_completion {tokens : List Token} {e : ParseError} (h : ofTokens tokens = .error e) :
    ∃ rest p, ofTokens (tokens.take (stoppedAt tokens) ++ rest) = .ok p := by
  rcases hrun : program.outcome (Stream.ofTokens tokens) with ⟨r, t⟩
  obtain rfl : r = .error e := by simpa [ofTokens, hrun] using h
  obtain ⟨w, fault, u, hs, rfl, rfl, happlies, rest, p, hp⟩ := (Reads.program _).of_error hrun
  refine ⟨rest, p, ofTokens_of_sentences ?_⟩
  have hall : (w ++ rest).takeWhile (fun t => t.kind ≠ .eof) = w ++ rest :=
    List.takeWhile_eq_self_iff.2 (by simpa using hp.ne_eof)
  rw [stoppedAt_of_error hs ⟨hs ▸ hrun, happlies⟩, take_length hs, hall]
  exact hp

/-- In `if ( a + then` the group and the conditional are open when the sum lacks an operand. -/
theorem exists_completion_openGroup :
    let tokens : List Token := [⟨.ifWord, "if", ⟨1, 1⟩⟩, ⟨.leftParen, "(", ⟨1, 4⟩⟩,
      ⟨.ident, "a", ⟨1, 6⟩⟩, ⟨.plus, "+", ⟨1, 8⟩⟩, ⟨.thenWord, "then", ⟨1, 10⟩⟩]
    ofTokens tokens = .error (.unexpectedToken .thenWord "then" ⟨1, 10⟩) ∧
      ∃ rest p, ofTokens (tokens.take (stoppedAt tokens) ++ rest) = .ok p := by
  intro tokens
  have hfails : ofTokens tokens = .error (.unexpectedToken .thenWord "then" ⟨1, 10⟩) := rfl
  exact ⟨hfails, exists_completion hfails⟩

end Program

end IndentScript
