import IndentScript.Proofs.Acceptance
import IndentScript.Proofs.Determined

/-!
# One token of look-ahead

Programs are read from the tokens up to the one that reading is stopped by, and from no more of them
than the rules ask for: tokens behind that one can be exchanged at will, and the others for tokens
that are alike.
-/

namespace IndentScript

open Grammar IndentScript.Parser

/-! ## Streams that agree -/

namespace Stream

/-- A stream that begins with the given tokens has them in front of the next one. -/
theorem exists_prepend {s : Stream} {w v : List Token} {x : Token} (h : s.toList = w ++ x :: v) :
    ∃ u : Stream, s = u.prepend w ∧ u.current = x := by
  induction w generalizing s with
  | nil =>
      obtain ⟨rest, hrest⟩ := s.toList_eq_current_cons
      rw [hrest] at h
      exact ⟨s, rfl, (List.cons.inj h).1⟩
  | cons y w ih =>
      obtain ⟨ahead, last, hlast⟩ := s
      cases ahead with
      | nil => simp [toList] at h
      | cons t rest =>
          obtain ⟨rfl, htail⟩ := List.cons.inj h
          obtain ⟨u, hu, hx⟩ := ih (s := ⟨rest, last, hlast⟩) htail
          refine ⟨u, ?_, hx⟩
          calc (⟨t :: rest, last, hlast⟩ : Stream)
              = (⟨rest, last, hlast⟩ : Stream).prepend [t] := rfl
            _ = u.prepend (t :: w) := by rw [hu, prepend_prepend]; rfl

/-- The token in front of which a stream is cut is the one at that place of its list. -/
theorem getElem?_of_ofTokens {tokens w : List Token} {u : Stream}
    (hs : ofTokens tokens = u.prepend w) (hlt : w.length < tokens.length) :
    tokens[w.length]? = some u.current := by
  obtain ⟨t, ht, -⟩ := toList_ofTokens tokens
  obtain ⟨rest, hrest⟩ := u.toList_eq_current_cons
  calc tokens[w.length]? = (tokens ++ t)[w.length]? := (List.getElem?_append_left hlt).symm
    _ = (w ++ u.current :: rest)[w.length]? := by rw [← ht, hs, toList_prepend, hrest]
    _ = some u.current := by simp

theorem exists_prepend_ofTokens {tokens w : List Token} {x : Token} (hw : tokens.take w.length = w)
    (hx : tokens[w.length]? = some x) :
    ∃ u : Stream, ofTokens tokens = u.prepend w ∧ u.current = x := by
  obtain ⟨hlt, hget⟩ := List.getElem?_eq_some_iff.1 hx
  have hsplit : tokens = w ++ x :: tokens.drop (w.length + 1) := by
    calc tokens = tokens.take w.length ++ tokens.drop w.length := (List.take_append_drop _ _).symm
      _ = w ++ x :: tokens.drop (w.length + 1) := by rw [hw, List.drop_eq_getElem_cons hlt, hget]
  obtain ⟨t, ht, -⟩ := toList_ofTokens tokens
  have hlist : (ofTokens tokens).toList = w ++ x :: (tokens.drop (w.length + 1) ++ t) := by
    rw [ht]
    nth_rewrite 1 [hsplit]
    simp
  exact exists_prepend hlist

theorem toList_ofTokens_concat (front : List Token) (t : Token) :
    (ofTokens (front ++ [t])).toList =
      if t.kind = .eof then front ++ [t] else front ++ [t] ++ [missingEnd (front ++ [t])] := by
  rw [ofTokens]
  simp only [List.getLast?_concat]
  split
  · simp [toList]
  · rfl

/-- Of two lists of tokens that are alike, both lack an end token or neither does. -/
theorem alike_toList_ofTokens {tokens tokens' : List Token}
    (h : List.Forall₂ Token.Alike tokens tokens') :
    List.Forall₂ Token.Alike (ofTokens tokens).toList (ofTokens tokens').toList := by
  rcases List.eq_nil_or_concat' tokens with rfl | ⟨front, t, rfl⟩
  · cases h
    exact .cons (.refl _) .nil
  · obtain ⟨front', last', rfl, -, hlast⟩ := forall₂_append_left h
    obtain ⟨t', ht, rfl⟩ : ∃ t', t.Alike t' ∧ last' = [t'] := by
      cases hlast with
      | cons ht hnil =>
          cases hnil
          exact ⟨_, ht, rfl⟩
    have heof : t'.kind = .eof ↔ t.kind = .eof := ⟨ht.symm.kind_eq rfl, ht.kind_eq rfl⟩
    rw [toList_ofTokens_concat, toList_ofTokens_concat]
    simp only [heof]
    split
    · exact h
    · exact List.rel_append h (.cons ⟨rfl, nofun⟩ .nil)

/-- A stream of tokens that are alike can be cut at the same place. -/
theorem exists_prepend_of_alike {w : List Token} {u s : Stream}
    (h : List.Forall₂ Token.Alike (u.prepend w).toList s.toList) :
    ∃ (w' : List Token) (u' : Stream), s = u'.prepend w' ∧ List.Forall₂ Token.Alike w w' ∧
      u.current.Alike u'.current := by
  obtain ⟨v, hv⟩ := u.toList_eq_current_cons
  rw [toList_prepend, hv] at h
  obtain ⟨w', v', hs, hw, hrest⟩ := forall₂_append_left h
  cases hrest with
  | cons hx _ =>
      obtain ⟨u', hu', rfl⟩ := exists_prepend hs
      exact ⟨w', u', hu', hw, hx⟩

end Stream

theorem take_eq_of_agree {l l' : List Token} {n : Nat} (h : ∀ j < n, l'[j]? = l[j]?) :
    l'.take n = l.take n := by
  refine List.ext_getElem? fun j => ?_
  by_cases hj : j < n
  · rw [List.getElem?_take_of_lt hj, List.getElem?_take_of_lt hj, h j hj]
  · rw [List.getElem?_take_eq_none (by omega), List.getElem?_take_eq_none (by omega)]

/-- A list that agrees with another to its end and beyond is that list. -/
theorem eq_of_agree {l l' : List Token} {n : Nat} (h : ∀ j ≤ n, l'[j]? = l[j]?)
    (hn : l.length ≤ n) : l' = l := by
  have hend : l'[n]? = none := by rw [h n (Nat.le_refl n), List.getElem?_eq_none hn]
  have hle := List.getElem?_eq_none_iff.1 hend
  calc l' = l'.take (n + 1) := (List.take_of_length_le (by omega)).symm
    _ = l.take (n + 1) := take_eq_of_agree fun j hj => h j (by omega)
    _ = l := List.take_of_length_le (by omega)

/-! ## What is never looked at -/

namespace Program

/-- Of tokens that are alike equally many are passed, and reading stops in the same way. -/
theorem exists_stops_of_alike {tokens tokens' : List Token}
    (h : List.Forall₂ Token.Alike tokens tokens') :
    ∃ (w w' : List Token) (u u' : Stream) (v : Except Fault Program),
      Stream.ofTokens tokens = u.prepend w ∧ Stream.ofTokens tokens' = u'.prepend w' ∧
      w.length = w'.length ∧ u.current.Alike u'.current ∧
      program.Stops (u.prepend w) v u ∧ program.Stops (u'.prepend w') v u' := by
  obtain ⟨w, v, u, hs, hrun⟩ := determined_program (Stream.ofTokens tokens)
  have hstreams := Stream.alike_toList_ofTokens h
  rw [hs] at hstreams
  obtain ⟨w', u', hs', hw, hu⟩ := Stream.exists_prepend_of_alike hstreams
  exact ⟨w, w', u, u', v, hs, hs', hw.length_eq, hu,
    hrun w u (List.forall₂_refl w) (.refl u.current), hrun w' u' hw hu⟩

/-- Tokens that are alike make the same program. -/
theorem ofTokens_eq_ok_iff_of_alike {tokens tokens' : List Token}
    (h : List.Forall₂ Token.Alike tokens tokens') (p : Program) :
    ofTokens tokens = .ok p ↔ ofTokens tokens' = .ok p := by
  obtain ⟨w, w', u, u', v, hs, hs', -, -, hstop, hstop'⟩ := exists_stops_of_alike h
  rw [ofTokens_of_stops hs hstop, ofTokens_of_stops hs' hstop']
  cases v with
  | error fault => exact ⟨nofun, nofun⟩
  | ok q => exact Iff.rfl

theorem ofTokens_of_alike {w w' : List Token} {p : Program} (h : Sentences w p.statements)
    (hw : List.Forall₂ Token.Alike w w') {t : Token} (ht : t.kind = .eof) :
    ofTokens (w' ++ [t]) = .ok p := by
  have hend : ∀ u ∈ [t], u.kind = .eof := by simpa using ht
  have halike := ofTokens_eq_ok_iff_of_alike (List.rel_append hw (.cons (.refl t) .nil)) p
  exact halike.1 ((ofTokens_append_eq_ok_iff h.ne_eof hend p).2 h)

/-- Tokens that are alike are read alike: they make the same program, or reading fails for the same
fault, which is blamed in either list on the token at the same place. -/
theorem read_alike {tokens tokens' : List Token} (h : List.Forall₂ Token.Alike tokens tokens') :
    (∃ p, ofTokens tokens = .ok p ∧ ofTokens tokens' = .ok p) ∨
      ∃ (fault : Fault) (t t' : Token),
        ofTokens tokens = .error (fault.blame t) ∧ ofTokens tokens' = .error (fault.blame t') ∧
        (Stream.ofTokens tokens).toList[stoppedAt tokens]? = some t ∧
        (Stream.ofTokens tokens').toList[stoppedAt tokens']? = some t' ∧
        stoppedAt tokens = stoppedAt tokens' ∧ (fault = .number → t.text = t'.text) := by
  obtain ⟨w, w', u, u', v, hs, hs', hlength, hu, hstop, hstop'⟩ := exists_stops_of_alike h
  have hread := ofTokens_of_stops hs hstop
  have hread' := ofTokens_of_stops hs' hstop'
  cases v with
  | ok p => exact .inl ⟨p, hread, hread'⟩
  | error fault =>
      have hplace := stoppedAt_of_error hs hstop
      have hplace' := stoppedAt_of_error hs' hstop'
      refine .inr ⟨fault, u.current, u'.current, hread, hread', ?_, ?_, ?_, ?_⟩
      · rw [hplace, hs, Stream.getElem?_toList_prepend]
      · rw [hplace', hs', Stream.getElem?_toList_prepend]
      · rw [hplace, hplace', hlength]
      · rintro rfl
        obtain ⟨e, he⟩ := hstop.2
        exact hu.text (Token.hasText_of_operand?_error he)

/-- Spelt as a sign or as a word, a comparison lacks its right operand, and the end of either list
is blamed for it. -/
theorem read_alike_comparison :
    let tokens : List Token := [⟨.ident, "a", ⟨1, 1⟩⟩, ⟨.equal, "==", ⟨1, 3⟩⟩]
    let tokens' : List Token := [⟨.ident, "a", ⟨4, 2⟩⟩, ⟨.is, "is", ⟨7, 7⟩⟩]
    List.Forall₂ Token.Alike tokens tokens' ∧
      ofTokens tokens = .error (.unexpectedToken .eof "" ⟨1, 3⟩) ∧
      ∃ (fault : Fault) (t t' : Token),
        ofTokens tokens = .error (fault.blame t) ∧ ofTokens tokens' = .error (fault.blame t') ∧
        (Stream.ofTokens tokens).toList[stoppedAt tokens]? = some t ∧
        (Stream.ofTokens tokens').toList[stoppedAt tokens']? = some t' ∧
        stoppedAt tokens = stoppedAt tokens' ∧ (fault = .number → t.text = t'.text) := by
  intro tokens tokens'
  have halike : List.Forall₂ Token.Alike tokens tokens' :=
    .cons ⟨rfl, fun _ => rfl⟩ (.cons ⟨rfl, nofun⟩ .nil)
  have hfails : ofTokens tokens = .error (.unexpectedToken .eof "" ⟨1, 3⟩) := rfl
  refine ⟨halike, hfails, (read_alike halike).resolve_left ?_⟩
  rintro ⟨p, hp, -⟩
  cases hfails.symm.trans hp

/-- Two lists of tokens that agree up to where the first is stopped are read alike. -/
theorem ofTokens_eq_of_agree {tokens tokens' : List Token}
    (h : ∀ j ≤ stoppedAt tokens, tokens'[j]? = tokens[j]?) : ofTokens tokens' = ofTokens tokens := by
  obtain ⟨w, v, u, hs, hrun⟩ := determined_program (Stream.ofTokens tokens)
  have hself := hrun w u (List.forall₂_refl w) (.refl u.current)
  have hstop : stoppedAt tokens = w.length := by
    cases v with
    | ok p => exact stoppedAt_of_ok hs hself
    | error fault => exact stoppedAt_of_error hs hself
  rw [hstop] at h
  rcases Nat.lt_or_ge w.length tokens.length with hlt | hge
  · have htake : tokens'.take w.length = w := by
      rw [take_eq_of_agree fun j hj => h j (Nat.le_of_lt hj), take_length hs]
    have hget : tokens'[w.length]? = some u.current := by
      rw [h _ (Nat.le_refl _), Stream.getElem?_of_ofTokens hs hlt]
    obtain ⟨u', hs', hu'⟩ := Stream.exists_prepend_ofTokens htake hget
    have hrun' := hrun w u' (List.forall₂_refl w) (hu' ▸ .refl u'.current)
    rw [ofTokens, ofTokens, hs, hs']
    cases v with
    | ok p => rw [show program.outcome _ = _ from hself, show program.outcome _ = _ from hrun']
    | error fault => rw [hself.1, hrun'.1, hu']
  · -- The first list is used up, so the second is the same list.
    rw [eq_of_agree h hge]

/-- Once `let` is not followed by a name, it makes no difference that the source goes on. -/
theorem ofTokens_eq_of_agree_twoLets :
    let t : Token := ⟨.letWord, "let", ⟨1, 1⟩⟩
    let e : Token := ⟨.eof, "", ⟨2, 1⟩⟩
    (∀ j ≤ stoppedAt [t, t, e], [t, t, t, e][j]? = [t, t, e][j]?) ∧
      ofTokens [t, t, t, e] = ofTokens [t, t, e] := by
  intro t e
  have hagree : ∀ j ≤ stoppedAt [t, t, e], [t, t, t, e][j]? = [t, t, e][j]? := by
    have hstop : stoppedAt [t, t, e] = 1 := rfl
    intro j hj
    rw [hstop] at hj
    match j, hj with
    | 0, _ => rfl
    | 1, _ => rfl
  exact ⟨hagree, ofTokens_eq_of_agree hagree⟩

end Program

end IndentScript
