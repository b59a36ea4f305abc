import IndentScript.Proofs.Rounds

/-!
# Parsers find every phrase

A phrase in front of a token that cannot go on with it is read to its end, and the tree that the
parser builds is the one that the phrase derives. The parsers look at one token only, so what has to
be shown is that this token always decides: an operator ends its left operand, and what starts an
operand or a statement never goes on with what stands before it.
-/

namespace IndentScript.Parser

open Grammar

/-- What a chain of operators does once the operands so far are grouped into one. -/
def chainAfter (l : BinaryOp.Level) (left : Expr) : Parser Expr :=
  many (tail? (BinaryOp.ofKindAt? l) (atLevel expression (Level.ofBinary l).operand)) >>=
    fun tails => pure (tails.foldl (fun left t => Expr.binary t.1 left t.2) left)

/-! ## Operators and their operands -/

namespace Stops

variable {ω : Type} {ofKind? : Kind → Option ω} {node : ω → Expr → Expr → Expr}
  {operand : Parser Expr} {t u : Stream} {op : ω} {e r : Expr}

theorem tail? {x : Token} (hop : ofKind? x.kind = some op) {v : List Token}
    (h : operand.Stops (t.prepend v) (.ok r) t) :
    (Parser.tail? ofKind? operand).Stops (t.prepend (x :: v)) (.ok (some (op, r))) t :=
  bind (operator? (s := t.prepend (x :: v)) hop) (bind h (pure _ t))

theorem tail?_none (hop : ofKind? t.current.kind = none) :
    (Parser.tail? ofKind? operand).Stops t (.ok none) t :=
  bind (operator?_none hop) (pure none t)

theorem single_pair {s : Stream} (hl : operand.Stops s (.ok e) t)
    (htail : (Parser.tail? ofKind? operand).Stops t (.ok (some (op, r))) u) :
    (Parser.single ofKind? node operand).Stops s (.ok (node op e r)) u :=
  bind hl (bind htail (pure _ u))

theorem single_operand {s : Stream} (hl : operand.Stops s (.ok e) t)
    (hop : ofKind? t.current.kind = none) :
    (Parser.single ofKind? node operand).Stops s (.ok e) t :=
  bind hl (bind (tail?_none hop) (pure e t))

theorem chainAfter_end {l : BinaryOp.Level} (hop : BinaryOp.ofKindAt? l t.current.kind = none) :
    (chainAfter l e).Stops t (.ok e) t :=
  bind (many_nil (tail?_none hop)) (pure e t)

/-- A tail is grouped with what stands before it, and the chain goes on. -/
theorem chainAfter_tail {l : BinaryOp.Level} {s : Stream} {op : BinaryOp} {v : Except Fault Expr}
    (htail : (Parser.tail? (BinaryOp.ofKindAt? l)
      (atLevel expression (Level.ofBinary l).operand)).Stops s (.ok (some (op, r))) t)
    (hrest : (chainAfter l (.binary op e r)).Stops t v u) : (chainAfter l e).Stops s v u := by
  have hreads := Reads.atLevel Reads.expression (Level.ofBinary l).operand
  have hprogress := progresses_tail? (Level.node?_ofBinary l) hreads
  refine hrest.congr ?_
  have hrun : (Parser.tail? _ _).outcome s = (.ok (some (op, r)), t) := htail
  simp only [chainAfter, outcome_bind, outcome_many_step hprogress s, hrun]
  rcases (many _).outcome t with ⟨e | tails, u⟩ <;> rfl

end Stops

/-! ## Expressions -/

/-- The tokens `w` are read as `e` in front of whatever cannot go on with them. At a level of chains
reading goes on after them as after a left operand. -/
structure Completes (level : Level) (w : List Token) (e : Expr) : Prop where
  stops : ∀ t, level.continues t.current.kind = false →
    (atLevel expression level).Stops (t.prepend w) (.ok e) t
  goesOn : ∀ l t v u, level = Level.ofBinary l → level.chains = true →
    level.operand.continues t.current.kind = false → (chainAfter l e).Stops t v u →
    (atLevel expression level).Stops (t.prepend w) v u

namespace Completes

variable {level : Level} {w v : List Token} {e l r : Expr}

theorem of_stops (hlevel : level.chains = false)
    (h : ∀ t, level.continues t.current.kind = false →
      (atLevel expression level).Stops (t.prepend w) (.ok e) t) : Completes level w e :=
  ⟨h, fun _ _ _ _ _ hchains => by simp [hlevel] at hchains⟩

/-- A chain that is read on can also be left at its end. -/
theorem of_goesOn {l : BinaryOp.Level} (hlevel : (Level.ofBinary l).chains = true)
    (h : ∀ t v u, (Level.ofBinary l).operand.continues t.current.kind = false →
      (chainAfter l e).Stops t v u →
      (atLevel expression (Level.ofBinary l)).Stops (t.prepend w) v u) :
    Completes (Level.ofBinary l) w e := by
  refine ⟨fun t ht => ?_, fun l' t v u hl _ ht hafter => ?_⟩
  · have hnode := Level.node?_of_continues ht
    rw [Level.node?_ofBinary, Option.map_eq_none_iff] at hnode
    exact h t _ t (Level.operand_continues ht) (Stops.chainAfter_end hnode)
  · have : l = l' := by cases l <;> cases l' <;> first | rfl | cases hl
    subst this
    exact h t v u ht hafter

theorem terminal {x : Token} (hx : Terminal x e) : Completes .primary [x] e := by
  refine of_stops rfl fun t _ => ?_
  have hop : (t.prepend [x]).current.operand? = some (.ok e) := Token.operand?_eq_ok_iff.2 hx
  refine Stops.congr (outcome_peek_bind _ _) ?_
  simp only [hop]
  exact Stops.congr (outcome_advance_bind _ _) (Stops.pure e t)

theorem group {x y : Token} (hx : x.kind = .leftParen) (hy : y.kind = .rightParen)
    (h : Completes .assignment w e) : Completes .primary (x :: (w ++ [y])) (.group e) := by
  refine of_stops rfl fun t _ => ?_
  have hop : x.operand? = none := by simp [Token.operand?, hx]
  have hinner : expression.Stops (t.prepend (w ++ [y])) (.ok e) (t.prepend [y]) := by
    have := h.stops (t.prepend [y]) (by simp [hy, Level.continues, Kind.level?])
    simpa [atLevel] using this
  refine Stops.congr (outcome_peek_bind _ _) ?_
  simp only [Stream.current_prepend_cons, hop]
  refine Stops.bind (Stops.accept hx) ?_
  exact Stops.bind hinner (Stops.bind (Stops.expect hy) (Stops.pure _ t))

/-! Levels whose operators stand at most once. -/

section

variable {ω : Type} {ofKind? : Kind → Option ω} {node : ω → Expr → Expr → Expr}

theorem tighter_single (hlevel : level.chains = false)
    (hat : atLevel expression level = Parser.single ofKind? node (atLevel expression level.operand))
    (hnode : ∀ k, level.node? k = (ofKind? k).map node) (h : Completes level.operand w e) :
    Completes level w e := by
  refine of_stops hlevel fun t ht => ?_
  have hop : ofKind? t.current.kind = none := by
    simpa [hnode] using Level.node?_of_continues ht
  rw [hat]
  exact .single_operand (h.stops t (Level.operand_continues ht)) hop

theorem pair_single (hlevel : level.chains = false)
    (hat : atLevel expression level = Parser.single ofKind? node (atLevel expression level.operand))
    (hnode : ∀ k, level.node? k = (ofKind? k).map node) {x : Token} {f : Expr → Expr → Expr}
    (hx : level.node? x.kind = some f) (hl : Completes level.operand w l)
    (hr : Completes level.operand v r) : Completes level (w ++ x :: v) (f l r) := by
  refine of_stops hlevel fun t ht => ?_
  rw [hnode, Option.map_eq_some_iff] at hx
  obtain ⟨op, hop, rfl⟩ := hx
  have hleft := hl.stops (t.prepend (x :: v))
    (Level.operand_continues_of_node? (k := x.kind) (by rw [hnode, hop]; rfl))
  rw [Stream.prepend_prepend] at hleft
  rw [hat]
  exact .single_pair hleft (.tail? hop (hr.stops t (Level.operand_continues ht)))

end

/-- A phrase of the next tighter level, with no operator after it. -/
theorem tighter (h : Completes level.operand w e) : Completes level w e := by
  cases level with
  | primary => exact h
  | multiplicative =>
      exact of_goesOn (l := .multiplicative) rfl fun t v u ht hafter => .bind (h.stops t ht) hafter
  | additive =>
      exact of_goesOn (l := .additive) rfl fun t v u ht hafter => .bind (h.stops t ht) hafter
  | relational => exact tighter_single rfl rfl (Level.node?_ofBinary .relational) h
  | equality => exact tighter_single rfl rfl (Level.node?_ofBinary .equality) h
  | conjunction => exact tighter_single rfl rfl (Level.node?_ofLogical .and) h
  | disjunction => exact tighter_single rfl rfl (Level.node?_ofLogical .or) h
  | assignment =>
      refine of_stops rfl fun t ht => ?_
      have hop : AssignOp.ofKind? t.current.kind = none := by
        revert ht
        cases t.current.kind <;> simp [Level.continues, Kind.level?, Level.rank, AssignOp.ofKind?]
      rw [atLevel, expression_eq]
      refine .bind (h.stops t (Level.operand_continues ht)) (Stops.congr (outcome_peek_bind _ _) ?_)
      simp only [hop]
      exact .pure e t

theorem pair {x : Token} {node : Expr → Expr → Expr} (hlevel : level.chains = false)
    (hx : level.node? x.kind = some node) (hl : Completes level.operand w l)
    (hr : Completes level.operand v r) : Completes level (w ++ x :: v) (node l r) := by
  cases level with
  | relational => exact pair_single rfl rfl (Level.node?_ofBinary .relational) hx hl hr
  | equality => exact pair_single rfl rfl (Level.node?_ofBinary .equality) hx hl hr
  | conjunction => exact pair_single rfl rfl (Level.node?_ofLogical .and) hx hl hr
  | disjunction => exact pair_single rfl rfl (Level.node?_ofLogical .or) hx hl hr
  | multiplicative | additive => cases hlevel
  | primary | assignment => simp [Level.node?] at hx

/-- A longer chain is read on from the shorter one at its left. -/
theorem chain {b : BinaryOp.Level} {x : Token} {node : Expr → Expr → Expr}
    (hlevel : (Level.ofBinary b).chains = true)
    (hx : (Level.ofBinary b).node? x.kind = some node) (hl : Completes (Level.ofBinary b) w l)
    (hr : Completes (Level.ofBinary b).operand v r) :
    Completes (Level.ofBinary b) (w ++ x :: v) (node l r) := by
  refine of_goesOn hlevel fun t verdict u ht hafter => ?_
  have hend := Level.operand_continues_of_node? hx
  rw [Level.node?_ofBinary, Option.map_eq_some_iff] at hx
  obtain ⟨op, hop, rfl⟩ := hx
  have htail := Stops.chainAfter_tail (.tail? hop (hr.stops t ht)) hafter
  have hwhole := hl.goesOn b (t.prepend (x :: v)) verdict u rfl hlevel hend htail
  rwa [Stream.prepend_prepend] at hwhole

theorem assign {x y : Token} {op : AssignOp} (hx : x.kind = .ident)
    (hop : assignment? y.kind = some op) (h : Completes .assignment w e) :
    Completes .assignment (x :: y :: w) (.assign op x.text e) := by
  have hname : Completes .disjunction [x] (.ident x.text) :=
    tighter (tighter (tighter (tighter (tighter (tighter (terminal (.ident hx)))))))
  refine of_stops rfl fun t ht => ?_
  have hend : Level.disjunction.continues y.kind = false := by
    revert hop
    cases y.kind <;> simp [Level.continues, Kind.level?, Level.rank, assignment?]
  have hleft := hname.stops (t.prepend (y :: w)) hend
  rw [Stream.prepend_prepend] at hleft
  rw [atLevel, expression_eq]
  refine .bind hleft (Stops.congr (outcome_peek_bind _ _) ?_)
  rw [assignment?_eq] at hop
  simp only [Stream.current_prepend_cons, hop]
  exact Stops.congr (outcome_advance_bind _ _) (.bind (h.stops t ht) (.pure _ t))

end Completes

theorem completes {level : Level} {w : List Token} {e : Expr} (h : Phrase level w e) :
    Completes level w e := by
  induction h with
  | terminal hx => exact .terminal hx
  | group hx _ hy ih => exact .group hx hy ih
  | tighter _ ih => exact .tighter ih
  | @chain level _ _ _ _ _ _ hlevel hx _ _ ihl ihr =>
      cases level with
      | multiplicative => exact .chain (b := .multiplicative) rfl hx ihl ihr
      | additive => exact .chain (b := .additive) rfl hx ihl ihr
      | _ => cases hlevel
  | pair hlevel hx _ _ ihl ihr => exact .pair hlevel hx ihl ihr
  | assign hx hop _ ih => exact .assign hx hop ih

/-- A whole expression in front of a token that cannot go on with it. -/
theorem stops_expression {w : List Token} {e : Expr} (h : Phrase .assignment w e) {t : Stream}
    (ht : t.current.kind.level? = none) : expression.Stops (t.prepend w) (.ok e) t :=
  (completes h).stops t (by simp [Level.continues, ht])

/-! ## Declarations -/

theorem stops_declaration {w : List Token} {d : Declaration} (h : Entry w d) {t : Stream}
    (ht : t.current.kind.level? = none) : declaration.Stops (t.prepend w) (.ok d) t := by
  cases h with
  | bare hx =>
      have hk : t.current.kind ≠ .assign := by
        intro hk
        simp [hk, Kind.level?] at ht
      exact .bind (.expect (s := t.prepend [_]) hx) (.bind (.accept_other hk) (.pure _ t))
  | @initialized x q w e hx hq he =>
      refine .bind (.expect (s := t.prepend (x :: q :: w)) hx) ?_
      refine .bind (.accept (s := t.prepend (q :: w)) hq) ?_
      exact .bind (stops_expression he ht) (.pure _ t)

theorem stops_declarations {w : List Token} {ds : List Declaration} (h : Entries w ds) {t : Stream}
    (ht : t.current.kind.level? = none) (hcomma : t.current.kind ≠ .comma) :
    declarations.Stops (t.prepend w) (.ok ds) t := by
  induction h with
  | last hd =>
      have hend : further.Stops t (.ok none) t := .bind (.accept_other hcomma) (.pure _ t)
      exact .bind (stops_declaration hd ht) (.bind (.many_nil hend) (.pure _ t))
  | @more w c v d ds hd hc _ ih =>
      -- What is read of the later entries is taken apart, to be read again after the comma.
      obtain ⟨d', t₁, hfirst, hrest⟩ := outcome_bind_eq_ok ih
      obtain ⟨ds', t₂, hmany, hlist⟩ := outcome_bind_eq_ok hrest
      cases hlist
      have hfurther : further.Stops (t.prepend (c :: v)) (.ok (some d')) t₁ :=
        .bind (.accept (s := t.prepend (c :: v)) hc) (.bind hfirst (.pure _ t₁))
      have hstart :
          declaration.Stops ((t.prepend (c :: v)).prepend w) (.ok d) (t.prepend (c :: v)) :=
        stops_declaration hd (by simp [hc, Kind.level?])
      rw [Stream.prepend_prepend] at hstart
      have hmore := Stops.many_cons (v := .ok ds') progresses_further hfurther hmany
      exact .bind hstart (.bind hmore (.pure _ t))

/-! ## Statements -/

/-- What follows a statement in a list is the next statement or what follows the list. -/
theorem continuesSentence_prepend {w : List Token} {ss : List Stmt} (h : Sentences w ss)
    {t : Stream} (ht : t.current.kind.continuesSentence = false) :
    (t.prepend w).current.kind.continuesSentence = false := by
  cases h with
  | nil => exact ht
  | cons hs _ =>
      obtain ⟨x, v, rfl, hx⟩ := hs.starts
      exact Kind.continuesSentence_of_starts hx

theorem stops_statementBefore {stop : Kind} (hstop : stop.startsSentence = false) {w : List Token}
    {s : Stmt} (hs : Sentence w s) {t u : Stream} (h : statement.Stops (t.prepend w) (.ok s) u) :
    (statementBefore stop statement).Stops (t.prepend w) (.ok (some s)) u := by
  obtain ⟨x, w, rfl, hx⟩ := hs.starts
  have hne : x.kind ≠ stop := by
    rintro rfl
    rw [hstop] at hx
    cases hx
  refine Stops.congr (outcome_peek_bind _ _) ?_
  simp only [Stream.current_prepend_cons, hne, if_false]
  exact .bind h (.pure _ u)

/-- No statement is read where the list of them ends. -/
theorem stops_statementsUntil_stop {stop : Kind} {t : Stream} (ht : t.current.kind = stop) :
    (statementsUntil stop statement).Stops t (.ok []) t := by
  refine .many_nil (Stops.congr (outcome_peek_bind _ _) ?_)
  simp only [ht, if_true]
  exact .pure none t

mutual

theorem stops_statement {w : List Token} {s : Stmt} (h : Sentence w s) {t : Stream}
    (ht : s.EndsAt t.current.kind) : statement.Stops (t.prepend w) (.ok s) t := by
  rw [statement_eq]
  refine Stops.congr (outcome_peek_bind _ _) ?_
  match h with
  | .block (i := i) (w := w) (d := d) hi hbody hd =>
      have hinner := stops_statementsUntil rfl hbody (t := t.prepend [d])
        (by simp [hd, Kind.continuesSentence, Kind.level?]) (stops_statementsUntil_stop hd)
      rw [Stream.prepend_prepend, Except.map, List.append_nil] at hinner
      simp only [Stream.current_prepend_cons, hi]
      refine Stops.congr (outcome_advance_bind _ _) ?_
      exact .bind hinner (.bind (.expect (s := t.prepend [d]) hd) (.pure _ t))
  | .declare (w := w) hl hds =>
      simp only [Stream.current_prepend_cons, hl]
      refine Stops.congr (outcome_advance_bind _ _) ?_
      exact .bind (stops_declarations hds ht.1 ht.2.1) (.pure _ t)
  | .conditional (w := w) (t := x) (v := v) hi hc hx hs =>
      have hcond := stops_expression hc (t := t.prepend (x :: v)) (by simp [hx, Kind.level?])
      rw [Stream.prepend_prepend] at hcond
      have hopen := ht.2.2 rfl
      have hbody := stops_statement hs (t := t) ⟨ht.1, ht.2.1, fun _ => hopen⟩
      simp only [Stream.current_prepend_cons, hi]
      refine Stops.congr (outcome_advance_bind _ _) (.bind hcond ?_)
      refine .bind (.expect (s := t.prepend (x :: v)) hx) (.bind hbody ?_)
      exact .bind (.accept_other hopen) (.pure _ t)
  | .alternative (w := w) (t := x) (v := v) (e := e) (u := u) hi hc hx hs hclosed he ha =>
      have hcond := stops_expression hc (t := t.prepend (x :: (v ++ e :: u)))
        (by simp [hx, Kind.level?])
      rw [Stream.prepend_prepend] at hcond
      have hbody := stops_statement hs (t := t.prepend (e :: u))
        (by simp [he, Stmt.EndsAt, hclosed, Kind.level?])
      rw [Stream.prepend_prepend] at hbody
      have halt := stops_statement ha (t := t) ht
      simp only [Stream.current_prepend_cons, hi]
      refine Stops.congr (outcome_advance_bind _ _) (.bind hcond ?_)
      refine .bind (.expect (s := t.prepend (x :: (v ++ e :: u))) hx) (.bind hbody ?_)
      exact .bind (.accept (s := t.prepend (e :: u)) he) (.bind halt (.pure _ t))
  | .expression he =>
      have hwhole := stops_expression he ht.1
      obtain ⟨x, v, rfl, hx⟩ := he.starts
      simp only [Stream.current_prepend_cons]
      split
      · next hk => simp [hk, Kind.startsPhrase] at hx
      · next hk => simp [hk, Kind.startsPhrase] at hx
      · next hk => simp [hk, Kind.startsPhrase] at hx
      · exact .bind hwhole (.pure _ t)

/-- Statements are read first, and then what stands behind them, if it does not go on with the last
of them. -/
theorem stops_statementsUntil {stop : Kind} (hstop : stop.startsSentence = false) {w : List Token}
    {ss : List Stmt} (h : Sentences w ss) {t u : Stream} {v : Except Fault (List Stmt)}
    (ht : t.current.kind.continuesSentence = false)
    (hrest : (statementsUntil stop statement).Stops t v u) :
    (statementsUntil stop statement).Stops (t.prepend w) (v.map (ss ++ ·)) u := by
  match h with
  | .nil => cases v <;> exact hrest
  | .cons (w := w) (v := y) hs hss =>
      have hfirst := stops_statement hs (t := t.prepend y)
        (Stmt.endsAt_of_continuesSentence _ (continuesSentence_prepend hss ht))
      have hmore := Stops.many_cons (progresses_statementBefore stop Reads.statement)
        (stops_statementBefore hstop hs hfirst) (stops_statementsUntil hstop hss ht hrest)
      rw [Stream.prepend_prepend] at hmore
      cases v <;> exact hmore

end

end IndentScript.Parser
