import IndentScript.Proofs.Grammar
import IndentScript.Proofs.Runs
import IndentScript.Parser.Session

/-!
# Parsers keep to the grammar

Each rule passes a phrase of its nonterminal, or, if it fails, the beginning of one: what is still
missing can be written down at every fault. Nested uses of a rule are covered by unrolling it.
-/

namespace IndentScript

open Grammar

/-! ## Tokens that are expressions -/

/-- The parser takes the quotes off where the text has two. -/
theorem Grammar.stringValue_iff {text v : String} : StringValue text v ↔ unquote text = v := by
  have hquoted : ∀ body, text.toList = '"' :: (body ++ ['"']) →
      unquote text = String.ofList body := by
    intro body hbody
    simp [unquote, hbody]
  have hbare : (∀ body, text.toList ≠ '"' :: (body ++ ['"'])) → unquote text = text := by
    intro hnone
    rw [unquote]
    split
    · next rest hrest =>
      refine if_neg fun hlast => ?_
      obtain ⟨body, rfl⟩ := List.getLast?_eq_some_iff.1 hlast
      exact hnone body hrest
    · rfl
  constructor
  · intro h
    cases h with
    | quoted hbody => exact hquoted _ hbody
    | bare hnone => exact hbare hnone
  · rintro rfl
    by_cases h : ∃ body, text.toList = '"' :: (body ++ ['"'])
    · obtain ⟨body, hbody⟩ := h
      rw [hquoted body hbody]
      exact .quoted hbody
    · have hnone := not_exists.1 h
      rw [hbare hnone]
      exact .bare hnone

theorem Token.operand?_eq_ok_iff {t : Token} {e : Expr} :
    t.operand? = some (.ok e) ↔ Terminal t e := by
  constructor
  · intro h
    rw [Token.operand?] at h
    split at h
    · next hk =>
      split at h
      · next v hv => cases h; exact .int hk hv
      · simp at h
    · next hk =>
      split at h
      · next v hv =>
        split at h
        · next hfin => cases h; exact .float hk hv hfin
        · simp at h
      · simp at h
    · next hk => cases h; exact .string hk (stringValue_iff.2 rfl)
    · next hk => cases h; exact .trueWord hk
    · next hk => cases h; exact .falseWord hk
    · next hk => cases h; exact .nilWord hk
    · next hk => cases h; exact .ident hk
    · cases h
  · intro h
    cases h with
    | int hk hv => simp [Token.operand?, hk, hv]
    | float hk hv hfin => simp [Token.operand?, hk, hv, hfin]
    | string hk hv => simp [Token.operand?, hk, stringValue_iff.1 hv]
    | trueWord hk | falseWord hk | nilWord hk | ident hk => simp [Token.operand?, hk]

/-- The one thing that a token can be blamed for by itself is a number without a value. -/
theorem Token.operand?_eq_error {t : Token} {e : ParseError} (h : t.operand? = some (.error e)) :
    e = Fault.number.blame t := by
  rw [Token.operand?] at h
  split at h
  · split at h
    · simp at h
    · cases h; rfl
  · split at h
    · split at h
      · simp at h
      · cases h; rfl
    · cases h; rfl
  all_goals cases h

theorem Token.kind_ne_eof_of_operand? {t : Token} {r : Except ParseError Expr}
    (h : t.operand? = some r) : t.kind ≠ .eof := by
  intro hk
  simp [Token.operand?, hk] at h

namespace Grammar

/-- The word for no value, which is a phrase of every level. -/
def nilToken : Token := ⟨.nilWord, "nil", ⟨1, 1⟩⟩

theorem Phrase.nil (level : Level) : Phrase level [nilToken] .nil := by
  have hprimary : Phrase .primary [nilToken] .nil := .terminal (.nilWord rfl)
  cases level with
  | primary => exact hprimary
  | multiplicative => exact .tighter hprimary
  | additive => exact .tighter (.tighter hprimary)
  | relational => exact .tighter (.tighter (.tighter hprimary))
  | equality => exact .tighter (.tighter (.tighter (.tighter hprimary)))
  | conjunction => exact .tighter (.tighter (.tighter (.tighter (.tighter hprimary))))
  | disjunction => exact .tighter (.tighter (.tighter (.tighter (.tighter (.tighter hprimary)))))
  | assignment =>
      exact .tighter (.tighter (.tighter (.tighter (.tighter (.tighter (.tighter hprimary))))))

/-! ## Levels and operators -/

namespace Level

/-- The level of the operators of arithmetic and comparison that bind alike. -/
def ofBinary : BinaryOp.Level → Level
  | .equality => equality
  | .relational => relational
  | .additive => additive
  | .multiplicative => multiplicative

def ofLogical : LogicalOp → Level
  | .and => conjunction
  | .or => disjunction

theorem node?_ofBinary (l : BinaryOp.Level) (k : Kind) :
    (ofBinary l).node? k = (BinaryOp.ofKindAt? l k).map Expr.binary := by
  cases l <;> cases k <;> rfl

theorem node?_ofLogical (op : LogicalOp) (k : Kind) :
    (ofLogical op).node? k = (LogicalOp.ofKindAt? op k).map Expr.logical := by
  cases op <;> cases k <;> rfl

/-- An operator makes a node, never a name. -/
theorem node?_ne_ident {level : Level} {k : Kind} {node : Expr → Expr → Expr}
    (h : level.node? k = some node) (l r : Expr) (name : String) : node l r ≠ .ident name := by
  cases level <;> cases k <;> cases h <;> nofun

theorem node?_eof (level : Level) : level.node? .eof = none := by
  cases level <;> rfl

end Level

theorem assignment?_eq (k : Kind) : assignment? k = AssignOp.ofKind? k := by
  cases k <;> rfl

/-- A name by itself is the one token that it was read from. -/
theorem Phrase.eq_of_ident {level : Level} {w : List Token} {name : String}
    (h : Phrase level w (.ident name)) : ∃ x, w = [x] ∧ x.kind = .ident ∧ x.text = name := by
  generalize he : Expr.ident name = e at h
  induction h with
  | terminal ht =>
      subst he
      cases ht with
      | ident hk => exact ⟨_, rfl, hk, rfl⟩
  | tighter _ ih => exact ih he
  | chain _ hnode | pair _ hnode => exact absurd he.symm (Level.node?_ne_ident hnode _ _ name)
  | group | assign => cases he

end Grammar

namespace Parser

/-- The parser for the expressions of a level. The loosest of them are the nested ones. -/
def atLevel (nested : Parser Expr) : Level → Parser Expr
  | .primary => primary nested
  | .multiplicative => multiplicative nested
  | .additive => additive nested
  | .relational => relational nested
  | .equality => equality nested
  | .conjunction => conjunction nested
  | .disjunction => disjunction nested
  | .assignment => nested

namespace Reads

variable {s : Stream}

/-! ## Expressions -/

theorem primary {nested : Parser Expr} (h : ∀ s, nested.Reads (Phrase .assignment) s) (s : Stream) :
    (Parser.primary nested).Reads (Phrase .primary) s := by
  refine peek_bind ?_
  cases hop : s.current.operand? with
  | some r =>
      have hk := Token.kind_ne_eof_of_operand? hop
      cases r with
      | ok e =>
          exact ok (Stream.eq_prepend_current hk) ((Stops.pure e s.next).congr rfl)
            (.terminal (Token.operand?_eq_ok_iff.1 hop))
      | error e =>
          -- The number is passed before it is judged, but what is blamed is the number.
          cases Token.operand?_eq_error hop
          have happlies : Fault.AppliesTo s.current .number := ⟨_, hop⟩
          exact fail ⟨rfl, happlies⟩ ⟨_, _, Phrase.nil .primary⟩
  | none =>
      refine accept_bind (by decide) (fun hl => ?_) (fun _ => unexpected ⟨_, _, Phrase.nil .primary⟩)
      refine bind (h s.next) (fun w e t _ _ he => ?_) (fun w e he => ?_)
      · refine expect_bind (by decide) ?_ fun hr => pure (.group hl he hr)
        exact ⟨[⟨.rightParen, ")", ⟨1, 1⟩⟩], .group e, .group hl he rfl⟩
      · exact ⟨[⟨.rightParen, ")", ⟨1, 1⟩⟩], .group e, .group hl he rfl⟩

variable {level : Level} {ω : Type} {ofKind? : Kind → Option ω} {node : ω → Expr → Expr → Expr}
  {operand : Parser Expr}

/-- Nothing, or an operator of the level and an operand. -/
def IsTail (level : Level) (node : ω → Expr → Expr → Expr) (w : List Token) :
    Option (ω × Expr) → Prop
  | none => w = []
  | some (op, e) =>
    ∃ t v, w = t :: v ∧ level.node? t.kind = some (node op) ∧ Phrase level.operand v e

theorem tail? (hnode : ∀ k, level.node? k = (ofKind? k).map node)
    (h : ∀ s, operand.Reads (Phrase level.operand) s) (s : Stream) :
    (Parser.tail? ofKind? operand).Reads (IsTail level node) s := by
  have heof : ofKind? .eof = none := by
    simpa [Level.node?_eof] using (hnode .eof).symm
  refine operator?_bind heof (fun op hop => ?_) (fun _ => pure rfl)
  have hn : level.node? s.current.kind = some (node op) := by rw [hnode, hop]; rfl
  exact map (h s.next) fun v e he => ⟨s.current, v, rfl, hn, he⟩

theorem single (hlevel : level.chains = false) (hnode : ∀ k, level.node? k = (ofKind? k).map node)
    (h : ∀ s, operand.Reads (Phrase level.operand) s) (s : Stream) :
    (Parser.single ofKind? node operand).Reads (Phrase level) s := by
  refine bind (h s) (fun w left t _ _ hl => ?_) (fun w left hl => ⟨[], left, ?_⟩)
  · refine bind (tail? hnode h t) (fun v r _ _ _ hr => ?_) (fun v r hr => ?_)
    · cases r with
      | none =>
          cases hr
          exact pure (by simpa using .tighter hl)
      | some r =>
          obtain ⟨x, v, rfl, hx, hv⟩ := hr
          exact pure (by simpa using .pair hlevel hx hl hv)
    · cases r with
      | none =>
          cases hr
          exact ⟨[], left, by simpa using .tighter hl⟩
      | some r =>
          obtain ⟨x, v, rfl, hx, hv⟩ := hr
          exact ⟨[], node r.1 left r.2, by simpa using .pair hlevel hx hl hv⟩
  · simpa using .tighter hl

/-- The tails of a chain carry a phrase of the level on to a longer one. -/
theorem chain (hlevel : level.chains = true) (hnode : ∀ k, level.node? k = (ofKind? k).map node)
    (h : ∀ s, operand.Reads (Phrase level.operand) s) (s : Stream) :
    (Parser.chain ofKind? node operand).Reads (Phrase level) s := by
  let Extends (v : List Token) (tails : List (ω × Expr)) : Prop :=
    ∀ w left, Phrase level w left →
      Phrase level (w ++ v) (tails.foldl (fun left t => node t.1 left t.2) left)
  have hmany : ∀ s, (Parser.many (Parser.tail? ofKind? operand)).Reads Extends s := by
    refine many (tail? hnode h) ?_ ?_ ?_
    · intro w left hw
      simpa using hw
    · rintro v rfl w left hw
      simpa using hw
    · rintro v v' ⟨op, e⟩ tails ⟨x, v, rfl, hx, he⟩ hext w left hw
      have hlonger : Phrase level (w ++ x :: v) (node op left e) := .chain hlevel hx hw he
      simpa using hext _ _ hlonger
  refine bind (h s) (fun w first t _ _ hfirst => ?_) (fun w first hfirst => ⟨[], first, ?_⟩)
  · exact map (hmany t) fun v tails hext => hext w first (.tighter hfirst)
  · simpa using .tighter hfirst

theorem atLevel {nested : Parser Expr} (h : ∀ s, nested.Reads (Phrase .assignment) s)
    (level : Level) (s : Stream) : (Parser.atLevel nested level).Reads (Phrase level) s := by
  have hmul : ∀ s, (multiplicative nested).Reads (Phrase .multiplicative) s :=
    chain rfl (Level.node?_ofBinary .multiplicative) (primary h)
  have hadd : ∀ s, (additive nested).Reads (Phrase .additive) s :=
    chain rfl (Level.node?_ofBinary .additive) hmul
  have hrel : ∀ s, (relational nested).Reads (Phrase .relational) s :=
    single rfl (Level.node?_ofBinary .relational) hadd
  have heq : ∀ s, (equality nested).Reads (Phrase .equality) s :=
    single rfl (Level.node?_ofBinary .equality) hrel
  have hand : ∀ s, (conjunction nested).Reads (Phrase .conjunction) s :=
    single rfl (Level.node?_ofLogical .and) heq
  cases level with
  | primary => exact primary h s
  | multiplicative => exact hmul s
  | additive => exact hadd s
  | relational => exact hrel s
  | equality => exact heq s
  | conjunction => exact hand s
  | disjunction => exact single rfl (Level.node?_ofLogical .or) hand s
  | assignment => exact h s

theorem assignment {nested : Parser Expr} (h : ∀ s, nested.Reads (Phrase .assignment) s)
    (s : Stream) : (Parser.assignment nested).Reads (Phrase .assignment) s := by
  refine bind (atLevel h .disjunction s) (fun w left t _ _ hl => peek_bind ?_)
    (fun w left hl => ⟨[], left, ?_⟩)
  · have hleft : Phrase .assignment w left := .tighter hl
    cases hop : AssignOp.ofKind? t.current.kind with
    | none => exact pure (by simpa using hleft)
    | some op =>
        cases left with
        | ident name =>
            obtain ⟨x, rfl, hx, rfl⟩ := hl.eq_of_ident
            refine advance_bind (Kind.ne_eof_of_ofKind? rfl hop) (map (h t.next) fun v e he => ?_)
            exact .assign hx (by rw [assignment?_eq, hop]) he
        | _ =>
            have htarget : Fault.AppliesTo t.current .target := by simp [Fault.AppliesTo, hop]
            exact fail ⟨rfl, htarget⟩ ⟨[], _, by simpa using hleft⟩
  · simpa using .tighter hl

theorem expression (s : Stream) : Parser.expression.Reads (Phrase .assignment) s :=
  fix ⟨_, _, .nil _⟩ (fun _ => assignment) s

/-! ## Declarations -/

theorem declaration (s : Stream) : Parser.declaration.Reads Entry s := by
  let x : Token := ⟨.ident, "", ⟨1, 1⟩⟩
  refine expect_bind (by decide) ⟨[x], ⟨x.text, none⟩, .bare rfl⟩ fun hx => ?_
  refine accept_bind (by decide) (fun hq => ?_) (fun _ => pure (.bare hx))
  exact map (expression _) fun v e he => .initialized hx hq he

/-- Nothing, or a comma and an entry. -/
def IsFurther (w : List Token) : Option Declaration → Prop
  | none => w = []
  | some d => ∃ c v, w = c :: v ∧ c.kind = .comma ∧ Entry v d

theorem further (s : Stream) : Parser.further.Reads IsFurther s :=
  accept_bind (by decide)
    (fun hc => map (declaration s.next) fun v d hd => ⟨s.current, v, rfl, hc, hd⟩)
    (fun _ => pure rfl)

theorem declarations (s : Stream) : Parser.declarations.Reads Entries s := by
  let Extends (v : List Token) (ds : List Declaration) : Prop :=
    ∀ w d, Entry w d → Entries (w ++ v) (d :: ds)
  have hmany : ∀ s, (Parser.many Parser.further).Reads Extends s := by
    refine many further ?_ ?_ ?_
    · intro w d hd
      simpa using .last hd
    · rintro v rfl w d hd
      simpa using .last hd
    · rintro v v' d ds ⟨c, v, rfl, hc, hd⟩ hext w d' hd'
      simpa using Entries.more hd' hc (hext v d hd)
  refine bind (declaration s) (fun w d t _ _ hd => ?_) (fun w d hd => ⟨[], [d], ?_⟩)
  · exact map (hmany t) fun v ds hext => hext w d hd
  · simpa using .last hd

/-! ## Statements -/

theorem statementBefore (stop : Kind) {nested : Parser Stmt} (h : ∀ s, nested.Reads Sentence s)
    (s : Stream) :
    (Parser.statementBefore stop nested).Reads
      (fun w a => match a with | none => w = [] | some a => Sentence w a) s := by
  refine peek_bind ?_
  split
  · exact pure rfl
  · exact map (h s) fun w a ha => ha

theorem statementsUntil (stop : Kind) {nested : Parser Stmt} (h : ∀ s, nested.Reads Sentence s)
    (s : Stream) : (Parser.statementsUntil stop nested).Reads Sentences s := by
  refine many (statementBefore stop h) .nil ?_ ?_ s
  · rintro w rfl
    exact .nil
  · exact fun w v a as ha has => .cons ha has

theorem block {nested : Parser Stmt} (h : ∀ s, nested.Reads Sentence s) {i : Token}
    (hi : i.kind = .indent) (s : Stream) :
    (Parser.block nested).Reads (fun w b => Sentence (i :: w) b) s := by
  refine bind (statementsUntil .dedent h s) (fun w body t _ _ hbody => ?_) (fun w body hbody => ?_)
  · refine expect_bind (by decide) ?_ fun hd => pure (.block hi hbody hd)
    exact ⟨[⟨.dedent, "", ⟨1, 1⟩⟩], .block body, .block hi hbody rfl⟩
  · exact ⟨[⟨.dedent, "", ⟨1, 1⟩⟩], .block body, .block hi hbody rfl⟩

end Reads

/-- A statement that an `else` could go on with is never left in front of one. -/
def TakesElse (p : Parser Stmt) : Prop :=
  ∀ s a t, p.outcome s = (.ok a, t) → a.isOpen = true → t.current.kind ≠ .elseWord

namespace TakesElse

theorem conditional {nested : Parser Stmt} (h : nested.TakesElse) :
    (Parser.conditional nested).TakesElse := by
  intro s a t hrun hopen
  obtain ⟨c, s₁, _, hrun⟩ := outcome_bind_eq_ok hrun
  obtain ⟨_, s₂, _, hrun⟩ := outcome_bind_eq_ok hrun
  obtain ⟨b, s₃, _, hrun⟩ := outcome_bind_eq_ok hrun
  obtain ⟨found, s₄, haccept, hrun⟩ := outcome_bind_eq_ok hrun
  cases found with
  | true =>
      obtain ⟨alt, s₅, halt, hrun⟩ := outcome_bind_eq_ok hrun
      cases hrun
      exact h _ _ _ halt (by simpa [Stmt.isOpen] using hopen)
  | false =>
      cases hrun
      rw [outcome_accept] at haccept
      split at haccept
      · simp at haccept
      · next hk =>
        cases haccept
        exact hk

theorem statementOf {nested : Parser Stmt} (h : nested.TakesElse) :
    (Parser.statementOf nested).TakesElse := by
  intro s a t hrun hopen
  rw [Parser.statementOf, outcome_peek_bind] at hrun
  split at hrun
  · obtain ⟨_, s₁, _, hrun⟩ := outcome_bind_eq_ok hrun
    obtain ⟨body, s₂, _, hrun⟩ := outcome_bind_eq_ok hrun
    obtain ⟨_, s₃, _, hrun⟩ := outcome_bind_eq_ok hrun
    cases hrun
    simp [Stmt.isOpen] at hopen
  · obtain ⟨_, s₁, _, hrun⟩ := outcome_bind_eq_ok hrun
    obtain ⟨ds, s₂, _, hrun⟩ := outcome_bind_eq_ok hrun
    cases hrun
    simp [Stmt.isOpen] at hopen
  · obtain ⟨_, s₁, _, hrun⟩ := outcome_bind_eq_ok hrun
    exact h.conditional _ _ _ hrun hopen
  · obtain ⟨e, s₁, _, hrun⟩ := outcome_bind_eq_ok hrun
    cases hrun
    simp [Stmt.isOpen] at hopen

theorem unroll (depth : Nat) : TakesElse (Parser.unroll Parser.statementOf depth) := by
  induction depth with
  | zero =>
      intro s a t hrun
      cases hrun
  | succ depth ih => exact statementOf ih

end TakesElse

namespace Reads

theorem conditional {nested : Parser Stmt} (h : ∀ s, nested.Reads Sentence s)
    (helse : nested.TakesElse) {i : Token} (hi : i.kind = .ifWord) (s : Stream) :
    (Parser.conditional nested).Reads (fun w b => Sentence (i :: w) b) s := by
  let t₀ : Token := ⟨.thenWord, "then", ⟨1, 1⟩⟩
  have hnil : Sentence [nilToken] (.expression .nil) := .expression (.nil _)
  refine bind (expression s) (fun w c s₁ _ _ hc => ?_) (fun w c hc => ?_)
  · refine expect_bind (by decide) ⟨[t₀, nilToken], _, .conditional hi hc rfl hnil⟩ fun ht => ?_
    refine bind (h s₁.next) (fun v a s₂ _ hrun ha => ?_) (fun v a ha => ?_)
    · have hbare := Sentence.conditional hi hc ht ha
      refine accept_bind (by decide) (fun he => ?_) (fun _ => pure (by simpa using hbare))
      have hclosed : a.isOpen = false := by
        cases hopen : a.isOpen with
        | false => rfl
        | true => exact absurd he (helse _ _ _ hrun hopen)
      exact map (h s₂.next) fun u b hb => by
        simpa using Sentence.alternative hi hc ht ha hclosed he hb
    · exact ⟨[], .conditional c a none, by simpa using .conditional hi hc ht ha⟩
  · exact ⟨[t₀, nilToken], _, .conditional hi hc rfl hnil⟩

theorem statementOf {nested : Parser Stmt} (h : ∀ s, nested.Reads Sentence s)
    (helse : nested.TakesElse) (s : Stream) : (Parser.statementOf nested).Reads Sentence s := by
  refine peek_bind ?_
  split
  · next hi => exact advance_bind (by simp [hi]) (block h hi s.next)
  · next hl =>
    exact advance_bind (by simp [hl]) (map (declarations s.next) fun w ds hds => .declare hl hds)
  · next hi => exact advance_bind (by simp [hi]) (conditional h helse hi s.next)
  · exact map (expression s) fun w e he => .expression he

theorem statement (s : Stream) : Parser.statement.Reads Sentence s :=
  fix ⟨_, _, .expression (.nil _)⟩ (fun depth h => statementOf h (.unroll depth)) s

theorem program (s : Stream) : Parser.program.Reads (fun w p => Sentences w p.statements) s :=
  map (statementsUntil .eof statement s) fun _ _ h => h

end Reads

end Parser

end IndentScript
