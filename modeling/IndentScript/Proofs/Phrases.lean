import IndentScript.Proofs.Grammar

/-!
# Phrases of the grammar

What the tokens of a phrase look like from outside: which tokens can stand first in it, which never
stand in it, and which, standing after it, could still be part of a longer phrase.
-/

namespace IndentScript

namespace Kind

/-- The kinds of layout: the end of the source and the brackets of its blocks. -/
def isLayout : Kind → Bool
  | eof | indent | dedent => true
  | _ => false

/-- The kinds with which an expression can start. -/
def startsPhrase : Kind → Bool
  | int | float | string | trueWord | falseWord | nilWord | ident | leftParen => true
  | _ => false

/-- The kinds with which a statement can start. -/
def startsSentence : Kind → Bool
  | indent | letWord | ifWord => true
  | k => k.startsPhrase

/-- The level at which an operator of the kind stands. -/
def level? : Kind → Option Grammar.Level
  | star | slash | percent => some .multiplicative
  | plus | minus => some .additive
  | less | lessEqual | greater | greaterEqual => some .relational
  | equal | notEqual | is | not => some .equality
  | and => some .conjunction
  | or => some .disjunction
  | assign | plusAssign | minusAssign | starAssign | slashAssign => some .assignment
  | _ => none

/-- The kinds that go on with a statement which could also end before them. -/
def continuesSentence (k : Kind) : Bool :=
  k.level?.isSome || k = comma || k = elseWord

theorem continuesSentence_of_starts {k : Kind} (h : k.startsSentence = true) :
    k.continuesSentence = false := by
  cases k <;> first | rfl | cases h

end Kind

/-- Whether the statement is over in front of a token of the given kind. -/
def Stmt.EndsAt (s : Stmt) (k : Kind) : Prop :=
  k.level? = none ∧ k ≠ .comma ∧ (s.isOpen = true → k ≠ .elseWord)

theorem Stmt.endsAt_of_continuesSentence (s : Stmt) {k : Kind} (h : k.continuesSentence = false) :
    s.EndsAt k := by
  simp only [Kind.continuesSentence, Bool.or_eq_false_iff, decide_eq_false_iff_not,
    Option.isSome_eq_false_iff, Option.isNone_iff_eq_none] at h
  exact ⟨h.1.1, h.1.2, fun _ => h.2⟩

namespace Grammar

namespace Level

/-- The place of a level in the order from the tightest on. -/
def rank : Level → Nat
  | primary => 0
  | multiplicative => 1
  | additive => 2
  | relational => 3
  | equality => 4
  | conjunction => 5
  | disjunction => 6
  | assignment => 7

/-- Whether an operator of the kind could go on with a phrase of the level: it stands at this level
or at a tighter one. -/
def continues (level : Level) (k : Kind) : Bool :=
  k.level?.any fun l => l.rank ≤ level.rank

theorem level?_of_node? {level : Level} {k : Kind} {node : Expr → Expr → Expr}
    (h : level.node? k = some node) : k.level? = some level := by
  cases level <;> cases k <;> cases h <;> rfl

/-- An operator of the level ends the operand before it. -/
theorem operand_continues_of_node? {level : Level} {k : Kind} {node : Expr → Expr → Expr}
    (h : level.node? k = some node) : level.operand.continues k = false := by
  have hk := level?_of_node? h
  cases level with
  | primary => simp [node?] at h
  | _ => simp [continues, hk, rank, operand]

theorem operand_continues {level : Level} {k : Kind} (h : level.continues k = false) :
    level.operand.continues k = false := by
  cases hk : k.level? with
  | none => simp [continues, hk]
  | some l =>
      simp only [continues, hk, Option.any_some, decide_eq_false_iff_not] at h ⊢
      cases level <;> simp only [operand, rank] at h ⊢ <;> omega

theorem node?_of_continues {level : Level} {k : Kind} (h : level.continues k = false) :
    level.node? k = none := by
  cases hnode : level.node? k with
  | none => rfl
  | some node => simp [continues, level?_of_node? hnode] at h

end Level

/-! ## First tokens -/

theorem Terminal.starts {t : Token} {e : Expr} (h : Terminal t e) : t.kind.startsPhrase = true := by
  cases h <;> simp [*, Kind.startsPhrase]

theorem Phrase.starts {level : Level} {w : List Token} {e : Expr} (h : Phrase level w e) :
    ∃ t v, w = t :: v ∧ t.kind.startsPhrase = true := by
  induction h with
  | terminal ht => exact ⟨_, _, rfl, ht.starts⟩
  | group hl => exact ⟨_, _, rfl, by simp [hl, Kind.startsPhrase]⟩
  | tighter _ ih => exact ih
  | chain _ _ _ _ ih | pair _ _ _ _ ih =>
      obtain ⟨t, v, rfl, ht⟩ := ih
      exact ⟨t, _, rfl, ht⟩
  | assign hx => exact ⟨_, _, rfl, by simp [hx, Kind.startsPhrase]⟩

theorem Sentence.starts {w : List Token} {s : Stmt} (h : Sentence w s) :
    ∃ t v, w = t :: v ∧ t.kind.startsSentence = true := by
  cases h with
  | block hi => exact ⟨_, _, rfl, by simp [hi, Kind.startsSentence]⟩
  | declare hl => exact ⟨_, _, rfl, by simp [hl, Kind.startsSentence]⟩
  | conditional hi | alternative hi => exact ⟨_, _, rfl, by simp [hi, Kind.startsSentence]⟩
  | expression he =>
      obtain ⟨t, v, rfl, ht⟩ := he.starts
      refine ⟨t, v, rfl, ?_⟩
      revert ht
      cases t.kind <;> simp [Kind.startsSentence, Kind.startsPhrase]

theorem Sentence.ne_nil {w : List Token} {s : Stmt} (h : Sentence w s) : w ≠ [] := by
  obtain ⟨t, v, rfl, _⟩ := h.starts
  exact List.cons_ne_nil t v

/-! ## Tokens inside -/

theorem Phrase.isLayout {level : Level} {w : List Token} {e : Expr} (h : Phrase level w e) :
    ∀ t ∈ w, t.kind.isLayout = false := by
  induction h with
  | terminal ht =>
      have hk := ht.starts
      revert hk
      simp only [List.mem_singleton, forall_eq]
      rename_i t _
      cases t.kind <;> simp [Kind.startsPhrase, Kind.isLayout]
  | group hl _ hr ih =>
      intro t ht
      simp only [List.mem_cons, List.mem_append, List.not_mem_nil, or_false] at ht
      rcases ht with rfl | ht | rfl
      · simp [hl, Kind.isLayout]
      · exact ih t ht
      · simp [hr, Kind.isLayout]
  | tighter _ ih => exact ih
  | @chain level w x v node l r _ hnode _ _ ihl ihr
  | @pair level w x v node l r _ hnode _ _ ihl ihr =>
      intro t ht
      rcases List.mem_append.1 ht with ht | ht
      · exact ihl t ht
      · rcases List.mem_cons.1 ht with rfl | ht
        · revert hnode
          cases level <;> cases t.kind <;> simp [Level.node?, Kind.isLayout]
        · exact ihr t ht
  | @assign x y w op e hx hop _ ih =>
      intro t ht
      rcases List.mem_cons.1 ht with rfl | ht
      · simp [hx, Kind.isLayout]
      · rcases List.mem_cons.1 ht with rfl | ht
        · revert hop
          cases t.kind <;> simp [assignment?, Kind.isLayout]
        · exact ih t ht

theorem Phrase.ne_eof {level : Level} {w : List Token} {e : Expr} (h : Phrase level w e) :
    ∀ t ∈ w, t.kind ≠ .eof := by
  intro t ht hk
  have hlayout := h.isLayout t ht
  simp [hk, Kind.isLayout] at hlayout

theorem Entry.ne_eof {w : List Token} {d : Declaration} (h : Entry w d) :
    ∀ t ∈ w, t.kind ≠ .eof := by
  cases h with
  | bare hx => simp [hx]
  | initialized hx hq he =>
      simp only [List.forall_mem_cons, hx, hq]
      exact ⟨by decide, by decide, he.ne_eof⟩

theorem Entries.ne_eof {w : List Token} {ds : List Declaration} (h : Entries w ds) :
    ∀ t ∈ w, t.kind ≠ .eof := by
  induction h with
  | last hd => exact hd.ne_eof
  | more hd hc _ ih =>
      simp only [List.forall_mem_append, List.forall_mem_cons, hc]
      exact ⟨hd.ne_eof, by decide, ih⟩

mutual

theorem Sentence.ne_eof {w : List Token} {s : Stmt} (h : Sentence w s) :
    ∀ t ∈ w, t.kind ≠ .eof := by
  match h with
  | .block hi hbody hd =>
      simp only [List.forall_mem_append, List.forall_mem_cons, hi, hd]
      exact ⟨by decide, Sentences.ne_eof hbody, by decide, by simp⟩
  | .declare hl hds =>
      simp only [List.forall_mem_cons, hl]
      exact ⟨by decide, hds.ne_eof⟩
  | .conditional hi hc ht hs =>
      simp only [List.forall_mem_append, List.forall_mem_cons, hi, ht]
      exact ⟨by decide, hc.ne_eof, by decide, Sentence.ne_eof hs⟩
  | .alternative hi hc ht hs _ he ha =>
      simp only [List.forall_mem_append, List.forall_mem_cons, hi, ht, he]
      exact ⟨by decide, hc.ne_eof, by decide, Sentence.ne_eof hs, by decide, Sentence.ne_eof ha⟩
  | .expression he => exact he.ne_eof

theorem Sentences.ne_eof {w : List Token} {ss : List Stmt} (h : Sentences w ss) :
    ∀ t ∈ w, t.kind ≠ .eof := by
  match h with
  | .nil => simp
  | .cons hs hss =>
      simp only [List.forall_mem_append]
      exact ⟨Sentence.ne_eof hs, Sentences.ne_eof hss⟩

end

end Grammar

end IndentScript
