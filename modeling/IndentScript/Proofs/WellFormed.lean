import IndentScript.Proofs.Spelling

/-!
# Well-formed trees

The trees that some source can be written for: operators have operands of their own levels, names
and literals can be spelt, lists of declarations are not empty, and an alternate belongs to the
nearest conditional. The grammar derives exactly these trees from tokens that a source can have.
-/

namespace IndentScript

open Grammar

/-! ## Well-formedness -/

namespace Expr

/-- The level of the operator at the top of an expression. -/
def level : Expr → Level
  | assign _ _ _ => .assignment
  | logical .or _ _ => .disjunction
  | logical .and _ _ => .conjunction
  | binary op _ _ =>
    match op.level with
    | .equality => .equality
    | .relational => .relational
    | .additive => .additive
    | .multiplicative => .multiplicative
  | _ => .primary

/-- Whether the expression can stand where one of the given level is asked for. -/
def Within (e : Expr) (level : Level) : Prop :=
  e.level.rank ≤ level.rank

inductive WellFormed : Expr → Prop where
  | assign {op x e} : IsName x → WellFormed e → WellFormed (.assign op x e)
  | or {l r} : l.Within .conjunction → r.Within .conjunction → WellFormed l → WellFormed r →
      WellFormed (.logical .or l r)
  | and {l r} : l.Within .equality → r.Within .equality → WellFormed l → WellFormed r →
      WellFormed (.logical .and l r)
  | equality {op l r} : op.level = .equality → l.Within .relational → r.Within .relational →
      WellFormed l → WellFormed r → WellFormed (.binary op l r)
  | relational {op l r} : op.level = .relational → l.Within .additive → r.Within .additive →
      WellFormed l → WellFormed r → WellFormed (.binary op l r)
  | additive {op l r} : op.level = .additive → l.Within .additive → r.Within .multiplicative →
      WellFormed l → WellFormed r → WellFormed (.binary op l r)
  | multiplicative {op l r} : op.level = .multiplicative → l.Within .multiplicative →
      r.Within .primary → WellFormed l → WellFormed r → WellFormed (.binary op l r)
  | group {e} : WellFormed e → WellFormed (.group e)
  | ident {x} : IsName x → WellFormed (.ident x)
  | int {v} : 0 ≤ v.toInt → WellFormed (.int v)
  | float {s v} : IsFraction s → Numeral.binary64? s = some v → v.isFinite → WellFormed (.float v)
  | string {s} : '"' ∉ s.toList → '\n' ∉ s.toList → WellFormed (.string s)
  | bool {b} : WellFormed (.bool b)
  | nil : WellFormed .nil

end Expr

structure Declaration.WellFormed (d : Declaration) : Prop where
  name : IsName d.name
  initializer : ∀ e, d.initializer = some e → e.WellFormed

inductive Stmt.WellFormed : Stmt → Prop where
  | block {body} : (∀ s ∈ body, WellFormed s) → WellFormed (.block body)
  | declare {ds : List Declaration} : ds ≠ [] → (∀ d ∈ ds, d.WellFormed) → WellFormed (.declare ds)
  | conditional {c s} : c.WellFormed → WellFormed s → WellFormed (.conditional c s none)
  | alternative {c s a} : c.WellFormed → WellFormed s → s.isOpen = false → WellFormed a →
      WellFormed (.conditional c s (some a))
  | expression {e} : e.WellFormed → WellFormed (.expression e)

def Program.WellFormed (p : Program) : Prop :=
  ∀ s ∈ p.statements, s.WellFormed

/-! ## What is derived is well-formed -/

theorem Grammar.StringValue.not_mem {s v : String} (h : StringValue s v) (hs : IsQuoted s) :
    '"' ∉ v.toList ∧ '\n' ∉ v.toList := by
  obtain ⟨body, hbody, hquote, hline⟩ := hs
  cases h with
  | quoted hbody' =>
      rw [hbody] at hbody'
      rw [String.toList_ofList, ← List.append_cancel_right (List.cons.inj hbody').2]
      exact ⟨hquote, hline⟩
  | bare hnone => exact absurd hbody (hnone body)

theorem Grammar.StringValue.of_body (s : String) :
    StringValue (String.ofList ('"' :: (s.toList ++ ['"']))) s := by
  have hvalue := StringValue.quoted (String.toList_ofList (l := '"' :: (s.toList ++ ['"'])))
  rwa [String.ofList_toList] at hvalue

namespace Numeral

theorem toInt64?_eq_some_iff {n : Int} {v : Int64} : toInt64? n = some v ↔ v.toInt = n := by
  rw [toInt64?]
  constructor
  · intro h
    split at h
    · next hn =>
      cases h
      exact Int64.toInt_ofInt_of_le hn.1 (Int.lt_of_le_of_lt hn.2 (by decide))
    · cases h
  · rintro rfl
    rw [if_pos ⟨v.minValue_le_toInt, v.toInt_le⟩, Int64.ofInt_toInt]

/-- What starts with a digit has no sign. -/
theorem splitSign_of_isDigit {c : Char} (hc : c.isDigit = true) (rest : List Char) :
    splitSign (c :: rest) = (false, c :: rest) := by
  unfold splitSign
  split
  · next h =>
    cases h
    exact absurd hc (by decide)
  · next h =>
    cases h
    exact absurd hc (by decide)
  · rfl

theorem splitSign_of_areDigits {text : List Char} (h : AreDigits text) :
    splitSign text = (false, text) := by
  cases text with
  | nil => rfl
  | cons c rest => exact splitSign_of_isDigit (h.isDigit c List.mem_cons_self) rest

theorem int64?_of_areDigits {s : String} (hs : AreDigits s.toList) :
    int64? s = toInt64? (Nat.ofDigitChars 10 s.toList 0) := by
  have hsign := splitSign_of_areDigits hs
  have hdigits : digits? s.toList = some (Nat.ofDigitChars 10 s.toList 0) :=
    if_pos ⟨hs.ne_nil, List.all_eq_true.2 hs.isDigit⟩
  simp [int64?, int?, hsign, hdigits]

theorem toInt_nonneg_of_areDigits {s : String} (hs : AreDigits s.toList) {v : Int64}
    (h : int64? s = some v) : 0 ≤ v.toInt := by
  rw [int64?_of_areDigits hs, toInt64?_eq_some_iff] at h
  rw [h]
  exact Int.natCast_nonneg _

theorem areDigits_toDigits (n : Nat) : AreDigits (Nat.toDigits 10 n) :=
  ⟨Nat.toDigits_ne_nil, fun _ hc => Nat.isDigit_of_mem_toDigits (by decide) (by decide) hc⟩

/-- An integer that is not negative is the value of the digits it is written with. -/
theorem int64?_toString {v : Int64} (hv : 0 ≤ v.toInt) :
    AreDigits (toString v.toInt).toList ∧ int64? (toString v.toInt) = some v := by
  have htext : toString v.toInt = String.ofList (Nat.toDigits 10 v.toInt.toNat) := by
    rw [Int.toString_eq_repr, Int.repr_eq_if, if_pos hv, Nat.repr_eq_ofList_toDigits]
  have hdigits : AreDigits (toString v.toInt).toList := by
    rw [htext, String.toList_ofList]
    exact areDigits_toDigits _
  refine ⟨hdigits, ?_⟩
  rw [int64?_of_areDigits hdigits, htext, String.toList_ofList, Nat.ofDigitChars_ten_toDigits,
    toInt64?_eq_some_iff, Int.toNat_of_nonneg hv]

end Numeral

namespace Grammar

theorem Terminal.wellFormed {t : Token} {e : Expr} (h : Terminal t e) (ht : t.Spelled) :
    e.WellFormed := by
  cases h with
  | int hk hv =>
      rw [Token.Spelled, hk] at ht
      exact .int (Numeral.toInt_nonneg_of_areDigits ht hv)
  | float hk hv hfin =>
      rw [Token.Spelled, hk] at ht
      exact .float ht hv hfin
  | string hk hv =>
      rw [Token.Spelled, hk] at ht
      exact .string (hv.not_mem ht).1 (hv.not_mem ht).2
  | trueWord | falseWord => exact .bool
  | nilWord => exact .nil
  | ident hk =>
      rw [Token.Spelled, hk] at ht
      exact .ident ht

theorem Terminal.level {t : Token} {e : Expr} (h : Terminal t e) : e.level = .primary := by
  cases h <;> rfl

/-- The node that a token makes at a level is that of an operator of the level. -/
theorem Level.node?_eq_some {level : Level} {k : Kind} {node : Expr → Expr → Expr}
    (h : level.node? k = some node) :
    (∃ op, node = Expr.logical op ∧ level = ofLogical op) ∨
      ∃ op : BinaryOp, node = Expr.binary op ∧ level = ofBinary op.level := by
  have hbinary : ∀ l : BinaryOp.Level, (ofBinary l).node? k = some node →
      ∃ op : BinaryOp, node = Expr.binary op ∧ ofBinary l = ofBinary op.level := by
    intro l hl
    rw [node?_ofBinary] at hl
    obtain ⟨op, hop, rfl⟩ := Option.map_eq_some_iff.1 hl
    have hlevel := (Option.filter_eq_some_iff.1 hop).2
    exact ⟨op, rfl, by rw [of_decide_eq_true hlevel]⟩
  have hlogical : ∀ o : LogicalOp, (ofLogical o).node? k = some node →
      ∃ op : LogicalOp, node = Expr.logical op ∧ ofLogical o = ofLogical op := by
    intro o ho
    rw [node?_ofLogical] at ho
    obtain ⟨op, hop, rfl⟩ := Option.map_eq_some_iff.1 ho
    have hlevel := (Option.filter_eq_some_iff.1 hop).2
    exact ⟨op, rfl, by rw [of_decide_eq_true hlevel]⟩
  cases level with
  | primary => simp [node?] at h
  | multiplicative => exact .inr (hbinary .multiplicative h)
  | additive => exact .inr (hbinary .additive h)
  | relational => exact .inr (hbinary .relational h)
  | equality => exact .inr (hbinary .equality h)
  | conjunction => exact .inl (hlogical .and h)
  | disjunction => exact .inl (hlogical .or h)
  | assignment => simp [node?] at h

/-- The level of the left operand: that of the operator itself in a chain. -/
def Level.left (level : Level) : Level :=
  if level.chains then level else level.operand

theorem wellFormed_node {level : Level} {k : Kind} {node : Expr → Expr → Expr}
    (hnode : level.node? k = some node) {l r : Expr} (hl : l.Within level.left)
    (hr : r.Within level.operand) (hl' : l.WellFormed) (hr' : r.WellFormed) :
    (node l r).WellFormed ∧ (node l r).Within level := by
  rcases Level.node?_eq_some hnode with ⟨op, rfl, rfl⟩ | ⟨op, rfl, rfl⟩
  · cases op with
    | and => exact ⟨.and hl hr hl' hr', Nat.le_refl _⟩
    | or => exact ⟨.or hl hr hl' hr', Nat.le_refl _⟩
  · rw [Expr.Within, Expr.level]
    cases hop : op.level with
    | equality =>
        rw [hop] at hl hr
        exact ⟨.equality hop hl hr hl' hr', Nat.le_refl _⟩
    | relational =>
        rw [hop] at hl hr
        exact ⟨.relational hop hl hr hl' hr', Nat.le_refl _⟩
    | additive =>
        rw [hop] at hl hr
        exact ⟨.additive hop hl hr hl' hr', Nat.le_refl _⟩
    | multiplicative =>
        rw [hop] at hl hr
        exact ⟨.multiplicative hop hl hr hl' hr', Nat.le_refl _⟩

theorem Level.rank_operand_le (level : Level) : level.operand.rank ≤ level.rank := by
  cases level <;> decide

theorem Phrase.wellFormed {level : Level} {w : List Token} {e : Expr} (h : Phrase level w e)
    (hw : ∀ t ∈ w, t.Spelled) : e.WellFormed ∧ e.Within level := by
  induction h with
  | terminal ht =>
      exact ⟨ht.wellFormed (hw _ List.mem_cons_self), Nat.le_of_eq (congrArg Level.rank ht.level)⟩
  | group _ _ _ ih => exact ⟨.group (ih fun t ht => hw t (by simp [ht])).1, Nat.le_refl _⟩
  | @tighter level _ _ _ ih =>
      exact ⟨(ih hw).1, Nat.le_trans (ih hw).2 level.rank_operand_le⟩
  | chain hlevel hnode _ _ ihl ihr =>
      obtain ⟨hl', hl⟩ := ihl fun t ht => hw t (by simp [ht])
      obtain ⟨hr', hr⟩ := ihr fun t ht => hw t (by simp [ht])
      exact wellFormed_node hnode (by rwa [Level.left, if_pos hlevel]) hr hl' hr'
  | pair hlevel hnode _ _ ihl ihr =>
      obtain ⟨hl', hl⟩ := ihl fun t ht => hw t (by simp [ht])
      obtain ⟨hr', hr⟩ := ihr fun t ht => hw t (by simp [ht])
      exact wellFormed_node hnode (by rwa [Level.left, hlevel]) hr hl' hr'
  | assign hx _ _ ih =>
      have hname := hw _ List.mem_cons_self
      rw [Token.Spelled, hx] at hname
      exact ⟨.assign hname (ih fun t ht => hw t (by simp [ht])).1, Nat.le_refl _⟩

theorem Entry.wellFormed {w : List Token} {d : Declaration} (h : Entry w d)
    (hw : ∀ t ∈ w, t.Spelled) : d.WellFormed := by
  cases h with
  | bare hx =>
      have hname := hw _ List.mem_cons_self
      rw [Token.Spelled, hx] at hname
      exact ⟨hname, nofun⟩
  | initialized hx _ he =>
      have hname := hw _ List.mem_cons_self
      rw [Token.Spelled, hx] at hname
      refine ⟨hname, fun e heq => ?_⟩
      cases heq
      exact (he.wellFormed fun t ht => hw t (by simp [ht])).1

theorem Entries.wellFormed {w : List Token} {ds : List Declaration} (h : Entries w ds)
    (hw : ∀ t ∈ w, t.Spelled) : ds ≠ [] ∧ ∀ d ∈ ds, d.WellFormed := by
  induction h with
  | last hd =>
      refine ⟨List.cons_ne_nil _ _, fun d hmem => ?_⟩
      rw [List.mem_singleton.1 hmem]
      exact hd.wellFormed hw
  | more hd _ _ ih =>
      refine ⟨List.cons_ne_nil _ _, fun d hmem => ?_⟩
      cases hmem with
      | head => exact hd.wellFormed fun t ht => hw t (by simp [ht])
      | tail _ hmem => exact (ih fun t ht => hw t (by simp [ht])).2 d hmem

mutual

theorem Sentence.wellFormed {w : List Token} {s : Stmt} (h : Sentence w s)
    (hw : ∀ t ∈ w, t.Spelled) : s.WellFormed := by
  match h with
  | .block _ hbody _ => exact .block (hbody.wellFormed fun t ht => hw t (by simp [ht]))
  | .declare _ hds =>
      have h' := hds.wellFormed fun t ht => hw t (by simp [ht])
      exact .declare h'.1 h'.2
  | .conditional _ hc _ hs =>
      exact .conditional (hc.wellFormed fun t ht => hw t (by simp [ht])).1
        (hs.wellFormed fun t ht => hw t (by simp [ht]))
  | .alternative _ hc _ hs hopen _ ha =>
      exact .alternative (hc.wellFormed fun t ht => hw t (by simp [ht])).1
        (hs.wellFormed fun t ht => hw t (by simp [ht])) hopen
        (ha.wellFormed fun t ht => hw t (by simp [ht]))
  | .expression he => exact .expression (he.wellFormed hw).1

theorem Sentences.wellFormed {w : List Token} {ss : List Stmt} (h : Sentences w ss)
    (hw : ∀ t ∈ w, t.Spelled) : ∀ s ∈ ss, s.WellFormed := by
  match h with
  | .nil => exact fun s hs => absurd hs List.not_mem_nil
  | .cons hs hss =>
      intro s hmem
      cases hmem with
      | head => exact hs.wellFormed fun t ht => hw t (by simp [ht])
      | tail _ hmem => exact hss.wellFormed (fun t ht => hw t (by simp [ht])) s hmem

end

end Grammar

/-! ## What is well-formed is derived -/

theorem AssignOp.exists_kind (op : AssignOp) :
    ∃ k : Kind, k.isFixed = true ∧ assignment? k = some op := by
  cases op with
  | assign => exact ⟨.assign, rfl, rfl⟩
  | add => exact ⟨.plusAssign, rfl, rfl⟩
  | sub => exact ⟨.minusAssign, rfl, rfl⟩
  | mul => exact ⟨.starAssign, rfl, rfl⟩
  | div => exact ⟨.slashAssign, rfl, rfl⟩

theorem LogicalOp.exists_kind (op : LogicalOp) :
    ∃ k : Kind, k.isFixed = true ∧ (Level.ofLogical op).node? k = some (.logical op) := by
  cases op with
  | and => exact ⟨.and, rfl, rfl⟩
  | or => exact ⟨.or, rfl, rfl⟩

theorem BinaryOp.exists_kind (op : BinaryOp) :
    ∃ k : Kind, k.isFixed = true ∧ (Level.ofBinary op.level).node? k = some (.binary op) := by
  cases op with
  | add => exact ⟨.plus, rfl, rfl⟩
  | sub => exact ⟨.minus, rfl, rfl⟩
  | mul => exact ⟨.star, rfl, rfl⟩
  | div => exact ⟨.slash, rfl, rfl⟩
  | mod => exact ⟨.percent, rfl, rfl⟩
  | equal => exact ⟨.equal, rfl, rfl⟩
  | notEqual => exact ⟨.notEqual, rfl, rfl⟩
  | less => exact ⟨.less, rfl, rfl⟩
  | lessEqual => exact ⟨.lessEqual, rfl, rfl⟩
  | greater => exact ⟨.greater, rfl, rfl⟩
  | greaterEqual => exact ⟨.greaterEqual, rfl, rfl⟩

namespace Grammar

theorem Level.rank_injective {l m : Level} (h : l.rank = m.rank) : l = m := by
  cases l <;> cases m <;> first | rfl | cases h

theorem Level.rank_operand {level : Level} {n : Nat} (h : level.rank = n + 1) :
    level.operand.rank = n := by
  cases level <;> cases h <;> rfl

/-- A phrase of a level is one of every looser level. -/
theorem Phrase.widen {level level' : Level} {w : List Token} {e : Expr} (h : Phrase level w e)
    (hle : level.rank ≤ level'.rank) : Phrase level' w e := by
  induction hn : level'.rank generalizing level' with
  | zero => exact Level.rank_injective (l := level) (m := level') (by omega) ▸ h
  | succ n ih =>
      by_cases hlt : level.rank ≤ n
      · have hrank := Level.rank_operand hn
        exact .tighter (ih (by omega) hrank)
      · exact Level.rank_injective (l := level) (m := level') (by omega) ▸ h

end Grammar

/-- The expression is derived from tokens that can be written down. -/
def Expr.HasPhrase (e : Expr) : Prop :=
  ∃ w, Phrase e.level w e ∧ ∀ t ∈ w, t.Writable

namespace Expr.HasPhrase

variable {e l r : Expr}

theorem terminal {t : Token} (h : Terminal t e) (ht : t.Writable) : e.HasPhrase := by
  refine ⟨[t], ?_, fun x hx => List.mem_singleton.1 hx ▸ ht⟩
  rw [h.level]
  exact .terminal h

theorem assign {x : String} (op : AssignOp) (hx : IsName x) (h : e.HasPhrase) :
    (Expr.assign op x e).HasPhrase := by
  obtain ⟨w, hw, hwritable⟩ := h
  obtain ⟨k, hk, hop⟩ := op.exists_kind
  have hvalue : Phrase .assignment w e := hw.widen (by cases e.level <;> decide)
  refine ⟨⟨.ident, x, ⟨1, 1⟩⟩ :: k.token :: w, .assign rfl hop hvalue, fun t ht => ?_⟩
  cases ht with
  | head => exact Token.writable_ident hx _
  | tail _ ht =>
      cases ht with
      | head => exact Kind.writable_token hk
      | tail _ ht => exact hwritable t ht

theorem group (h : e.HasPhrase) : (Expr.group e).HasPhrase := by
  obtain ⟨w, hw, hwritable⟩ := h
  have hinner : Phrase .assignment w e := hw.widen (by cases e.level <;> decide)
  refine ⟨Kind.leftParen.token :: (w ++ [Kind.rightParen.token]), .group rfl hinner rfl,
    fun t ht => ?_⟩
  cases ht with
  | head => exact Kind.writable_token rfl
  | tail _ ht =>
      rcases List.mem_append.1 ht with ht | ht
      · exact hwritable t ht
      · rw [List.mem_singleton.1 ht]
        exact Kind.writable_token rfl

/-- Operands of the right levels can be written down with an operator between them. -/
theorem node {level : Level} {k : Kind} {node : Expr → Expr → Expr} (hk : k.isFixed = true)
    (hnode : level.node? k = some node) (hlevel : (node l r).level = level)
    (hl : l.Within level.left) (hr : r.Within level.operand) (hl' : l.HasPhrase)
    (hr' : r.HasPhrase) : (node l r).HasPhrase := by
  obtain ⟨w, hw, hwritable⟩ := hl'
  obtain ⟨v, hv, hwritable'⟩ := hr'
  have hleft : Phrase level.left w l := hw.widen hl
  have hright : Phrase level.operand v r := hv.widen hr
  refine ⟨w ++ k.token :: v, ?_, fun t ht => ?_⟩
  · rw [hlevel]
    cases hchains : level.chains with
    | true => exact .chain hchains hnode (by rwa [Level.left, if_pos hchains] at hleft) hright
    | false =>
        rw [Level.left, hchains] at hleft
        exact .pair hchains hnode hleft hright
  · rcases List.mem_append.1 ht with ht | ht
    · exact hwritable t ht
    · cases ht with
      | head => exact Kind.writable_token hk
      | tail _ ht => exact hwritable' t ht

theorem logical {op : LogicalOp} (hl : l.Within (Level.ofLogical op).left)
    (hr : r.Within (Level.ofLogical op).operand) (hl' : l.HasPhrase) (hr' : r.HasPhrase) :
    (Expr.logical op l r).HasPhrase := by
  obtain ⟨k, hk, hnode⟩ := op.exists_kind
  exact node hk hnode (by cases op <;> rfl) hl hr hl' hr'

theorem binary {op : BinaryOp} {level : BinaryOp.Level} (hop : op.level = level)
    (hl : l.Within (Level.ofBinary level).left) (hr : r.Within (Level.ofBinary level).operand)
    (hl' : l.HasPhrase) (hr' : r.HasPhrase) : (Expr.binary op l r).HasPhrase := by
  subst hop
  obtain ⟨k, hk, hnode⟩ := op.exists_kind
  exact node hk hnode (by cases op <;> rfl) hl hr hl' hr'

end Expr.HasPhrase

/-- Every well-formed expression is derived from tokens that can be written down. -/
theorem Expr.WellFormed.hasPhrase {e : Expr} (h : e.WellFormed) : e.HasPhrase := by
  induction h with
  | @assign op _ _ hx _ ih => exact .assign op hx ih
  | or hl hr _ _ ihl ihr => exact .logical  hl hr ihl ihr
  | and hl hr _ _ ihl ihr => exact .logical  hl hr ihl ihr
  | equality hop hl hr _ _ ihl ihr => exact .binary hop hl hr ihl ihr
  | relational hop hl hr _ _ ihl ihr => exact .binary hop hl hr ihl ihr
  | additive hop hl hr _ _ ihl ihr => exact .binary hop hl hr ihl ihr
  | multiplicative hop hl hr _ _ ihl ihr => exact .binary hop hl hr ihl ihr
  | group _ ih => exact ih.group
  | @ident x hx => exact .terminal (t := ⟨.ident, x, ⟨1, 1⟩⟩) (.ident rfl) (Token.writable_ident hx _)
  | int hv =>
      obtain ⟨hs, hvalue⟩ := Numeral.int64?_toString hv
      exact .terminal (t := ⟨.int, _, ⟨1, 1⟩⟩) (.int rfl hvalue) (Token.writable_int hs _)
  | @float s _ hs hvalue hfin =>
      exact .terminal (t := ⟨.float, s, ⟨1, 1⟩⟩) (.float rfl hvalue hfin) (Token.writable_float hs _)
  | @string s hquote hline =>
      let t : Token := ⟨.string, String.ofList ('"' :: (s.toList ++ ['"'])), ⟨1, 1⟩⟩
      have hwritable : t.Writable :=
        Token.writable_string ⟨s.toList, String.toList_ofList, hquote, hline⟩ _
      exact .terminal (t := t) (.string rfl (.of_body s)) hwritable
  | @bool b =>
      cases b with
      | true => exact .terminal (t := Kind.trueWord.token) (.trueWord rfl) (Kind.writable_token rfl)
      | false => exact .terminal (t := Kind.falseWord.token) (.falseWord rfl) (Kind.writable_token rfl)
  | nil => exact .terminal (t := Kind.nilWord.token) (.nilWord rfl) (Kind.writable_token rfl)

/-- The token has a line of its own: its text, or none for a change of indentation. -/
def Token.Placeable (t : Token) : Prop :=
  t.kind = .indent ∨ t.kind = .dedent ∨ t.Writable

theorem Kind.placeable_token {k : Kind} (h : k.isFixed = true) : k.token.Placeable :=
  .inr (.inr (writable_token h))

theorem Expr.WellFormed.exists_phrase {e : Expr} (h : e.WellFormed) :
    ∃ w, Phrase .assignment w e ∧ ∀ t ∈ w, t.Placeable := by
  obtain ⟨w, hw, hwritable⟩ := h.hasPhrase
  exact ⟨w, hw.widen (by cases e.level <;> decide), fun t ht => .inr (.inr (hwritable t ht))⟩

theorem Declaration.WellFormed.exists_entry {d : Declaration} (h : d.WellFormed) :
    ∃ w, Entry w d ∧ ∀ t ∈ w, t.Placeable := by
  obtain ⟨name, initializer⟩ := d
  have hname : Token.Placeable ⟨.ident, name, ⟨1, 1⟩⟩ :=
    .inr (.inr (Token.writable_ident h.name _))
  cases initializer with
  | none => exact ⟨[⟨.ident, name, ⟨1, 1⟩⟩], .bare rfl, by simpa using hname⟩
  | some e =>
      obtain ⟨w, hw, hplaceable⟩ := (h.initializer e rfl).exists_phrase
      refine ⟨⟨.ident, name, ⟨1, 1⟩⟩ :: Kind.assign.token :: w, .initialized rfl rfl hw, ?_⟩
      simp only [List.forall_mem_cons]
      exact ⟨hname, Kind.placeable_token rfl, hplaceable⟩

theorem exists_entries {ds : List Declaration} (hne : ds ≠ []) (h : ∀ d ∈ ds, d.WellFormed) :
    ∃ w, Entries w ds ∧ ∀ t ∈ w, t.Placeable := by
  induction ds with
  | nil => exact absurd rfl hne
  | cons d ds ih =>
      obtain ⟨w, hw, hplaceable⟩ := (h d List.mem_cons_self).exists_entry
      cases ds with
      | nil => exact ⟨w, .last hw, hplaceable⟩
      | cons d' ds =>
          obtain ⟨v, hv, hplaceable'⟩ :=
            ih (List.cons_ne_nil _ _) fun x hx => h x (List.mem_cons_of_mem d hx)
          refine ⟨w ++ Kind.comma.token :: v, .more hw rfl hv, ?_⟩
          simp only [List.forall_mem_append, List.forall_mem_cons]
          exact ⟨hplaceable, Kind.placeable_token rfl, hplaceable'⟩

/-- The statement is derived from tokens that can be laid out. -/
def Stmt.HasSentence (s : Stmt) : Prop :=
  ∃ w, Sentence w s ∧ ∀ t ∈ w, t.Placeable

theorem exists_sentences {ss : List Stmt} (h : ∀ s ∈ ss, s.HasSentence) :
    ∃ w, Sentences w ss ∧ ∀ t ∈ w, t.Placeable := by
  induction ss with
  | nil => exact ⟨[], .nil, fun t ht => absurd ht List.not_mem_nil⟩
  | cons s ss ih =>
      obtain ⟨w, hw, hplaceable⟩ := h s List.mem_cons_self
      obtain ⟨v, hv, hplaceable'⟩ := ih fun x hx => h x (List.mem_cons_of_mem s hx)
      exact ⟨w ++ v, .cons hw hv, List.forall_mem_append.2 ⟨hplaceable, hplaceable'⟩⟩

/-- Every well-formed statement is derived from tokens that can be laid out. -/
theorem Stmt.WellFormed.hasSentence {s : Stmt} (h : s.WellFormed) : s.HasSentence := by
  induction h with
  | block _ ih =>
      obtain ⟨w, hw, hplaceable⟩ := exists_sentences ih
      refine ⟨⟨.indent, "", ⟨1, 1⟩⟩ :: (w ++ [⟨.dedent, "", ⟨1, 1⟩⟩]), .block rfl hw rfl, ?_⟩
      simp only [List.forall_mem_cons, List.forall_mem_append]
      exact ⟨.inl rfl, hplaceable, .inr (.inl rfl), fun t ht => absurd ht List.not_mem_nil⟩
  | declare hne hds =>
      obtain ⟨w, hw, hplaceable⟩ := exists_entries hne hds
      refine ⟨Kind.letWord.token :: w, .declare rfl hw, ?_⟩
      exact List.forall_mem_cons.2 ⟨Kind.placeable_token rfl, hplaceable⟩
  | conditional hc _ ih =>
      obtain ⟨w, hw, hplaceable⟩ := hc.exists_phrase
      obtain ⟨v, hv, hplaceable'⟩ := ih
      refine ⟨Kind.ifWord.token :: (w ++ Kind.thenWord.token :: v), .conditional rfl hw rfl hv, ?_⟩
      simp only [List.forall_mem_cons, List.forall_mem_append]
      exact ⟨Kind.placeable_token rfl, hplaceable, Kind.placeable_token rfl, hplaceable'⟩
  | alternative hc _ hopen _ ihs iha =>
      obtain ⟨w, hw, hplaceable⟩ := hc.exists_phrase
      obtain ⟨v, hv, hplaceable'⟩ := ihs
      obtain ⟨u, hu, hplaceable''⟩ := iha
      refine ⟨Kind.ifWord.token :: (w ++ Kind.thenWord.token :: (v ++ Kind.elseWord.token :: u)),
        .alternative rfl hw rfl hv hopen rfl hu, ?_⟩
      simp only [List.forall_mem_cons, List.forall_mem_append]
      exact ⟨Kind.placeable_token rfl, hplaceable, Kind.placeable_token rfl, hplaceable',
        Kind.placeable_token rfl, hplaceable''⟩
  | expression he =>
      obtain ⟨w, hw, hplaceable⟩ := he.exists_phrase
      exact ⟨w, .expression hw, hplaceable⟩

end IndentScript
