import IndentScript.Proofs.Numerals
import IndentScript.Proofs.Terms

/-!
# What a written tree says

A tree is written as a term, and a term can be told from its text. So a written tree can be read
back but for one thing: a declaration without a first value is written like one whose first value is
the name `None`. Two programs that are read from sources are written alike just if they are equal
once such first values are taken away.
-/

namespace IndentScript

/-! ## Trees as terms -/

def Expr.term : Expr → Term
  | assign op target value =>
    .node "AssignmentExpression" [.word op.symbol, .word target, value.term]
  | logical op left right => .node "LogicalExpression" [.word op.symbol, left.term, right.term]
  | binary op left right => .node "BinaryExpression" [.word op.symbol, left.term, right.term]
  | group inner => .node "GroupedExpression" [inner.term]
  | ident name => .word name
  | int value => .word (toString value.toInt)
  | float value => .word value.render
  | string value => .quoted value
  | bool value => .word (if value then "true" else "false")
  | nil => .word "nil"

def Declaration.term (d : Declaration) : Term :=
  let initializer := match d.initializer with
    | some e => e.term
    | none => .word "None"
  .node "VariableDeclaration" [.word d.name, initializer]

namespace Stmt

mutual

def term : Stmt → Term
  | block body => .node "Block" [.list (terms body)]
  | declare ds => .node "VariableStatement" [.list (ds.map Declaration.term)]
  | conditional c s none => .node "If" [c.term, s.term, .word "None"]
  | conditional c s (some a) => .node "If" [c.term, s.term, a.term]
  | expression e => .node "ExprStmt" [e.term]

def terms : List Stmt → List Term
  | [] => []
  | s :: rest => s.term :: terms rest

end

end Stmt

def Program.term (p : Program) : Term :=
  .node "Program" [.list (Stmt.terms p.statements)]

theorem Term.charsAll_eq : ∀ ts : List Term,
    charsAll ts = List.intercalate [',', ' '] (ts.map chars)
  | [] => rfl
  | [t] => by simp [charsAll, List.intercalate]
  | t :: u :: rest => by
      have := charsAll_eq (u :: rest)
      simp [charsAll, this, List.intercalate]

theorem toList_renderNode (name : String) {texts : List String} {parts : List Term}
    (h : texts.map String.toList = parts.map Term.chars) :
    (renderNode name texts).toList = (Term.node name parts).chars := by
  simp [renderNode, Term.chars, Term.charsAll_eq, String.toList_intercalate, h]

theorem toList_renderList {texts : List String} {items : List Term}
    (h : texts.map String.toList = items.map Term.chars) :
    (renderList texts).toList = (Term.list items).chars := by
  simp [renderList, Term.chars, Term.charsAll_eq, String.toList_intercalate, h]

theorem Expr.toList_render (e : Expr) : e.render.toList = e.term.chars := by
  induction e with
  | assign op target value ih => exact toList_renderNode _ (by simp [Term.chars, ih])
  | logical op left right ihl ihr => exact toList_renderNode _ (by simp [Term.chars, ihl, ihr])
  | binary op left right ihl ihr => exact toList_renderNode _ (by simp [Term.chars, ihl, ihr])
  | group inner ih => exact toList_renderNode _ (by simp [ih])
  | string value => simp [render, term, Term.chars]
  | ident | int | float | bool | nil => rfl

theorem Declaration.toList_render (d : Declaration) : d.render.toList = d.term.chars := by
  refine toList_renderNode _ ?_
  cases d.initializer with
  | none => rfl
  | some e => simp [Term.chars, e.toList_render]

namespace Stmt

mutual

theorem toList_render : (s : Stmt) → s.render.toList = s.term.chars
  | block body =>
      toList_renderNode _ (congrArg ([·]) (toList_renderList (toList_renderAll body)))
  | declare ds => by
      have hds : (ds.map Declaration.render).map String.toList =
          (ds.map Declaration.term).map Term.chars := by
        simp [Declaration.toList_render]
      exact toList_renderNode _ (congrArg ([·]) (toList_renderList hds))
  | conditional c s none =>
      toList_renderNode _ (by simp [Term.chars, c.toList_render, toList_render s])
  | conditional c s (some a) =>
      toList_renderNode _ (by simp [c.toList_render, toList_render s, toList_render a])
  | expression e => toList_renderNode _ (by simp [e.toList_render])

theorem toList_renderAll : (ss : List Stmt) →
    (renderAll ss).map String.toList = (terms ss).map Term.chars
  | [] => rfl
  | s :: rest => congrArg₂ (· :: ·) (toList_render s) (toList_renderAll rest)

end

end Stmt

theorem Program.toList_render (p : Program) : p.render.toList = p.term.chars :=
  toList_renderNode _ (congrArg ([·]) (toList_renderList (Stmt.toList_renderAll p.statements)))

/-! ## The words of a tree -/

namespace Term

theorem isMark_eq_false {c : Char} (h : (c.isAlphanum || c = '_' || c = '.' || c = '-') = true) :
    isMark c = false := by
  rw [← Bool.not_eq_true]
  intro hc
  simp only [isMark, Bool.or_eq_true, decide_eq_true_eq] at hc
  rcases hc with ((((rfl | rfl) | rfl) | rfl) | rfl) | rfl <;> exact absurd h (by decide)

theorem isWord_of_test {s : String}
    (h : (!s.toList.isEmpty && s.toList.all fun c => !isMark c) = true) : IsWord s := by
  simp only [Bool.and_eq_true, Bool.not_eq_true', List.isEmpty_eq_false_iff, List.all_eq_true] at h
  exact ⟨h.1, h.2⟩

theorem isWord_of_isName {s : String} (h : IsName s) : IsWord s := by
  obtain ⟨c, rest, hs, hc, hrest⟩ := h.shape
  refine ⟨by rw [hs]; exact List.cons_ne_nil c rest, ?_⟩
  rw [hs]
  intro d hd
  apply isMark_eq_false
  cases hd with
  | head =>
      simp only [Bool.or_eq_true, decide_eq_true_eq] at hc
      rcases hc with hc | hc <;> simp [Char.isAlphanum, hc]
  | tail _ hd =>
      have := hrest d hd
      simp only [Bool.or_eq_true, decide_eq_true_eq] at this
      rcases this with hd | hd <;> simp [hd]

theorem isWord_of_areDigits {s : String} (h : AreDigits s.toList) : IsWord s :=
  ⟨h.ne_nil, fun c hc => isMark_eq_false (by simp [Char.isAlphanum, h.isDigit c hc])⟩

theorem isWord_of_reads {s : String} {d : Decimal} (h : Numeral.Reads s.toList d) : IsWord s := by
  obtain ⟨c, rest, hs, -⟩ := h.starts
  refine ⟨by rw [hs]; exact List.cons_ne_nil c rest, fun c hc => isMark_eq_false ?_⟩
  rcases h.chars c hc with hc | rfl | rfl | rfl
  · simp [Char.isAlphanum, hc]
  all_goals decide

end Term

open Term

theorem AssignOp.isWord_symbol (op : AssignOp) : IsWord op.symbol :=
  isWord_of_test (by cases op <;> decide)

theorem LogicalOp.isWord_symbol (op : LogicalOp) : IsWord op.symbol :=
  isWord_of_test (by cases op <;> decide)

theorem BinaryOp.isWord_symbol (op : BinaryOp) : IsWord op.symbol :=
  isWord_of_test (by cases op <;> decide)

/-- The names of the nodes, and the words that are no names. -/
theorem isWord_fixed : ∀ s ∈ ["AssignmentExpression", "LogicalExpression", "BinaryExpression",
    "GroupedExpression", "VariableDeclaration", "Block", "VariableStatement", "If", "ExprStmt",
    "Program", "None", "true", "false", "nil"], IsWord s := by
  intro s hs
  refine isWord_of_test ?_
  revert s
  decide

theorem Expr.WellFormed.clear {e : Expr} (h : e.WellFormed) : e.term.Clear := by
  induction h with
  | @assign op _ _ hx _ ih =>
      refine .node (isWord_fixed _ (by simp)) ?_
      simpa using ⟨.word op.isWord_symbol, .word (isWord_of_isName hx), ih⟩
  | group _ ih => exact .node (isWord_fixed _ (by simp)) (by simpa using ih)
  | ident hx => exact .word (isWord_of_isName hx)
  | int hv => exact .word (isWord_of_areDigits (Numeral.int64?_toString hv).1)
  | float hs hv hfinite =>
      obtain ⟨rank, rfl⟩ := Numeral.exists_rank_of_isFraction hs hv hfinite
      obtain ⟨d, hread, -⟩ := Binary64.reads_render rank
      exact .word (isWord_of_reads hread)
  | string hquote _ => exact .quoted hquote
  | @bool b => cases b <;> exact .word (isWord_fixed _ (by simp))
  | nil => exact .word (isWord_fixed _ (by simp))
  | or _ _ _ _ ihl ihr | and _ _ _ _ ihl ihr =>
      refine .node (isWord_fixed _ (by simp)) ?_
      simpa using ⟨.word (LogicalOp.isWord_symbol _), ihl, ihr⟩
  | equality _ _ _ _ _ ihl ihr | relational _ _ _ _ _ ihl ihr | additive _ _ _ _ _ ihl ihr
  | multiplicative _ _ _ _ _ ihl ihr =>
      refine .node (isWord_fixed _ (by simp)) ?_
      simpa using ⟨.word (BinaryOp.isWord_symbol _), ihl, ihr⟩

theorem Declaration.WellFormed.clear {d : Declaration} (h : d.WellFormed) : d.term.Clear := by
  refine .node (isWord_fixed _ (by simp)) ?_
  rw [List.forall_mem_cons, List.forall_mem_singleton]
  refine ⟨.word (isWord_of_isName h.name), ?_⟩
  cases hd : d.initializer with
  | none => exact .word (isWord_fixed _ (by simp))
  | some e => exact (h.initializer e hd).clear

theorem Stmt.clear_terms {ss : List Stmt} (h : ∀ s ∈ ss, s.term.Clear) :
    ∀ t ∈ terms ss, t.Clear := by
  induction ss with
  | nil => exact fun t ht => absurd ht List.not_mem_nil
  | cons s ss ih =>
      rw [terms, List.forall_mem_cons]
      exact ⟨h s List.mem_cons_self, ih fun t ht => h t (List.mem_cons_of_mem s ht)⟩

theorem Stmt.WellFormed.clear {s : Stmt} (h : s.WellFormed) : s.term.Clear := by
  induction h with
  | block _ ih =>
      refine .node (isWord_fixed _ (by simp)) ?_
      simpa using Clear.list (Stmt.clear_terms ih)
  | declare _ hds =>
      refine .node (isWord_fixed _ (by simp)) ?_
      simpa using Clear.list (by simpa using fun d hd => (hds d hd).clear)
  | conditional hc _ ih =>
      refine .node (isWord_fixed _ (by simp)) ?_
      simpa using ⟨hc.clear, ih, .word (isWord_fixed _ (by simp))⟩
  | alternative hc _ _ _ ihs iha =>
      refine .node (isWord_fixed _ (by simp)) ?_
      simpa using ⟨hc.clear, ihs, iha⟩
  | expression he =>
      refine .node (isWord_fixed _ (by simp)) ?_
      simpa using he.clear

theorem Program.WellFormed.clear {p : Program} (h : p.WellFormed) : p.term.Clear := by
  refine .node (isWord_fixed _ (by simp)) ?_
  simpa using Clear.list (Stmt.clear_terms fun s hs => (h s hs).clear)

/-! ## Reading terms -/

namespace Expr

/-- The expression that a word is: by its first character a number, and else a name unless it is one
of the words for values. -/
def ofWord? (s : String) : Option Expr :=
  if s.toList.head?.any Char.isDigit then
    (Numeral.int64? s).map .int <|> (Numeral.binary64? s).map .float
  else if s = "true" then some (.bool true)
  else if s = "false" then some (.bool false)
  else if s = "nil" then some .nil
  else some (.ident s)

def ofTerm? : Term → Option Expr
  | .word text => ofWord? text
  | .quoted text => some (.string text)
  | .node "AssignmentExpression" [.word op, .word target, value] => do
    return .assign (← AssignOp.ofSymbol? op) target (← ofTerm? value)
  | .node "LogicalExpression" [.word op, left, right] => do
    return .logical (← LogicalOp.ofSymbol? op) (← ofTerm? left) (← ofTerm? right)
  | .node "BinaryExpression" [.word op, left, right] => do
    return .binary (← BinaryOp.ofSymbol? op) (← ofTerm? left) (← ofTerm? right)
  | .node "GroupedExpression" [inner] => do return .group (← ofTerm? inner)
  | _ => none

theorem ofWord?_ident {x : String} (hx : IsName x) : ofWord? x = some (.ident x) := by
  obtain ⟨c, rest, htext, hc, -⟩ := hx.shape
  have hdigit : ¬c.isDigit = true := fun h => Lexeme.not_startsWord_of_isDigit h hc
  have hne : ∀ w ∈ reservedWords, x ≠ w := fun w hw h => hx.not_reserved (h ▸ hw)
  rw [ofWord?, htext]
  simp [hdigit, hne "true" (by decide), hne "false" (by decide), hne "nil" (by decide)]

theorem ofWord?_int {v : Int64} (hv : 0 ≤ v.toInt) :
    ofWord? (toString v.toInt) = some (.int v) := by
  obtain ⟨hdigits, hvalue⟩ := Numeral.int64?_toString hv
  obtain ⟨c, rest, htext, hc⟩ := Numeral.starts_append hdigits []
  rw [List.append_nil] at htext
  rw [ofWord?, hvalue, htext]
  simp [hc]

theorem ofWord?_float (rank : Fin Binary64.rankBound) :
    ofWord? (Binary64.render (.finite false rank)) = some (.float (.finite false rank)) := by
  obtain ⟨d, hread, -⟩ := Binary64.reads_render rank
  obtain ⟨c, rest, htext, hc⟩ := hread.starts
  rw [ofWord?, hread.int64?_eq_none, Binary64.binary64?_render rfl, htext]
  simp [hc]

theorem WellFormed.ofTerm?_term {e : Expr} (h : e.WellFormed) : ofTerm? e.term = some e := by
  induction h with
  | assign _ _ ih => simp [term, ofTerm?, AssignOp.ofSymbol?_symbol, ih]
  | or _ _ _ _ ihl ihr | and _ _ _ _ ihl ihr =>
      simp [term, ofTerm?, LogicalOp.ofSymbol?_symbol, ihl, ihr]
  | equality _ _ _ _ _ ihl ihr | relational _ _ _ _ _ ihl ihr | additive _ _ _ _ _ ihl ihr
  | multiplicative _ _ _ _ _ ihl ihr =>
      simp [term, ofTerm?, BinaryOp.ofSymbol?_symbol, ihl, ihr]
  | group _ ih => simp [term, ofTerm?, ih]
  | ident hx => exact ofWord?_ident hx
  | int hv => exact ofWord?_int hv
  | float hs hv hfinite =>
      obtain ⟨rank, rfl⟩ := Numeral.exists_rank_of_isFraction hs hv hfinite
      exact ofWord?_float rank
  | string => rfl
  | @bool b => cases b <;> decide
  | nil => decide

end Expr

/-! ## The name that is written like nothing -/

theorem isName_none : IsName "None" :=
  ⟨⟨'N', ['o', 'n', 'e'], rfl, rfl, by simp⟩, by simp [reservedWords]⟩

namespace Declaration

/-- The declaration without its first value if that is the name `None`. -/
def withoutNone (d : Declaration) : Declaration :=
  if d.initializer = some (.ident "None") then ⟨d.name, none⟩ else d

def ofTerm? : Term → Option Declaration
  | .node "VariableDeclaration" [.word name, .word "None"] => some ⟨name, none⟩
  | .node "VariableDeclaration" [.word name, e] => do return ⟨name, some (← Expr.ofTerm? e)⟩
  | _ => none

theorem WellFormed.ofTerm?_term {d : Declaration} (h : d.WellFormed) :
    ofTerm? d.term = some d.withoutNone := by
  obtain ⟨name, initializer⟩ := d
  cases initializer with
  | none => rfl
  | some e =>
      have hread := (h.initializer e rfl).ofTerm?_term
      by_cases hnone : e = .ident "None"
      · subst hnone
        rfl
      · -- no other expression is written as this word
        have hword : e.term ≠ .word "None" := by
          intro hword
          rw [hword, Expr.ofTerm?, Expr.ofWord?_ident isName_none] at hread
          exact hnone (Option.some.inj hread).symm
        rw [term, ofTerm?, hread, withoutNone, if_neg (by simpa using hnone)]
        · rfl
        · simpa using hword

theorem mapM_ofTerm?_term {ds : List Declaration} (h : ∀ d ∈ ds, d.WellFormed) :
    (ds.map term).mapM ofTerm? = some (ds.map withoutNone) := by
  induction ds with
  | nil => rfl
  | cons d ds ih =>
      have hd := (h d List.mem_cons_self).ofTerm?_term
      have hds := ih fun d' hd' => h d' (List.mem_cons_of_mem d hd')
      simp [hd, hds]

end Declaration

namespace Stmt

mutual

/-- The statement with this done to every declaration in it. -/
def withoutNone : Stmt → Stmt
  | block body => block (withoutNoneAll body)
  | declare ds => declare (ds.map Declaration.withoutNone)
  | conditional c s none => conditional c s.withoutNone none
  | conditional c s (some a) => conditional c s.withoutNone (some a.withoutNone)
  | expression e => expression e

def withoutNoneAll : List Stmt → List Stmt
  | [] => []
  | s :: rest => s.withoutNone :: withoutNoneAll rest

end

mutual

def ofTerm? : Term → Option Stmt
  | .node "Block" [.list body] => do return .block (← ofTerms? body)
  | .node "VariableStatement" [.list ds] => do return .declare (← ds.mapM Declaration.ofTerm?)
  | .node "If" [c, s, .word "None"] => do
    return .conditional (← Expr.ofTerm? c) (← ofTerm? s) none
  | .node "If" [c, s, a] => do
    return .conditional (← Expr.ofTerm? c) (← ofTerm? s) (some (← ofTerm? a))
  | .node "ExprStmt" [e] => do return .expression (← Expr.ofTerm? e)
  | _ => none

def ofTerms? : List Term → Option (List Stmt)
  | [] => some []
  | t :: rest => do return (← ofTerm? t) :: (← ofTerms? rest)

end

theorem ofTerms?_terms {ss : List Stmt} (h : ∀ s ∈ ss, ofTerm? s.term = some s.withoutNone) :
    ofTerms? (terms ss) = some (withoutNoneAll ss) := by
  induction ss with
  | nil => rfl
  | cons s ss ih =>
      have hs := h s List.mem_cons_self
      have hss := ih fun t ht => h t (List.mem_cons_of_mem s ht)
      simp [terms, ofTerms?, withoutNoneAll, hs, hss]

theorem term_ne_word (s : Stmt) (text : String) : s.term ≠ .word text := by
  rcases s with _ | _ | ⟨_, _, _ | _⟩ | _ <;> simp [term]

theorem WellFormed.ofTerm?_term {s : Stmt} (h : s.WellFormed) :
    ofTerm? s.term = some s.withoutNone := by
  induction h with
  | block _ ih => simp [term, ofTerm?, withoutNone, ofTerms?_terms ih]
  | declare _ hds => simp [term, ofTerm?, withoutNone, Declaration.mapM_ofTerm?_term hds]
  | conditional hc _ ih => simp [term, ofTerm?, withoutNone, hc.ofTerm?_term, ih]
  | @alternative _ _ a hc _ _ _ ihs iha =>
      -- an alternate is a node, so it is not taken for the word of a missing one
      rw [withoutNone, term, ofTerm?, hc.ofTerm?_term, ihs, iha]
      · rfl
      · exact a.term_ne_word "None"
  | expression he => simp [term, ofTerm?, withoutNone, he.ofTerm?_term]

end Stmt

namespace Program

def withoutNone (p : Program) : Program :=
  ⟨Stmt.withoutNoneAll p.statements⟩

def ofTerm? : Term → Option Program
  | .node "Program" [.list statements] => do return ⟨← Stmt.ofTerms? statements⟩
  | _ => none

theorem WellFormed.ofTerm?_term {p : Program} (h : p.WellFormed) :
    ofTerm? p.term = some p.withoutNone := by
  have hstatements := Stmt.ofTerms?_terms fun s hs => (h s hs).ofTerm?_term
  simp [term, ofTerm?, withoutNone, hstatements]

end Program

/-- What is taken away does not show. -/
theorem Declaration.render_withoutNone (d : Declaration) : d.withoutNone.render = d.render := by
  rw [withoutNone]
  split
  · next h =>
    rw [render, render, h]
    rfl
  · rfl

namespace Stmt

mutual

theorem render_withoutNone : (s : Stmt) → s.withoutNone.render = s.render
  | block body => by rw [withoutNone, render, render, renderAll_withoutNoneAll body]
  | declare ds => by
      have hds : (ds.map Declaration.withoutNone).map Declaration.render =
          ds.map Declaration.render := by
        simp [Declaration.render_withoutNone]
      rw [withoutNone, render, render, hds]
  | conditional c s none => by rw [withoutNone, render, render, render_withoutNone s]
  | conditional c s (some a) => by
      rw [withoutNone, render, render, render_withoutNone s, render_withoutNone a]
  | expression e => by rw [withoutNone]

theorem renderAll_withoutNoneAll : (ss : List Stmt) →
    renderAll (withoutNoneAll ss) = renderAll ss
  | [] => rfl
  | s :: rest => by
      rw [withoutNoneAll, renderAll, renderAll, render_withoutNone s, renderAll_withoutNoneAll rest]

end

end Stmt

namespace Program

theorem render_withoutNone (p : Program) : p.withoutNone.render = p.render := by
  rw [render, render, withoutNone, Stmt.renderAll_withoutNoneAll]

/-- Well-formed programs are written alike just if the name `None` as a first value is all that they
differ in. -/
theorem WellFormed.render_eq_iff {p q : Program} (hp : p.WellFormed) (hq : q.WellFormed) :
    p.render = q.render ↔ p.withoutNone = q.withoutNone := by
  constructor
  · intro h
    have hterm : p.term = q.term := by
      refine Term.chars_injective hp.clear hq.clear ?_
      rw [← toList_render, ← toList_render, h]
    have hread := hp.ofTerm?_term
    rw [hterm, hq.ofTerm?_term] at hread
    exact (Option.some.inj hread).symm
  · intro h
    rw [← p.render_withoutNone, h, q.render_withoutNone]

end Program

end IndentScript
