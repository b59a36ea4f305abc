import IndentScript.Parser.Expr

/-!
# The grammar

The rules of the language as relations between runs of tokens and trees, with no parser in sight.
Expressions are stratified by level; operators of the two arithmetic levels form chains that are
grouped from the left, and those of the other levels stand at most once. The one ambiguity of the
rules, an `else` after nested conditionals, is settled by a side condition: the consequent of a
conditional with an alternate is not itself open to that `else`.
-/

namespace IndentScript

/-- Whether the statement ends in a conditional without an alternate, so that an `else` right after
it would belong to it. -/
def Stmt.isOpen : Stmt → Bool
  | .conditional _ _ none => true
  | .conditional _ _ (some a) => a.isOpen
  | _ => false

namespace Grammar

/-! ## Levels -/

/-- The levels of expressions, from the tightest to the loosest. -/
inductive Level where
  | primary | multiplicative | additive | relational | equality | conjunction | disjunction
  | assignment
deriving DecidableEq, Repr

namespace Level

/-- The next tighter level, from which an operator of the level takes its operands. -/
def operand : Level → Level
  | primary => primary
  | multiplicative => primary
  | additive => multiplicative
  | relational => additive
  | equality => relational
  | conjunction => equality
  | disjunction => conjunction
  | assignment => disjunction

/-- The levels whose operators form chains. -/
def chains : Level → Bool
  | multiplicative | additive => true
  | _ => false

/-- The node that an operator of the level makes of its two operands. -/
def node? : Level → Kind → Option (Expr → Expr → Expr)
  | multiplicative, .star => some (.binary .mul)
  | multiplicative, .slash => some (.binary .div)
  | multiplicative, .percent => some (.binary .mod)
  | additive, .plus => some (.binary .add)
  | additive, .minus => some (.binary .sub)
  | relational, .less => some (.binary .less)
  | relational, .lessEqual => some (.binary .lessEqual)
  | relational, .greater => some (.binary .greater)
  | relational, .greaterEqual => some (.binary .greaterEqual)
  | equality, .equal => some (.binary .equal)
  | equality, .is => some (.binary .equal)
  | equality, .notEqual => some (.binary .notEqual)
  | equality, .not => some (.binary .notEqual)
  | conjunction, .and => some (.logical .and)
  | disjunction, .or => some (.logical .or)
  | _, _ => none

end Level

/-- The operator of an assignment that a token of the kind stands for. -/
def assignment? : Kind → Option AssignOp
  | .assign => some .assign
  | .plusAssign => some .add
  | .minusAssign => some .sub
  | .starAssign => some .mul
  | .slashAssign => some .div
  | _ => none

/-! ## Expressions -/

/-- `StringValue text value`: what the text of a string token stands for. A text with a quote at
each end stands for what is between them, and any other for itself; one quote is not two. -/
inductive StringValue (text : String) : String → Prop where
  | quoted {body} : text.toList = '"' :: (body ++ ['"']) → StringValue text (String.ofList body)
  | bare : (∀ body, text.toList ≠ '"' :: (body ++ ['"'])) → StringValue text text

/-- A token that is an expression by itself. Number tokens are terminals only if their text has a
value: an integer of 64 bits, or a finite floating point number. -/
inductive Terminal : Token → Expr → Prop where
  | int {t v} : t.kind = .int → Numeral.int64? t.text = some v → Terminal t (.int v)
  | float {t v} : t.kind = .float → Numeral.binary64? t.text = some v → v.isFinite →
      Terminal t (.float v)
  | string {t v} : t.kind = .string → StringValue t.text v → Terminal t (.string v)
  | trueWord {t} : t.kind = .trueWord → Terminal t (.bool true)
  | falseWord {t} : t.kind = .falseWord → Terminal t (.bool false)
  | nilWord {t} : t.kind = .nilWord → Terminal t .nil
  | ident {t} : t.kind = .ident → Terminal t (.ident t.text)

/-- `Phrase level w e`: the tokens `w` derive the expression `e` at the level. -/
inductive Phrase : Level → List Token → Expr → Prop where
  | terminal {t e} : Terminal t e → Phrase .primary [t] e
  | group {l w r e} : l.kind = .leftParen → Phrase .assignment w e → r.kind = .rightParen →
      Phrase .primary (l :: (w ++ [r])) (.group e)
  /-- A level contains the next tighter one. -/
  | tighter {level w e} : Phrase (Level.operand level) w e → Phrase level w e
  | chain {level w t v node l r} : Level.chains level = true →
      Level.node? level t.kind = some node → Phrase level w l →
      Phrase (Level.operand level) v r → Phrase level (w ++ t :: v) (node l r)
  | pair {level w t v node l r} : Level.chains level = false →
      Level.node? level t.kind = some node → Phrase (Level.operand level) w l →
      Phrase (Level.operand level) v r → Phrase level (w ++ t :: v) (node l r)
  | assign {x t w op e} : x.kind = .ident → assignment? t.kind = some op →
      Phrase .assignment w e → Phrase .assignment (x :: t :: w) (.assign op x.text e)

/-! ## Statements -/

/-- One entry of a declaration list. -/
inductive Entry : List Token → Declaration → Prop where
  | bare {x} : x.kind = .ident → Entry [x] ⟨x.text, none⟩
  | initialized {x q w e} : x.kind = .ident → q.kind = .assign → Phrase .assignment w e →
      Entry (x :: q :: w) ⟨x.text, some e⟩

/-- Entries with commas between them, at least one. -/
inductive Entries : List Token → List Declaration → Prop where
  | last {w d} : Entry w d → Entries w [d]
  | more {w c v d ds} : Entry w d → c.kind = .comma → Entries v ds →
      Entries (w ++ c :: v) (d :: ds)

mutual

/-- `Sentence w s`: the tokens `w` derive the statement `s`. -/
inductive Sentence : List Token → Stmt → Prop where
  | block {i w d body} : i.kind = .indent → Sentences w body → d.kind = .dedent →
      Sentence (i :: (w ++ [d])) (.block body)
  | declare {l w ds} : l.kind = .letWord → Entries w ds → Sentence (l :: w) (.declare ds)
  | conditional {i w t v c s} : i.kind = .ifWord → Phrase .assignment w c → t.kind = .thenWord →
      Sentence v s → Sentence (i :: (w ++ t :: v)) (.conditional c s none)
  | alternative {i w t v e u c s a} : i.kind = .ifWord → Phrase .assignment w c →
      t.kind = .thenWord → Sentence v s → s.isOpen = false → e.kind = .elseWord → Sentence u a →
      Sentence (i :: (w ++ t :: (v ++ e :: u))) (.conditional c s (some a))
  | expression {w e} : Phrase .assignment w e → Sentence w (.expression e)

/-- `Sentences w ss`: the tokens `w` derive the statements `ss`, one after the other. -/
inductive Sentences : List Token → List Stmt → Prop where
  | nil : Sentences [] []
  | cons {w v s ss} : Sentence w s → Sentences v ss → Sentences (w ++ v) (s :: ss)

end

end Grammar

end IndentScript
