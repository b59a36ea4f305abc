import IndentScript.Json.Decoding
import IndentScript.Json.Encoding
import IndentScript.Proofs.Acceptance
import IndentScript.Proofs.WellFormed

/-!
# Trees and their JSON nodes

A tree is read back from its JSON node, provided that the numbers in it are finite: those that are
not are written as `null`. The grammar derives no others, so what is read from tokens is never lost.
-/

namespace IndentScript

open Grammar

/-! ## Trees of finite numbers -/

/-- Every floating point number in the expression is finite. -/
def Expr.Finite : Expr → Prop
  | assign _ _ value => value.Finite
  | logical _ left right => left.Finite ∧ right.Finite
  | binary _ left right => left.Finite ∧ right.Finite
  | group inner => inner.Finite
  | float value => value.isFinite = true
  | _ => True

def Declaration.Finite (d : Declaration) : Prop :=
  ∀ e ∈ d.initializer, e.Finite

namespace Stmt

mutual

def Finite : Stmt → Prop
  | block body => FiniteAll body
  | declare ds => ∀ d ∈ ds, d.Finite
  | conditional c s none => c.Finite ∧ s.Finite
  | conditional c s (some a) => c.Finite ∧ s.Finite ∧ a.Finite
  | expression e => e.Finite

def FiniteAll : List Stmt → Prop
  | [] => True
  | s :: rest => s.Finite ∧ FiniteAll rest

end

end Stmt

def Program.Finite (p : Program) : Prop :=
  Stmt.FiniteAll p.statements

/-! ## What is derived has finite numbers -/

namespace Grammar

theorem Terminal.finite {t : Token} {e : Expr} (h : Terminal t e) : e.Finite := by
  cases h with
  | float _ _ hfin => exact hfin
  | _ => trivial

theorem Phrase.finite {level : Level} {w : List Token} {e : Expr} (h : Phrase level w e) :
    e.Finite := by
  have hnode : ∀ {level : Level} {k node l r}, level.node? k = some node → l.Finite → r.Finite →
      (node l r).Finite := by
    intro level k node l r hk hl hr
    rcases Level.node?_eq_some hk with ⟨op, rfl, -⟩ | ⟨op, rfl, -⟩ <;> exact ⟨hl, hr⟩
  induction h with
  | terminal ht => exact ht.finite
  | group _ _ _ ih | tighter _ ih | assign _ _ _ ih => exact ih
  | chain _ hk _ _ ihl ihr | pair _ hk _ _ ihl ihr => exact hnode hk ihl ihr

theorem Entry.finite {w : List Token} {d : Declaration} (h : Entry w d) : d.Finite := by
  cases h with
  | bare => simp [Declaration.Finite]
  | initialized _ _ he => simpa [Declaration.Finite] using he.finite

theorem Entries.finite {w : List Token} {ds : List Declaration} (h : Entries w ds) :
    ∀ d ∈ ds, d.Finite := by
  induction h with
  | last hd => simpa using hd.finite
  | more hd _ _ ih => simpa using ⟨hd.finite, ih⟩

mutual

theorem Sentence.finite {w : List Token} {s : Stmt} (h : Sentence w s) : s.Finite := by
  match h with
  | .block _ hbody _ => exact hbody.finite
  | .declare _ hds => exact hds.finite
  | .conditional _ hc _ hs => exact ⟨hc.finite, hs.finite⟩
  | .alternative _ hc _ hs _ _ ha => exact ⟨hc.finite, hs.finite, ha.finite⟩
  | .expression he => exact he.finite

theorem Sentences.finite {w : List Token} {ss : List Stmt} (h : Sentences w ss) :
    Stmt.FiniteAll ss := by
  match h with
  | .nil => trivial
  | .cons hs hss => exact ⟨hs.finite, hss.finite⟩

end

end Grammar

/-! ## Reading nodes -/

theorem Json.ident?_ident (name : String) : (Json.ident name).ident? = some name := rfl

theorem Json.ofBinary64_of_isFinite {v : Binary64} (h : v.isFinite = true) :
    ofBinary64 v = .float v :=
  if_pos h

theorem Expr.ofJson?_toJson {e : Expr} (h : e.Finite) : ofJson? e.toJson = some e := by
  induction e with
  | assign op x e ih =>
      simp [toJson, Json.node, ofJson?, AssignOp.ofSymbol?_symbol, Json.ident?_ident, ih h]
  | logical op l r ihl ihr =>
      simp [toJson, Json.node, ofJson?, LogicalOp.ofSymbol?_symbol, ihl h.1, ihr h.2]
  | binary op l r ihl ihr =>
      simp [toJson, Json.node, ofJson?, BinaryOp.ofSymbol?_symbol, ihl h.1, ihr h.2]
  | group e ih => simp [toJson, Json.node, ofJson?, ih h]
  | ident x => simp [toJson, Json.ident, Json.node, ofJson?]
  | int v =>
      have hv : Numeral.toInt64? v.toInt = some v := Numeral.toInt64?_eq_some_iff.2 rfl
      simp [toJson, Json.node, ofJson?, literalOfJson?, hv]
  | float v =>
      simp [toJson, Json.node, ofJson?, literalOfJson?, Json.ofBinary64_of_isFinite h]
  | string s => simp [toJson, Json.node, ofJson?, literalOfJson?]
  | bool b => simp [toJson, Json.node, ofJson?, literalOfJson?]
  | nil => simp [toJson, Json.node, ofJson?]

/-- A node is an object, so it differs from the mark of a part that is missing. -/
theorem Expr.toJson_ne_null (e : Expr) : e.toJson ≠ .null := by
  cases e <;> simp [toJson, Json.ident, Json.node]

theorem Declaration.ofJson?_toJson {d : Declaration} (h : d.Finite) :
    ofJson? d.toJson = some d := by
  obtain ⟨name, initializer⟩ := d
  cases initializer with
  | none => simp [toJson, Json.node, ofJson?, Json.ident?_ident]
  | some e =>
      have he : Expr.ofJson? e.toJson = some e := Expr.ofJson?_toJson (h e rfl)
      simp [toJson, Json.node, ofJson?, Json.ident?_ident, he, e.toJson_ne_null]

theorem Declaration.mapM_ofJson?_toJson {ds : List Declaration} (h : ∀ d ∈ ds, d.Finite) :
    (ds.map toJson).mapM ofJson? = some ds := by
  induction ds with
  | nil => rfl
  | cons d ds ih =>
      rw [List.forall_mem_cons] at h
      simp [List.mapM_cons, ofJson?_toJson h.1, ih h.2]

namespace Stmt

theorem toJson_ne_null (s : Stmt) : s.toJson ≠ .null := by
  cases s with
  | conditional c s a => cases a <;> simp [toJson, Json.node]
  | _ => simp [toJson, Json.node]

mutual

theorem ofJson?_toJson (s : Stmt) (h : s.Finite) : ofJson? s.toJson = some s := by
  match s, h with
  | .block body, h => simp [toJson, Json.node, ofJson?, ofJsonAll?_toJsonAll body h]
  | .declare ds, h => simp [toJson, Json.node, ofJson?, Declaration.mapM_ofJson?_toJson h]
  | .conditional c s none, h =>
      simp [toJson, Json.node, ofJson?, Expr.ofJson?_toJson h.1, ofJson?_toJson s h.2]
  | .conditional c s (some a), h =>
      simp [toJson, Json.node, ofJson?, a.toJson_ne_null, Expr.ofJson?_toJson h.1,
        ofJson?_toJson s h.2.1, ofJson?_toJson a h.2.2]
  | .expression e, h => simp [toJson, Json.node, ofJson?, Expr.ofJson?_toJson h]

theorem ofJsonAll?_toJsonAll (ss : List Stmt) (h : FiniteAll ss) :
    ofJsonAll? (toJsonAll ss) = some ss := by
  match ss, h with
  | [], _ => rfl
  | s :: ss, h => simp [toJsonAll, ofJsonAll?, ofJson?_toJson s h.1, ofJsonAll?_toJsonAll ss h.2]

end

end Stmt

namespace Program

theorem finite_of_ofTokens {tokens : List Token} {p : Program} (h : ofTokens tokens = .ok p) :
    p.Finite := by
  obtain ⟨w, u, -, -, -, hw⟩ := sentences_of_ofTokens h
  exact hw.finite

theorem ofJson?_toJson {p : Program} (h : p.Finite) : ofJson? p.toJson = some p := by
  simp [toJson, Json.node, ofJson?, Stmt.ofJsonAll?_toJsonAll _ h]

/-- The node of a program that is read from tokens says which program it is. -/
theorem toJson_lossless :
    (∀ tokens p, ofTokens tokens = .ok p → p.Finite) ∧
    (∀ p : Program, p.Finite → ofJson? p.toJson = some p) ∧
    ∀ tokens tokens' p q, ofTokens tokens = .ok p → ofTokens tokens' = .ok q →
      p.toJson = q.toJson → p = q := by
  refine ⟨fun _ _ h => finite_of_ofTokens h, fun _ h => ofJson?_toJson h, ?_⟩
  intro _ _ p q hp hq h
  have hp' := ofJson?_toJson (finite_of_ofTokens hp)
  rw [h, ofJson?_toJson (finite_of_ofTokens hq)] at hp'
  exact (Option.some.inj hp').symm

/-- The value of a number token that is read comes back from its node. -/
theorem toJson_lossless_float :
    ∃ p : Program, ofTokens [⟨.float, "1.5", ⟨1, 1⟩⟩] = .ok p ∧ p.Finite ∧
      ofJson? p.toJson = some p := by
  have hvalue : Numeral.binary64? "1.5" =
      some (.finite false ⟨4609434218613702656, by decide⟩) := by decide +kernel
  have hphrase : Phrase .assignment [⟨.float, "1.5", ⟨1, 1⟩⟩] (.float _) :=
    (Phrase.terminal (.float rfl hvalue rfl)).widen (by decide)
  have hread : ofTokens [⟨.float, "1.5", ⟨1, 1⟩⟩] = .ok ⟨[.expression (.float _)]⟩ :=
    ofTokens_of_sentences (Sentences.cons (.expression hphrase) .nil)
  obtain ⟨hfinite, hlossless, -⟩ := toJson_lossless
  exact ⟨_, hread, hfinite _ _ hread, hlossless _ (hfinite _ _ hread)⟩

end Program

end IndentScript
