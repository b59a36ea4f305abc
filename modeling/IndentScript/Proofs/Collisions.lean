import IndentScript.Proofs.Equality
import IndentScript.Proofs.Layout
import IndentScript.Proofs.Rendering

/-!
# Programs that are written alike

Equal programs are written alike. The converse fails for one reason only, that a declaration without
a first value is written like one whose first value is the name `None`.
-/

namespace IndentScript

/-! ## Well-formedness without the name -/

theorem Declaration.WellFormed.withoutNone {d : Declaration} (h : d.WellFormed) :
    d.withoutNone.WellFormed := by
  rw [Declaration.withoutNone]
  split
  · refine ⟨h.name, fun e he => ?_⟩
    cases he
  · exact h

namespace Stmt

theorem isOpen_withoutNone (s : Stmt) : s.withoutNone.isOpen = s.isOpen := by
  fun_induction isOpen s with
  | case1 => rw [withoutNone, isOpen]
  | case2 c s a ih => rw [withoutNone, isOpen, ih]
  | case3 s hnone hsome =>
      cases s with
      | conditional c s a =>
          cases a with
          | none => exact absurd rfl (hnone c s)
          | some a => exact absurd rfl (hsome c s a)
      | _ => rfl

theorem mem_withoutNoneAll {ss : List Stmt} {t : Stmt} (ht : t ∈ withoutNoneAll ss) :
    ∃ s ∈ ss, t = s.withoutNone := by
  induction ss with
  | nil => exact absurd ht List.not_mem_nil
  | cons s ss ih =>
      rw [withoutNoneAll, List.mem_cons] at ht
      rcases ht with rfl | ht
      · exact ⟨s, List.mem_cons_self, rfl⟩
      · obtain ⟨s', hs', rfl⟩ := ih ht
        exact ⟨s', List.mem_cons_of_mem s hs', rfl⟩

theorem WellFormed.withoutNone {s : Stmt} (h : s.WellFormed) : s.withoutNone.WellFormed := by
  induction h with
  | block _ ih =>
      rw [Stmt.withoutNone]
      refine .block fun t ht => ?_
      obtain ⟨s, hs, rfl⟩ := mem_withoutNoneAll ht
      exact ih s hs
  | declare hne hds =>
      rw [Stmt.withoutNone]
      refine .declare (by simpa using hne) ?_
      simpa using fun d hd => (hds d hd).withoutNone
  | conditional hc _ ih =>
      rw [Stmt.withoutNone]
      exact .conditional hc ih
  | alternative hc _ hopen _ ihs iha =>
      rw [Stmt.withoutNone]
      exact .alternative hc ihs (by rw [isOpen_withoutNone, hopen]) iha
  | expression he =>
      rw [Stmt.withoutNone]
      exact .expression he

end Stmt

theorem Program.WellFormed.withoutNone {p : Program} (h : p.WellFormed) :
    p.withoutNone.WellFormed := by
  intro t ht
  obtain ⟨s, hs, rfl⟩ := Stmt.mem_withoutNoneAll ht
  exact (h s hs).withoutNone

/-! ## Declarations -/

namespace Stmt

mutual

/-- The declarations in a statement, from left to right. -/
def declarations : Stmt → List Declaration
  | block body => declarationsAll body
  | declare ds => ds
  | conditional _ s none => s.declarations
  | conditional _ s (some a) => s.declarations ++ a.declarations
  | expression _ => []

def declarationsAll : List Stmt → List Declaration
  | [] => []
  | s :: rest => s.declarations ++ declarationsAll rest

end

end Stmt

def Program.declarations (p : Program) : List Declaration :=
  Stmt.declarationsAll p.statements

theorem Declaration.withoutNone_eq_self {d : Declaration}
    (h : d.initializer ≠ some (.ident "None")) : d.withoutNone = d :=
  if_neg h

namespace Stmt

mutual

theorem withoutNone_eq_self : (s : Stmt) →
    (∀ d ∈ s.declarations, d.initializer ≠ some (.ident "None")) → s.withoutNone = s
  | block body, h => by
      rw [declarations] at h
      rw [withoutNone, withoutNoneAll_eq_self body h]
  | declare ds, h => by
      have hds : ds.map Declaration.withoutNone = ds.map id :=
        List.map_congr_left fun d hd => Declaration.withoutNone_eq_self (h d hd)
      rw [withoutNone, hds, List.map_id]
  | conditional c s none, h => by
      rw [declarations] at h
      rw [withoutNone, withoutNone_eq_self s h]
  | conditional c s (some a), h => by
      rw [declarations, List.forall_mem_append] at h
      rw [withoutNone, withoutNone_eq_self s h.1, withoutNone_eq_self a h.2]
  | expression _, _ => by rw [withoutNone]

theorem withoutNoneAll_eq_self : (ss : List Stmt) →
    (∀ d ∈ declarationsAll ss, d.initializer ≠ some (.ident "None")) → withoutNoneAll ss = ss
  | [], _ => rfl
  | s :: rest, h => by
      rw [declarationsAll, List.forall_mem_append] at h
      rw [withoutNoneAll, withoutNone_eq_self s h.1, withoutNoneAll_eq_self rest h.2]

end

end Stmt

namespace Program

theorem withoutNone_eq_self {p : Program}
    (h : ∀ d ∈ p.declarations, d.initializer ≠ some (.ident "None")) : p.withoutNone = p :=
  congrArg Program.mk (Stmt.withoutNoneAll_eq_self p.statements h)

/-! ## Programs of sources -/

/-- Two programs are written alike just if they are equal without first values that are the name
`None`, whether trees are compared node by node or as they are. -/
theorem render_eq_iff_withoutNone {source source' : String} {p q : Program}
    (hp : ofSource source = .ok p) (hq : ofSource source' = .ok q) :
    (p.render = q.render ↔ p.withoutNone.equal q.withoutNone = true) ∧
      (p.withoutNone.equal q.withoutNone = true ↔ p.withoutNone = q.withoutNone) := by
  have hp := wellFormed_of_ofSource hp
  have hq := wellFormed_of_ofSource hq
  have hequal := hp.withoutNone.equal_iff hq.withoutNone
  exact ⟨(hp.render_eq_iff hq).trans hequal.symm, hequal⟩

theorem ofSource_bare : ofSource "let x" = .ok ⟨[.declare [⟨"x", none⟩]]⟩ := by
  have htokens : tokenize "let x" = [⟨.letWord, "let", ⟨1, 1⟩⟩, ⟨.ident, "x", ⟨1, 5⟩⟩,
      ⟨.eof, "", ⟨2, 1⟩⟩] := by
    decide +kernel
  rw [ofSource, htokens]
  rfl

theorem ofSource_none :
    ofSource "let x = None" = .ok ⟨[.declare [⟨"x", some (.ident "None")⟩]]⟩ := by
  have htokens : tokenize "let x = None" = [⟨.letWord, "let", ⟨1, 1⟩⟩, ⟨.ident, "x", ⟨1, 5⟩⟩,
      ⟨.assign, "=", ⟨1, 7⟩⟩, ⟨.ident, "None", ⟨1, 9⟩⟩, ⟨.eof, "", ⟨2, 1⟩⟩] := by
    decide +kernel
  rw [ofSource, htokens]
  rfl

/-- The declaration that both `let x = a is b` and `let x = a == b` make. -/
def comparison : Program :=
  ⟨[.declare [⟨"x", some (.binary .equal (.ident "a") (.ident "b"))⟩]]⟩

theorem ofSource_is : ofSource "let x = a is b" = .ok comparison := by
  have htokens : tokenize "let x = a is b" = [⟨.letWord, "let", ⟨1, 1⟩⟩, ⟨.ident, "x", ⟨1, 5⟩⟩,
      ⟨.assign, "=", ⟨1, 7⟩⟩, ⟨.ident, "a", ⟨1, 9⟩⟩, ⟨.is, "is", ⟨1, 11⟩⟩, ⟨.ident, "b", ⟨1, 14⟩⟩,
      ⟨.eof, "", ⟨2, 1⟩⟩] := by
    decide +kernel
  rw [ofSource, htokens]
  rfl

theorem ofSource_equal : ofSource "let x = a == b" = .ok comparison := by
  have htokens : tokenize "let x = a == b" = [⟨.letWord, "let", ⟨1, 1⟩⟩, ⟨.ident, "x", ⟨1, 5⟩⟩,
      ⟨.assign, "=", ⟨1, 7⟩⟩, ⟨.ident, "a", ⟨1, 9⟩⟩, ⟨.equal, "==", ⟨1, 11⟩⟩,
      ⟨.ident, "b", ⟨1, 14⟩⟩, ⟨.eof, "", ⟨2, 1⟩⟩] := by
    decide +kernel
  rw [ofSource, htokens]
  rfl

/-- The name `None` as a first value and no first value are written alike. -/
theorem render_eq_iff_withoutNone_none :
    ∃ p q, ofSource "let x" = .ok p ∧ ofSource "let x = None" = .ok q ∧
      (p.render = q.render ↔ p.withoutNone.equal q.withoutNone = true) ∧ p.render = q.render := by
  have hiff := (render_eq_iff_withoutNone ofSource_bare ofSource_none).1
  exact ⟨_, _, ofSource_bare, ofSource_none, hiff, hiff.2 rfl⟩

/-- Equal programs are written alike, and programs that are written alike are equal if no first
value in them is the name `None`. -/
theorem equal_render {source source' : String} {p q : Program} (hp : ofSource source = .ok p)
    (hq : ofSource source' = .ok q) :
    (p.equal q = true → p.render = q.render) ∧
      ((∀ d ∈ p.declarations ++ q.declarations, d.initializer ≠ some (.ident "None")) →
        p.render = q.render → p.equal q = true) := by
  have hp := wellFormed_of_ofSource hp
  have hq := wellFormed_of_ofSource hq
  refine ⟨fun h => by rw [(hp.equal_iff hq).1 h], fun hnone h => ?_⟩
  rw [List.forall_mem_append] at hnone
  have hwithout := (hp.render_eq_iff hq).1 h
  rw [withoutNone_eq_self hnone.1, withoutNone_eq_self hnone.2] at hwithout
  exact (hp.equal_iff hq).2 hwithout

/-- `is` and `==` are the same operator, so here are two sources of equal programs. -/
theorem equal_render_comparison :
    ∃ p q, ofSource "let x = a is b" = .ok p ∧ ofSource "let x = a == b" = .ok q ∧
      (∀ d ∈ p.declarations ++ q.declarations, d.initializer ≠ some (.ident "None")) ∧
      p.equal q = true ∧ p.render = q.render := by
  obtain ⟨-, hequal⟩ := equal_render ofSource_is ofSource_equal
  have hrender := (equal_render ofSource_is ofSource_equal).1 (hequal (by decide) rfl)
  exact ⟨_, _, ofSource_is, ofSource_equal, by decide, hequal (by decide) hrender, hrender⟩

/-- Programs that are written alike need not be equal. -/
theorem not_equal_iff_render :
    ¬∀ (source source' : String) (p q : Program), ofSource source = .ok p →
      ofSource source' = .ok q → (p.equal q = true ↔ p.render = q.render) := by
  intro h
  have hequal := (h _ _ _ _ ofSource_bare ofSource_none).2 rfl
  exact absurd hequal (by decide)

end Program

end IndentScript
