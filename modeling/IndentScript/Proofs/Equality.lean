import IndentScript.Proofs.Numerals
import IndentScript.Tree.Equal

/-!
# Equality of well-formed trees

The numbers in a well-formed tree are finite and have no sign, so that comparing trees node by node
and number by number is the equality of trees.
-/

namespace IndentScript

namespace Expr

theorem WellFormed.of_logical {op : LogicalOp} {l r : Expr} (h : (logical op l r).WellFormed) :
    l.WellFormed ∧ r.WellFormed := by
  cases h <;> exact ⟨‹_›, ‹_›⟩

theorem WellFormed.of_binary {op : BinaryOp} {l r : Expr} (h : (binary op l r).WellFormed) :
    l.WellFormed ∧ r.WellFormed := by
  cases h <;> exact ⟨‹_›, ‹_›⟩

theorem WellFormed.equal_self {e : Expr} (h : e.WellFormed) : e.equal e = true := by
  -- each `change` states the branch of `equal` that the constructors select
  induction e with
  | assign op x e ih =>
      change (decide (op = op) && decide (x = x) && e.equal e) = true
      cases h with
      | assign _ h => simp [ih h]
  | logical op l r ihl ihr =>
      change (decide (op = op) && l.equal l && r.equal r) = true
      simp [ihl h.of_logical.1, ihr h.of_logical.2]
  | binary op l r ihl ihr =>
      change (decide (op = op) && l.equal l && r.equal r) = true
      simp [ihl h.of_binary.1, ihr h.of_binary.2]
  | group e ih =>
      cases h with
      | group h => exact ih h
  | float v =>
      cases h with
      | float hs hv hfinite =>
          obtain ⟨rank, rfl⟩ := Numeral.exists_rank_of_isFraction hs hv hfinite
          change (decide (rank = rank) && (decide (false = false) || decide (rank.val = 0))) = true
          simp
  | ident | int | string | bool => exact decide_eq_true rfl
  | nil => rfl

theorem WellFormed.eq_of_equal {e e' : Expr} (h : e.WellFormed) (h' : e'.WellFormed)
    (heq : e.equal e' = true) : e = e' := by
  induction e generalizing e' with
  | assign op x e ih =>
      cases e' with
      | assign op' x' e' =>
          change (decide (op = op') && decide (x = x') && e.equal e') = true at heq
          simp only [Bool.and_eq_true, decide_eq_true_eq] at heq
          obtain ⟨⟨rfl, rfl⟩, heq⟩ := heq
          cases h with
          | assign _ h =>
              cases h' with
              | assign _ h' => rw [ih h h' heq]
      | _ => cases heq
  | logical op l r ihl ihr =>
      cases e' with
      | logical op' l' r' =>
          change (decide (op = op') && l.equal l' && r.equal r') = true at heq
          simp only [Bool.and_eq_true, decide_eq_true_eq] at heq
          obtain ⟨⟨rfl, hl⟩, hr⟩ := heq
          rw [ihl h.of_logical.1 h'.of_logical.1 hl, ihr h.of_logical.2 h'.of_logical.2 hr]
      | _ => cases heq
  | binary op l r ihl ihr =>
      cases e' with
      | binary op' l' r' =>
          change (decide (op = op') && l.equal l' && r.equal r') = true at heq
          simp only [Bool.and_eq_true, decide_eq_true_eq] at heq
          obtain ⟨⟨rfl, hl⟩, hr⟩ := heq
          rw [ihl h.of_binary.1 h'.of_binary.1 hl, ihr h.of_binary.2 h'.of_binary.2 hr]
      | _ => cases heq
  | group e ih =>
      cases e' with
      | group e' =>
          cases h with
          | group h =>
              cases h' with
              | group h' => rw [ih h h' heq]
      | _ => cases heq
  | float v =>
      cases e' with
      | float v' =>
          cases h with
          | float hs hv hfinite =>
              cases h' with
              | float hs' hv' hfinite' =>
                  obtain ⟨rank, rfl⟩ := Numeral.exists_rank_of_isFraction hs hv hfinite
                  obtain ⟨rank', rfl⟩ := Numeral.exists_rank_of_isFraction hs' hv' hfinite'
                  change (decide (rank = rank') && _) = true at heq
                  rw [of_decide_eq_true (Bool.and_eq_true_iff.1 heq).1]
      | _ => cases heq
  | ident x =>
      cases e' with
      | ident x' => rw [of_decide_eq_true (p := x = x') heq]
      | _ => cases heq
  | int v =>
      cases e' with
      | int v' => rw [of_decide_eq_true (p := v = v') heq]
      | _ => cases heq
  | string s =>
      cases e' with
      | string s' => rw [of_decide_eq_true (p := s = s') heq]
      | _ => cases heq
  | bool b =>
      cases e' with
      | bool b' => rw [of_decide_eq_true (p := b = b') heq]
      | _ => cases heq
  | nil =>
      cases e' with
      | nil => rfl
      | _ => cases heq

end Expr

namespace Declaration

theorem WellFormed.eq_of_equal {d d' : Declaration} (h : d.WellFormed) (h' : d'.WellFormed)
    (heq : d.equal d' = true) : d = d' := by
  obtain ⟨name, initializer⟩ := d
  obtain ⟨name', initializer'⟩ := d'
  cases initializer <;> cases initializer' <;>
    simp only [equal, Bool.and_eq_true, decide_eq_true_eq, Bool.false_eq_true, and_false] at heq
  · rw [heq.1]
  · rw [heq.1, (h.initializer _ rfl).eq_of_equal (h'.initializer _ rfl) heq.2]

theorem WellFormed.equal_self {d : Declaration} (h : d.WellFormed) : d.equal d = true := by
  obtain ⟨name, initializer⟩ := d
  cases initializer with
  | none => simp [equal]
  | some e => simp [equal, (h.initializer e rfl).equal_self]

theorem equalAll_self {ds : List Declaration} (h : ∀ d ∈ ds, d.WellFormed) :
    equalAll ds ds = true := by
  induction ds with
  | nil => rfl
  | cons d ds ih =>
      rw [equalAll, (h d List.mem_cons_self).equal_self,
        ih fun d' hd' => h d' (List.mem_cons_of_mem d hd')]
      rfl

theorem eq_of_equalAll {ds ds' : List Declaration} (h : ∀ d ∈ ds, d.WellFormed)
    (h' : ∀ d ∈ ds', d.WellFormed) (heq : equalAll ds ds' = true) : ds = ds' := by
  fun_induction equalAll ds ds' with
  | case1 => rfl
  | case2 d ds d' ds' ih =>
      simp only [Bool.and_eq_true] at heq
      rw [List.forall_mem_cons] at h h'
      rw [h.1.eq_of_equal h'.1 heq.1, ih h.2 h'.2 heq.2]
  | case3 => cases heq

end Declaration

namespace Stmt

theorem equalAll_self {ss : List Stmt} (h : ∀ s ∈ ss, s.equal s = true) :
    equalAll ss ss = true := by
  induction ss with
  | nil => rfl
  | cons s ss ih =>
      rw [equalAll, h s List.mem_cons_self, ih fun t ht => h t (List.mem_cons_of_mem s ht)]
      rfl

theorem WellFormed.equal_self {s : Stmt} (h : s.WellFormed) : s.equal s = true := by
  induction h with
  | block _ ih => exact equalAll_self ih
  | declare _ hds => exact Declaration.equalAll_self hds
  | conditional hc _ ih => simp [equal, hc.equal_self, ih]
  | alternative hc _ _ _ ihs iha => simp [equal, hc.equal_self, ihs, iha]
  | expression he => exact he.equal_self

mutual

theorem eq_of_equal : (s t : Stmt) → s.WellFormed → t.WellFormed → s.equal t = true →
    s = t
  | .block body, t, hs, ht, h => by
      cases t with
      | block body' =>
          cases hs with
          | block hs =>
              cases ht with
              | block ht => rw [eq_of_equalAll body body' hs ht h]
      | _ => simp [equal] at h
  | .declare ds, t, hs, ht, h => by
      cases t with
      | declare ds' =>
          cases hs with
          | declare _ hs =>
              cases ht with
              | declare _ ht => rw [Declaration.eq_of_equalAll hs ht h]
      | _ => simp [equal] at h
  | .conditional c s none, t, hs, ht, h => by
      rcases t with _ | _ | ⟨c', s', _ | a'⟩ | _ <;>
        simp only [equal, Bool.and_eq_true, Bool.false_eq_true] at h
      cases hs with
      | conditional hc hs =>
          cases ht with
          | conditional hc' ht => rw [hc.eq_of_equal hc' h.1, eq_of_equal s s' hs ht h.2]
  | .conditional c s (some a), t, hs, ht, h => by
      rcases t with _ | _ | ⟨c', s', _ | a'⟩ | _ <;>
        simp only [equal, Bool.and_eq_true, Bool.false_eq_true] at h
      cases hs with
      | alternative hc hs _ ha =>
          cases ht with
          | alternative hc' ht _ ha' =>
              rw [hc.eq_of_equal hc' h.1.1, eq_of_equal s s' hs ht h.1.2,
                eq_of_equal a a' ha ha' h.2]
  | .expression e, t, hs, ht, h => by
      cases t with
      | expression e' =>
          cases hs with
          | expression hs =>
              cases ht with
              | expression ht => rw [hs.eq_of_equal ht h]
      | _ => simp [equal] at h

theorem eq_of_equalAll : (ss ts : List Stmt) → (∀ s ∈ ss, s.WellFormed) → (∀ t ∈ ts, t.WellFormed) →
    equalAll ss ts = true → ss = ts
  | [], ts, hs, ht, h => by
      cases ts with
      | nil => rfl
      | cons t ts => simp [equalAll] at h
  | s :: ss, ts, hs, ht, h => by
      cases ts with
      | nil => simp [equalAll] at h
      | cons t ts =>
          simp only [equalAll, Bool.and_eq_true] at h
          rw [List.forall_mem_cons] at hs ht
          rw [eq_of_equal s t hs.1 ht.1 h.1, eq_of_equalAll ss ts hs.2 ht.2 h.2]

end

end Stmt

theorem Program.WellFormed.equal_iff {p q : Program} (hp : p.WellFormed) (hq : q.WellFormed) :
    p.equal q = true ↔ p = q := by
  obtain ⟨ss⟩ := p
  obtain ⟨ts⟩ := q
  constructor
  · intro h
    rw [Stmt.eq_of_equalAll ss ts hp hq h]
  · rintro ⟨⟩
    exact Stmt.equalAll_self fun s hs => (hp s hs).equal_self

end IndentScript
