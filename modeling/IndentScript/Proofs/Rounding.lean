import IndentScript.Numeral.Shortest
import Mathlib.Algebra.Order.Ring.Nat

/-!
# Decimals that read back

The shortest decimal of a number rounds to that number: each candidate is tested for it, and the
exact value, which is taken when every candidate fails, lies at its rank by the order of the ranks.
-/

namespace IndentScript

/-! ## Rounding -/

namespace Binary64

theorem divHalfEven_mul_right (num den : Nat) {c : Nat} (hc : 0 < c) :
    divHalfEven (num * c) (den * c) = divHalfEven num den := by
  have hbelow : 2 * (num % den * c) < den * c ↔ 2 * (num % den) < den := by
    rw [← Nat.mul_assoc, Nat.mul_lt_mul_right hc]
  have habove : den * c < 2 * (num % den * c) ↔ den < 2 * (num % den) := by
    rw [← Nat.mul_assoc, Nat.mul_lt_mul_right hc]
  simp only [divHalfEven, Nat.mul_div_mul_right _ _ hc, Nat.mul_mod_mul_right, hbelow, habove]

/-- Rounding a ratio does not see a common factor. -/
theorem rankNear_mul_right (num den : Nat) {c : Nat} (hc : 0 < c) :
    rankNear (num * c) (den * c) = rankNear num den := by
  simp only [rankNear, Nat.mul_div_mul_right _ _ hc, Nat.mul_right_comm den c,
    divHalfEven_mul_right _ _ hc]

theorem divHalfEven_mul_self (num : Nat) {den : Nat} (hden : 0 < den) :
    divHalfEven (num * den) den = num := by
  simp [divHalfEven, Nat.mul_div_cancel _ hden, hden]

theorem log2_mul_two_pow {m n k : Nat} (hlow : 2 ^ n ≤ m) (hhigh : m < 2 ^ (n + 1)) :
    (m * 2 ^ k).log2 = n + k := by
  have hne : m * 2 ^ k ≠ 0 :=
    Nat.mul_ne_zero (by have := Nat.two_pow_pos n; omega) (Nat.two_pow_pos k).ne'
  refine (Nat.log2_eq_iff hne).2 ⟨?_, ?_⟩
  · rw [Nat.pow_add]
    exact Nat.mul_le_mul_right _ hlow
  · rw [Nat.add_right_comm, Nat.pow_add]
    exact Nat.mul_lt_mul_of_pos_right hhigh (Nat.two_pow_pos k)

/-- The value at a rank is rounded to that rank. -/
theorem rankNear_unitsAt (rank : Nat) : rankNear (unitsAt rank) 1 = rank := by
  have hsteps : Nat.pow 2 52 = 2 ^ 52 := rfl
  rw [rankNear, unitsAt, Nat.div_one, ranksPerStep, hsteps]
  split
  · next hlt =>
    have hlog : rank.log2 - 52 = 0 := by
      rcases Nat.eq_zero_or_pos rank with rfl | hpos
      · rfl
      · have := (Nat.log2_lt hpos.ne').2 hlt
        omega
    simpa [hlog] using divHalfEven_mul_self rank Nat.one_pos
  · next hge =>
    have hstep : 1 ≤ rank / 2 ^ 52 := (Nat.one_le_div_iff (by decide)).2 (Nat.le_of_not_lt hge)
    have hrest : rank % 2 ^ 52 < 2 ^ 52 := Nat.mod_lt _ (by decide)
    have hlog := log2_mul_two_pow (n := 52) (k := rank / 2 ^ 52 - 1)
      (Nat.le_add_right (2 ^ 52) (rank % 2 ^ 52)) (by omega)
    have hpow : ∀ k, Nat.pow 2 k = 2 ^ k := fun _ => rfl
    rw [hpow, hlog, Nat.add_sub_cancel_left, hpow, Nat.one_mul,
      divHalfEven_mul_self _ (Nat.two_pow_pos _)]
    have hsplit := Nat.div_add_mod rank (2 ^ 52)
    omega

theorem unitsAt_lt (rank : Nat) : unitsAt rank < 2 ^ (53 + rank / ranksPerStep) := by
  have hsteps : ranksPerStep = 2 ^ 52 := rfl
  rw [unitsAt]
  split
  · next hlt =>
    rw [hsteps] at hlt
    exact Nat.lt_of_lt_of_le hlt
      (Nat.pow_le_pow_right (by decide) (Nat.le_trans (by decide) (Nat.le_add_right 53 _)))
  · rw [hsteps]
    have hrest : rank % 2 ^ 52 < 2 ^ 52 := Nat.mod_lt _ (by decide)
    have hfront : 2 ^ 52 + rank % 2 ^ 52 < 2 ^ 53 := by omega
    calc (2 ^ 52 + rank % 2 ^ 52) * Nat.pow 2 (rank / 2 ^ 52 - 1)
        < 2 ^ 53 * 2 ^ (rank / 2 ^ 52 - 1) :=
          Nat.mul_lt_mul_of_pos_right hfront (Nat.two_pow_pos _)
      _ ≤ 2 ^ (53 + rank / 2 ^ 52) := by
          rw [← Nat.pow_add]
          exact Nat.pow_le_pow_right (by decide) (by omega)

end Binary64

namespace Decimal

open Binary64

/-! ## The rank of a decimal -/

theorem rank_zero (e : Int) : rank ⟨0, e⟩ = 0 := by
  rw [rank]
  generalize unitsPerOne = units
  simp [rankNear, divHalfEven]

theorem rank_mul_ten (n : Nat) (e : Int) : rank ⟨n * 10, e⟩ = rank ⟨n, e + 1⟩ := by
  have hpow : ∀ k, Nat.pow 10 k = 10 ^ k := fun _ => rfl
  simp only [rank, hpow]
  generalize unitsPerOne = units
  rcases Int.lt_or_le e 0 with hneg | hpos
  · obtain ⟨k, rfl⟩ : ∃ k : Nat, e = -(k + 1) := ⟨(-e - 1).toNat, by omega⟩
    have h₁ : (-((k : Int) + 1)).toNat = 0 := by omega
    have h₂ : (-(-((k : Int) + 1))).toNat = k + 1 := by omega
    have h₃ : (-((k : Int) + 1) + 1).toNat = 0 := by omega
    have h₄ : (-(-((k : Int) + 1) + 1)).toNat = k := by omega
    rw [h₁, h₂, h₃, h₄, Nat.pow_succ, Nat.mul_right_comm n, Nat.mul_right_comm (n * 10 ^ 0)]
    exact rankNear_mul_right _ _ (by decide)
  · obtain ⟨k, rfl⟩ := Int.eq_ofNat_of_zero_le hpos
    have h₁ : ((k : Int) + 1).toNat = k + 1 := by omega
    have h₂ : (-((k : Int) + 1)).toNat = (-(k : Int)).toNat := by omega
    rw [h₁, h₂, Int.toNat_natCast, Nat.pow_succ', ← Nat.mul_assoc n 10]

theorem rank_mul_pow (n j : Nat) (e : Int) : rank ⟨n * 10 ^ j, e⟩ = rank ⟨n, e + j⟩ := by
  induction j generalizing e with
  | zero => simp
  | succ j ih =>
      rw [Nat.pow_succ, ← Nat.mul_assoc, rank_mul_ten, ih]
      congr 2
      omega

theorem rank_trim (d : Decimal) : d.trim.rank = d.rank := by
  induction d using trim.induct with
  | case1 d h ih =>
      obtain ⟨n, e⟩ := d
      have hdigits : n = n / 10 * 10 := by
        have := h.2
        simp only at this
        omega
      rw [trim, if_pos h, ih]
      conv_rhs => rw [hdigits]
      exact (rank_mul_ten (n / 10) e).symm
  | case2 d h => rw [trim, if_neg h]

/-! ## The shortest decimal -/

/-- With `2 ^ k` units in the number one, `n` units are `n * 5 ^ k` parts of `10 ^ k`. -/
theorem rankNear_scaled (n k : Nat) :
    rankNear (n * Nat.pow 5 k * Nat.pow 10 0 * Nat.pow 2 k) (Nat.pow 10 k) = rankNear n 1 := by
  have hten : Nat.pow 5 k * Nat.pow 2 k = Nat.pow 10 k := (Nat.mul_pow 5 2 k).symm
  have hnum : n * Nat.pow 5 k * Nat.pow 10 0 * Nat.pow 2 k = n * Nat.pow 10 k := by
    rw [← hten, show Nat.pow 10 0 = 1 from rfl, Nat.mul_one, Nat.mul_assoc]
  have hcommon := rankNear_mul_right n 1 (c := Nat.pow 10 k) (Nat.pow_pos (by decide))
  rwa [Nat.one_mul, ← hnum] at hcommon

/-- The exact decimal with a variable for its exponent, so that no power of it is computed. -/
theorem exact_eq (rank : Nat) :
    ∃ k ≤ 1074, unitsPerOne = Nat.pow 2 k ∧
      exact rank = ⟨unitsAt rank * Nat.pow 5 k, -(k : Int)⟩ := by
  have hcast : (-1074 : Int) = -((1074 : Nat) : Int) := rfl
  unfold unitsPerOne exact
  rw [hcast]
  generalize 1074 = k
  exact ⟨k, Nat.le_refl k, rfl, rfl⟩

theorem rank_exact (rank : Nat) : (exact rank).rank = rank := by
  obtain ⟨k, -, hunits, hexact⟩ := exact_eq rank
  have h₁ : (-(k : Int)).toNat = 0 := by omega
  have h₂ : (-(-(k : Int))).toNat = k := by omega
  rw [hexact, Decimal.rank, hunits]
  simp only [h₁, h₂]
  rw [rankNear_scaled, rankNear_unitsAt]

theorem of_nearer? {tie : Tie} {rest den : Nat} {below above d : Decimal} {lower upper : Bool}
    (h : nearer? tie rest den below above lower upper = some d) :
    lower = true ∧ d = below ∨ upper = true ∧ d = above := by
  cases lower <;> cases upper
  case true.true =>
    simp only [nearer?] at h
    split at h
    · exact .inl ⟨rfl, (Option.some.inj h).symm⟩
    · split at h
      · exact .inr ⟨rfl, (Option.some.inj h).symm⟩
      · cases tie with
        | up => exact .inr ⟨rfl, (Option.some.inj h).symm⟩
        | even =>
            cases h
            split
            · exact .inl ⟨rfl, rfl⟩
            · exact .inr ⟨rfl, rfl⟩
  case true.false => exact .inl ⟨rfl, (Option.some.inj h).symm⟩
  case false.true => exact .inr ⟨rfl, (Option.some.inj h).symm⟩
  case false.false => cases h

theorem rank_nearestOn? {tie : Tie} {rank : Nat} {e : Int} {d : Decimal}
    (h : nearestOn? tie rank e = some d) : d.rank = rank := by
  rcases of_nearer? h with ⟨hrank, rfl⟩ | ⟨hrank, rfl⟩ <;> exact of_decide_eq_true hrank

theorem rank_shortest (tie : Tie) (rank : Nat) : (shortest tie rank).rank = rank := by
  rw [shortest, rank_trim]
  cases hfound : (List.range' 1 17).findSome? fun (n : Nat) =>
      nearestOn? tie rank (magnitude (unitsAt rank) - n) with
  | none => exact rank_exact rank
  | some d =>
      obtain ⟨n, -, hn⟩ := List.exists_of_findSome?_eq_some hfound
      exact rank_nearestOn? hn

/-! ## The place of the point -/

/-- The place of the point before the digits of a decimal: one more than the exponent of the
leading digit. -/
def point (d : Decimal) : Int :=
  d.exponent + (Nat.toDigits 10 d.digits).length

theorem length_toDigits_le {n k : Nat} (h : n < 10 ^ k) : (Nat.toDigits 10 n).length ≤ k + 1 :=
  (Nat.length_toDigits_le_iff (by decide) (Nat.succ_pos k)).2
    (Nat.lt_of_lt_of_le h (Nat.pow_le_pow_right (by decide) (Nat.le_succ k)))

theorem point_bounds {n k : Nat} {e : Int} (h : n < 10 ^ k) :
    e < point ⟨n, e⟩ ∧ point ⟨n, e⟩ ≤ e + k + 1 := by
  have hpos := Nat.length_toDigits_pos (b := 10) (n := n)
  have hle := length_toDigits_le h
  simp only [point]
  omega

theorem point_trim (d : Decimal) : d.trim.point = d.point := by
  induction d using trim.induct with
  | case1 d h ih =>
      obtain ⟨n, e⟩ := d
      obtain ⟨hne, hlast⟩ : n ≠ 0 ∧ n % 10 = 0 := h
      have hdigits := Nat.toDigits_append_toDigits (b := 10) (n := n / 10) (d := 0) (by decide)
        (by omega) (by decide)
      rw [show 10 * (n / 10) + 0 = n by omega] at hdigits
      rw [trim, if_pos ⟨hne, hlast⟩, ih]
      simp only [point, ← hdigits, List.length_append]
      have : (Nat.toDigits 10 0).length = 1 := rfl
      omega
  | case2 d h => rw [trim, if_neg h]

theorem magnitude_bounds {units u k : Nat} (hunits : units < 10 ^ u)
    (hk : unitsPerOne = Nat.pow 2 k) :
    -(k : Int) ≤ magnitude units ∧ magnitude units ≤ u + 1 := by
  have hone : unitsPerOne - 1 < 10 ^ k := by
    rw [hk]
    have : Nat.pow 2 k ≤ 10 ^ k := Nat.pow_le_pow_left (by decide) k
    have : 0 < Nat.pow 2 k := Nat.two_pow_pos k
    omega
  have hsmall := length_toDigits_le
    (Nat.lt_of_le_of_lt (Nat.div_le_self (unitsPerOne - 1) units) hone)
  have hlarge := length_toDigits_le (Nat.lt_of_le_of_lt (Nat.div_le_self units unitsPerOne) hunits)
  have hpos := Nat.length_toDigits_pos (b := 10) (n := (unitsPerOne - 1) / units)
  simp only [magnitude]
  split <;> omega

theorem point_nearestOn? {tie : Tie} {rank u : Nat} {e : Int} {d : Decimal}
    (h : nearestOn? tie rank e = some d) (hunits : unitsAt rank < 10 ^ u) :
    e < d.point ∧ d.point ≤ e + (-e).toNat + u + 2 := by
  have hgrid : ∀ den, unitsAt rank * Nat.pow 10 (-e).toNat / den < 10 ^ (u + (-e).toNat) := by
    intro den
    refine Nat.lt_of_le_of_lt (Nat.div_le_self _ _) ?_
    rw [Nat.pow_add]
    exact Nat.mul_lt_mul_of_pos_right hunits (Nat.pow_pos (by decide))
  have hnext : 10 ^ (u + (-e).toNat) < 10 ^ (u + (-e).toNat + 1) :=
    Nat.pow_lt_pow_right (by decide) (Nat.lt_succ_self _)
  have hbounds : ∀ {n}, n < 10 ^ (u + (-e).toNat + 1) →
      e < point ⟨n, e⟩ ∧ point ⟨n, e⟩ ≤ e + (-e).toNat + u + 2 := by
    intro n hn
    have := point_bounds (e := e) hn
    omega
  rcases of_nearer? h with ⟨-, rfl⟩ | ⟨-, rfl⟩
  · exact hbounds (Nat.lt_trans (hgrid _) hnext)
  · exact hbounds (Nat.lt_of_le_of_lt (hgrid _) hnext)

theorem point_shortest (tie : Tie) (rank : Fin rankBound) :
    (shortest tie rank).point.natAbs < 10000 := by
  obtain ⟨k, hk, hone, hexact⟩ := exact_eq rank
  obtain ⟨u, hu, hunits⟩ : ∃ u ≤ 2100, unitsAt rank < 10 ^ u := by
    refine ⟨53 + rank / ranksPerStep, ?_, Nat.lt_of_lt_of_le (unitsAt_lt rank)
      (Nat.pow_le_pow_left (by decide) _)⟩
    have : rank / ranksPerStep < 2047 := Nat.div_lt_of_lt_mul (by
      rw [Nat.mul_comm]
      exact rank.isLt)
    omega
  rw [shortest, point_trim]
  cases hfound : (List.range' 1 17).findSome? fun (n : Nat) =>
      nearestOn? tie rank (magnitude (unitsAt rank) - n) with
  | none =>
      have hdigits : unitsAt rank * Nat.pow 5 k < 10 ^ (u + k) := by
        rw [Nat.pow_add]
        exact Nat.mul_lt_mul_of_lt_of_le hunits (Nat.pow_le_pow_left (by decide) k)
          (Nat.pow_pos (by decide))
      have := point_bounds (e := -k) hdigits
      simp only [Option.getD_none, hexact]
      omega
  | some d =>
      obtain ⟨n, hn, hd⟩ := List.exists_of_findSome?_eq_some hfound
      have hn : n ≤ 17 := by
        have := (List.mem_range'_1.1 hn).2
        omega
      have := magnitude_bounds hunits hone
      have := point_nearestOn? hd hunits
      simp only [Option.getD_some]
      omega

end Decimal

end IndentScript
