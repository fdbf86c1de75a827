import Mathlib.Algebra.Group.Nat.Defs
import PartialTx.Binary64.Basic

/-! Whole numbers as numbers of the format. The nearest number is infinite exactly from the middle
between the greatest finite number and the power of two behind it on; the middle goes up, as the
greatest finite number has an odd mantissa. -/

namespace PartialTx.Binary64

/-! ### The grid -/

theorem power_natCast (base k : Nat) : power base k = (base ^ k, 1) := by
  rw [power, if_pos (Int.natCast_nonneg k), Int.toNat_natCast]
  rfl

theorem power_neg_natCast (base k : Nat) : power base (-k) = (1, base ^ k) := by
  rcases Nat.eq_zero_or_pos k with rfl | hk
  · rfl
  · rw [power, if_neg (by omega), Int.neg_neg, Int.toNat_natCast]
    rfl

/-- The grid of a whole number goes by its highest bit alone. -/
theorem gridExponent_one {n : Nat} (hn : n ≠ 0) : gridExponent n 1 = (n.log2 : Int) - 52 := by
  have hlow := Nat.log2_self_le hn
  have hfull : 2 * leastNormal * (1 * (power 2 ((n.log2 : Int) - 53)).1) ≤
      n * (power 2 ((n.log2 : Int) - 53)).2 := by
    have hleast : 2 * leastNormal = 2 ^ 53 := rfl
    rcases Nat.le_total 53 n.log2 with hL | hL
    · have hpower : power 2 ((n.log2 : Int) - 53) = (2 ^ (n.log2 - 53), 1) := by
        rw [← power_natCast, Int.natCast_sub hL]
        rfl
      rw [hpower, hleast, Nat.one_mul, Nat.mul_one, ← Nat.pow_add, Nat.add_sub_cancel' hL]
      exact hlow
    · have hpower : power 2 ((n.log2 : Int) - 53) = (1, 2 ^ (53 - n.log2)) := by
        rw [← power_neg_natCast, Int.natCast_sub hL, Int.neg_sub]
        rfl
      rw [hpower, hleast, Nat.mul_one, Nat.mul_one, ← Nat.add_sub_cancel' hL, Nat.pow_add]
      rw [Nat.add_sub_cancel_left]
      exact Nat.mul_le_mul_right _ hlow
  have hsize : ((n.log2 : Int) - Nat.log2 1 - 53) = n.log2 - 53 := by
    rw [show Nat.log2 1 = 0 from rfl]
    omega
  rw [gridExponent, hsize]
  simp only [if_pos hfull]
  omega

/-- The middle between `2^(54 + k)` and the number of the format in front of it. -/
def middle (k : Nat) : Nat := 2 ^ 54 * 2 ^ k - 2 ^ k

theorem lt_middle {n k : Nat} (h : n.log2 < 53 + k) : n < middle k := by
  have hhigh := Nat.lt_log2_self (n := n)
  have hle : 2 ^ (n.log2 + 1) ≤ 2 ^ 53 * 2 ^ k := by
    rw [← Nat.pow_add]
    exact Nat.pow_le_pow_right (by decide) h
  rw [middle]
  omega

theorem middle_le {n k : Nat} (hn : n ≠ 0) (h : 53 + k < n.log2) : middle k ≤ n := by
  have hlow := Nat.log2_self_le hn
  have hle : 2 ^ 54 * 2 ^ k ≤ 2 ^ n.log2 := by
    rw [← Nat.pow_add]
    exact Nat.pow_le_pow_right (by decide) (by omega)
  rw [middle]
  omega

/-- From the middle on, rounding goes up to the power of two. -/
theorem roundDiv_eq_iff {n k : Nat} (h : n.log2 = 53 + k) :
    roundDiv n (2 ^ (k + 1)) = 2 * leastNormal ↔ middle k ≤ n := by
  have hhalf := Nat.two_pow_pos k
  have hn : n < 2 ^ 54 * 2 ^ k := by
    have hhigh := Nat.lt_log2_self (n := n)
    have hexp : n.log2 + 1 = 54 + k := by omega
    rwa [hexp, Nat.pow_add] at hhigh
  rw [middle, Nat.pow_succ']
  generalize 2 ^ k = half at *
  have hleast : 2 * leastNormal = 2 ^ 53 := rfl
  have hdiv := Nat.div_add_mod n (2 * half)
  have hmod := Nat.mod_lt n (show 0 < 2 * half by omega)
  have hlt : n / (2 * half) < 2 ^ 53 := by
    rw [Nat.div_lt_iff_lt_mul (by omega)]
    omega
  rw [roundDiv, hleast]
  generalize n / (2 * half) = q at *
  generalize n % (2 * half) = r at *
  rcases Nat.lt_or_ge q (2 ^ 53 - 1) with hq | hq
  · have hnext : 2 * half * (q + 1) ≤ 2 * half * (2 ^ 53 - 1) := Nat.mul_le_mul_left _ hq
    rw [Nat.mul_succ] at hnext
    constructor
    · intro hround
      split at hround <;> omega
    · intro hle
      omega
  · obtain rfl : q = 2 ^ 53 - 1 := by omega
    -- the mantissa below is odd, so that the middle itself goes up
    have hodd : (2 ^ 53 - 1) % 2 = 1 := rfl
    have hup : (2 * half < 2 * r ∨ 2 * half = 2 * r) ↔ 2 ^ 54 * half - half ≤ n := by omega
    rw [← hup]
    simp only [hodd, beq_self_eq_true, Bool.and_true, Bool.or_eq_true, decide_eq_true_eq,
      beq_iff_eq]
    split
    next h => exact ⟨fun _ => h, fun _ => rfl⟩
    next h => exact ⟨fun hround => absurd hround (by omega), fun h' => absurd h' h⟩

/-! ### The range -/

/-- The exponent is one more than that of the grid where rounding comes to a power of two. -/
theorem ofRatio_eq (negative : Bool) {num den : Nat} (hnum : num ≠ 0) :
    let e := gridExponent num den
    let m := roundDiv (num * (power 2 e).2) (den * (power 2 e).1)
    let carried := m = 2 * leastNormal
    ofRatio negative num den =
      if 971 < (if carried then e + 1 else e) then .infinite negative
      else .finite negative (if carried then leastNormal else m) (if carried then e + 1 else e) := by
  intro e m carried
  rw [ofRatio, if_neg hnum]
  by_cases hm : carried
  · rw [if_pos hm, if_pos hm]
    dsimp only
    rw [if_pos hm]
  · rw [if_neg hm, if_neg hm]
    dsimp only
    rw [if_neg hm]

/-- The least size of a whole number that is too great, `2^1024 - 2^970`. -/
def overflowThreshold : Nat := middle 970

/-- A whole number is too great exactly from the threshold on. -/
theorem ofRatio_one (negative : Bool) (n : Nat) :
    (overflowThreshold ≤ n → ofRatio negative n 1 = .infinite negative) ∧
      (n < overflowThreshold → ∃ m e, ofRatio negative n 1 = .finite negative m e) := by
  rw [overflowThreshold]
  by_cases hn : n = 0
  · subst hn
    have hlt := lt_middle (n := 0) (k := 970) (by decide)
    exact ⟨fun h => absurd h (Nat.not_le_of_gt hlt), fun _ => ⟨0, -1074, rfl⟩⟩
  rw [ofRatio_eq negative hn, gridExponent_one hn]
  rcases Nat.lt_trichotomy n.log2 1023 with hL | hL | hL
  · refine ⟨fun h => absurd h (Nat.not_le_of_gt (lt_middle hL)), fun _ => ?_⟩
    rw [if_neg (by split <;> omega)]
    exact ⟨_, _, rfl⟩
  · -- the last step of the grid, where it is rounding that decides
    have hexp : (n.log2 : Int) - 52 = (970 + 1 : Nat) := by omega
    have hround := roundDiv_eq_iff (n := n) (k := 970) hL
    rw [hexp, power_natCast, Nat.mul_one, Nat.one_mul]
    simp only [hround]
    refine ⟨fun h => ?_, fun h => ?_⟩
    · rw [if_pos h]
      rfl
    · have h' := Nat.not_le_of_gt h
      rw [if_neg h']
      exact ⟨_, _, rfl⟩
  · have hge := middle_le (k := 970) hn hL
    exact ⟨fun _ => if_pos (by split <;> omega), fun h => absurd h (Nat.not_lt_of_ge hge)⟩

/-- A whole number that is not too great is finite, and one that is too great is not. -/
theorem ofInt_eq (n : Int) :
    (overflowThreshold ≤ n.natAbs → ofInt n = .infinite (n < 0)) ∧
      (n.natAbs < overflowThreshold → ∃ m e, ofInt n = .finite (n < 0) m e) :=
  ofRatio_one _ _

end PartialTx.Binary64
