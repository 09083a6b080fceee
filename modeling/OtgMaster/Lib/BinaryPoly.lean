import Mathlib

/-!
Numbers as polynomials over the field of two elements: bit `i` is the coefficient of `X ^ i`.
Exclusive or is addition, a shift is multiplication by a power of `X`, and the numbers below `2 ^ k`
are the polynomials of degree below `k`; so a remainder that is computed on the bits is the
remainder of the polynomials (`poly_eq_modByMonic`).
-/

namespace OtgMaster.Lib

open Polynomial

/-- The polynomial that a number's bits are the coefficients of. -/
noncomputable def poly (n : ℕ) : (ZMod 2)[X] :=
  ∑ i ∈ Finset.range n.size, if n.testBit i then X ^ i else 0

section BinaryPoly

variable {a b k n : ℕ}

lemma coeff_poly (n i : ℕ) : (poly n).coeff i = if n.testBit i then 1 else 0 := by
  have hterm (j : ℕ) : (if n.testBit j then (X : (ZMod 2)[X]) ^ j else 0).coeff i =
      if i = j then (if n.testBit i then 1 else 0) else 0 := by
    split_ifs <;> simp_all [coeff_X_pow]
  rw [poly, finsetSum_coeff]
  simp only [hterm, Finset.sum_ite_eq, Finset.mem_range]
  split_ifs with hi hb hb
  · rfl
  · rfl
  · have hlt : n < 2 ^ i := n.lt_size_self.trans_le (Nat.pow_le_pow_right two_pos (not_lt.1 hi))
    rw [Nat.testBit_lt_two_pow hlt] at hb
    cases hb
  · rfl

@[simp] lemma poly_zero : poly 0 = 0 := by simp [poly]

@[simp] lemma poly_one : poly 1 = 1 := by
  ext i
  rw [coeff_poly, coeff_one]
  by_cases h : i = 0
  · rw [h]; rfl
  · rw [if_neg h, Nat.testBit_lt_two_pow (Nat.one_lt_two_pow h), if_neg (by decide)]

lemma poly_xor (a b : ℕ) : poly (a ^^^ b) = poly a + poly b := by
  ext i
  simp only [coeff_add, coeff_poly, Nat.testBit_xor]
  cases a.testBit i <;> cases b.testBit i <;> decide

lemma poly_shiftLeft (a k : ℕ) : poly (a <<< k) = poly a * X ^ k := by
  ext i
  rw [coeff_mul_X_pow', coeff_poly, Nat.testBit_shiftLeft]
  split_ifs <;> simp_all [coeff_poly]

lemma poly_or (h : ∀ i, ¬(a.testBit i ∧ b.testBit i)) : poly (a ||| b) = poly a + poly b := by
  ext i
  have hi := h i
  simp only [coeff_add, coeff_poly, Nat.testBit_or]
  cases ha : a.testBit i <;> cases hb : b.testBit i <;> simp_all

lemma poly_append (hb : b < 2 ^ k) : poly (a <<< k ||| b) = poly a * X ^ k + poly b := by
  rw [poly_or, poly_shiftLeft]
  rintro i ⟨h1, h2⟩
  rw [Nat.testBit_shiftLeft, Bool.and_eq_true, decide_eq_true_eq] at h1
  rw [Nat.testBit_lt_two_pow (hb.trans_le (Nat.pow_le_pow_right two_pos h1.1))] at h2
  cases h2

lemma degree_poly_lt (h : n < 2 ^ k) : (poly n).degree < k := by
  rw [degree_lt_iff_coeff_zero]
  intro i hi
  rw [coeff_poly, Nat.testBit_lt_two_pow (h.trans_le (Nat.pow_le_pow_right two_pos hi))]
  rfl

lemma poly_monic (h1 : 2 ^ k ≤ n) (h2 : n < 2 ^ (k + 1)) : (poly n).Monic ∧ (poly n).degree = k := by
  have hbit : n.testBit k = true := Nat.testBit_of_two_pow_le_and_two_pow_add_one_gt h1 h2
  have hcoeff : (poly n).coeff k = 1 := by rw [coeff_poly, hbit]; rfl
  have hle : (poly n).degree ≤ k := by
    rw [degree_le_iff_coeff_zero]
    intro i hi
    have hlt : n < 2 ^ i := h2.trans_le (Nat.pow_le_pow_right two_pos (by exact_mod_cast hi))
    rw [coeff_poly, Nat.testBit_lt_two_pow hlt]
    rfl
  exact ⟨monic_of_degree_le k hle hcoeff,
    le_antisymm hle (le_degree_of_ne_zero (by rw [hcoeff]; exact one_ne_zero))⟩

/-- **A remainder on the bits is the remainder of the polynomials**: a number of fewer bits than the
modulus that is congruent to `f` is the remainder of `f`. -/
theorem poly_eq_modByMonic {p f : (ZMod 2)[X]} (hp : p.Monic) (hdeg : p.degree = k) (hn : n < 2 ^ k)
    (h : AdjoinRoot.mk p (poly n) = AdjoinRoot.mk p f) : poly n = f %ₘ p := by
  have hself : poly n %ₘ p = poly n :=
    (modByMonic_eq_self_iff hp).2 (by rw [hdeg]; exact degree_poly_lt hn)
  rw [← hself]
  exact modByMonic_eq_of_dvd_sub hp (AdjoinRoot.mk_eq_mk.1 h)

lemma xor_lt_top (ha : 2 ^ k ≤ a ∧ a < 2 ^ (k + 1)) (hb : 2 ^ k ≤ b ∧ b < 2 ^ (k + 1)) :
    a ^^^ b < 2 ^ k := by
  refine Nat.lt_pow_two_of_testBit _ fun i hi => ?_
  rw [Nat.testBit_xor]
  rcases Nat.eq_or_lt_of_le hi with rfl | hi
  · rw [Nat.testBit_of_two_pow_le_and_two_pow_add_one_gt ha.1 ha.2,
      Nat.testBit_of_two_pow_le_and_two_pow_add_one_gt hb.1 hb.2]
    rfl
  · rw [Nat.testBit_lt_two_pow (ha.2.trans_le (Nat.pow_le_pow_right two_pos hi)),
      Nat.testBit_lt_two_pow (hb.2.trans_le (Nat.pow_le_pow_right two_pos hi))]
    rfl

lemma xor_halves (m n : ℕ) (ha : a < 2 ^ k) (hb : b < 2 ^ k) :
    (2 ^ k * m + a) ^^^ (2 ^ k * n + b) = 2 ^ k * (m ^^^ n) + (a ^^^ b) := by
  refine Nat.eq_of_testBit_eq fun i => ?_
  rw [Nat.testBit_xor, Nat.testBit_two_pow_mul_add _ ha, Nat.testBit_two_pow_mul_add _ hb,
    Nat.testBit_two_pow_mul_add _ (Nat.xor_lt_two_pow ha hb)]
  split
  · rw [Nat.testBit_xor]
  · rw [Nat.testBit_xor]

/-! ### times `X` -/

lemma poly_double (n : ℕ) : poly (2 * n) = poly n * X := by
  rw [← pow_one X, ← poly_shiftLeft, Nat.shiftLeft_eq, pow_one, Nat.mul_comm]

lemma poly_two : poly 2 = X := by
  have h := poly_double 1
  rwa [poly_one, one_mul] at h

/-- Twice a number of `k` bits, reduced by a modulus `m` of `k + 1` bits. -/
def timesX (m k n : ℕ) : ℕ := if 2 * n < 2 ^ k then 2 * n else 2 * n ^^^ m

variable {m : ℕ}

lemma timesX_lt (hm : 2 ^ k ≤ m ∧ m < 2 ^ (k + 1)) (hn : n < 2 ^ k) : timesX m k n < 2 ^ k := by
  unfold timesX
  split
  · assumption
  · exact xor_lt_top ⟨by omega, by rw [Nat.pow_succ]; omega⟩ hm

lemma mk_timesX (m k n : ℕ) :
    AdjoinRoot.mk (poly m) (poly (timesX m k n)) = AdjoinRoot.mk (poly m) (poly n * X) := by
  unfold timesX
  split
  · rw [poly_double]
  · rw [poly_xor, poly_double, map_add, AdjoinRoot.mk_self, add_zero]

/-- **Doubling with a reduction is multiplication by `X`** modulo the polynomial of `m`, however
often it is done. -/
theorem poly_iterate_timesX (hm : 2 ^ k ≤ m ∧ m < 2 ^ (k + 1)) (hn : n < 2 ^ k) (j : ℕ) :
    poly ((timesX m k)^[j] n) = (poly n * X ^ j) %ₘ poly m := by
  obtain ⟨hmonic, hdeg⟩ := poly_monic hm.1 hm.2
  have hlt : ∀ j, (timesX m k)^[j] n < 2 ^ k := by
    intro j
    induction j with
    | zero => exact hn
    | succ j ih =>
      rw [Function.iterate_succ_apply']
      exact timesX_lt hm ih
  refine poly_eq_modByMonic hmonic hdeg (hlt j) ?_
  induction j with
  | zero => rw [Function.iterate_zero_apply, pow_zero, mul_one]
  | succ j ih => rw [Function.iterate_succ_apply', mk_timesX, map_mul, ih, ← map_mul, mul_assoc,
    ← pow_succ]

end BinaryPoly

end OtgMaster.Lib
