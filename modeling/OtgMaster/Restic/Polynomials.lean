import OtgMaster.Lib.BenOr
import OtgMaster.Restic.Chunks

/-!
`Polynomials`: how the writer chooses the polynomial of a new repository's chunker. Polynomials over
the field of two elements are kept in a `Long`; one is taken for irreducible by Ben-Or's test, with
a multiplication modulo the polynomial and a greatest common divisor that work on the bits. Both are
what they are called on the whole range of a `Long`, so the test is right for every polynomial that
leaves a bit for the doubling (`irreducible_correct`).
-/

namespace OtgMaster.Restic

open Lib Block Polynomial

/-! ### the remainder in all cases -/

section Remainder

variable {m : UInt64} {k : ℕ}

lemma hasDegree_of_ne_zero {b : UInt64} (hb : b ≠ 0) : ∃ k, HasDegree b k := by
  obtain ⟨k, hk⟩ : ∃ k, b.toNat.size = k + 1 :=
    Nat.exists_eq_succ_of_ne_zero fun h => hb (UInt64.toNat_inj.1 (Nat.size_eq_zero.1 h))
  exact ⟨k, Nat.lt_size.1 (by omega), Nat.size_le.1 (by omega)⟩

lemma mod_toNat_lt (a : UInt64) {b : UInt64} (hb : b ≠ 0) : (mod a b).toNat < b.toNat := by
  obtain ⟨k, hk⟩ := hasDegree_of_ne_zero hb
  exact (mod_spec hk a).1.trans_le hk.low

lemma dvd_of_residue_eq {a b : ℕ} (h : residue m a = residue m b) : poly m.toNat ∣ poly a - poly b :=
  AdjoinRoot.mk_eq_mk.1 h

lemma HasDegree.natDegree (h : HasDegree m k) : (poly m.toNat).natDegree = k :=
  natDegree_eq_of_degree_eq_some h.monic.2

end Remainder

namespace Polynomials

/-! ### the code -/

/-- The loop of `mulMod`. A turn shifts `b`, so there are at most 64. -/
def mulLoop (m : UInt64) : (turns : ℕ) → (a b r : UInt64) → UInt64
  | 0, _, _, r => r
  | turns + 1, a, b, r =>
    if b = 0 then r
    else
      let r := if b &&& 1 ≠ 0 then r ^^^ a else r
      let b := b >>> 1
      let a := a <<< 1
      mulLoop m turns (if deg m ≤ deg a then a ^^^ m else a) b r

def mulMod (a0 b0 m : UInt64) : UInt64 := mulLoop m 64 (mod a0 m) b0 0

def gcd (a b : UInt64) : UInt64 := if b = 0 then a else gcd b (mod a b)
termination_by b.toNat
decreasing_by exact mod_toNat_lt a ‹_›

def benOrLoop (f : UInt64) : (turns : ℕ) → (xp : UInt64) → Bool
  | 0, _ => true
  | turns + 1, xp =>
    let xp := mulMod xp xp f
    if gcd f (xp ^^^ 2) ≠ 1 then false else benOrLoop f turns xp

def irreducible (f : UInt64) : Bool := benOrLoop f ((deg f).tdiv 2).toNat 2

/-- A random number made one of degree 53 that `x` does not divide. -/
def candidate (p : UInt64) : UInt64 :=
  p &&& ((1 : UInt64) <<< (54 : UInt64) - 1) ||| (1 : UInt64) <<< (53 : UInt64) ||| 1

def randomIrreducible : List UInt64 → Option UInt64
  | [] => none
  | p :: random => if irreducible (candidate p) then some (candidate p) else randomIrreducible random

/-! ### multiplication -/

section Multiplication

variable {m : UInt64} {k : ℕ}

lemma residue_halve (b : ℕ) :
    residue m b = residue m (b % 2) + residue m (b / 2) * AdjoinRoot.root (poly m.toNat) := by
  have h : residue m ((b / 2) <<< 1 ||| b % 2) = _ := residue_append (m := 1) (Nat.mod_lt _ two_pos)
  rw [pow_one, add_comm] at h
  rw [← h]
  congr 1
  refine Nat.eq_of_testBit_eq fun i => ?_
  cases i with
  | zero => simp [Nat.testBit_zero]
  | succ i =>
    have hlow : (b % 2).testBit (i + 1) = false :=
      Nat.testBit_lt_two_pow ((Nat.mod_lt b two_pos).trans_le (Nat.le_self_pow (Nat.succ_ne_zero i) 2))
    rw [Nat.testBit_or, hlow, Bool.or_false, Nat.testBit_shiftLeft]
    simp [Nat.testBit_succ]

lemma double_spec (hm : HasDegree m k) (hk : k ≤ 62) {a : UInt64} (ha : a.toNat < 2 ^ k) :
    (if deg m ≤ deg (a <<< 1) then a <<< 1 ^^^ m else a <<< 1).toNat < 2 ^ k ∧
      residue m (if deg m ≤ deg (a <<< 1) then a <<< 1 ^^^ m else a <<< 1).toNat =
        residue m a.toNat * AdjoinRoot.root (poly m.toNat) := by
  have hshift : (a <<< 1).toNat = a.toNat <<< 1 := toNat_shl (m := 1) ha (by omega) (by omega)
  have hdouble : residue m (a <<< 1).toNat = residue m a.toNat * AdjoinRoot.root (poly m.toNat) := by
    rw [hshift, residue_shift, pow_one]
  have hlt : (a <<< 1).toNat < 2 ^ (k + 1) := by
    rw [hshift, Nat.shiftLeft_eq, pow_succ]
    omega
  rw [hm.deg_eq]
  split
  · rename_i hdeg
    have hlow : 2 ^ k ≤ (a <<< 1).toNat := Nat.lt_size.1 (by unfold deg at hdeg; omega)
    rw [UInt64.toNat_xor, residue_xor, residue_self, add_zero]
    exact ⟨xor_lt_top ⟨hlow, hlt⟩ ⟨hm.low, hm.high⟩, hdouble⟩
  · rename_i hdeg
    exact ⟨Nat.size_le.1 (by unfold deg at hdeg; omega), hdouble⟩

lemma mulLoop_spec (hm : HasDegree m k) (hk : k ≤ 62) :
    ∀ (turns : ℕ) (a b r : UInt64), a.toNat < 2 ^ k → r.toNat < 2 ^ k →
    b.toNat < 2 ^ turns → (mulLoop m turns a b r).toNat < 2 ^ k ∧
      residue m (mulLoop m turns a b r).toNat = residue m r.toNat + residue m a.toNat *
        residue m b.toNat := by
  intro turns
  induction turns with
  | zero =>
    intro a b r _ hr hb
    rw [pow_zero, Nat.lt_one_iff] at hb
    rw [mulLoop, hb, residue_zero, mul_zero, add_zero]
    exact ⟨hr, rfl⟩
  | succ turns ih =>
    intro a b r ha hr hb
    rw [mulLoop]
    by_cases hzero : b = 0
    · rw [if_pos hzero, hzero]
      exact ⟨hr, by rw [UInt64.toNat_zero, residue_zero, mul_zero, add_zero]⟩
    rw [if_neg hzero]
    dsimp only
    have hhalf : (b >>> 1).toNat = b.toNat / 2 := by
      rw [UInt64.toNat_shiftRight]
      exact Nat.shiftRight_eq_div_pow ..
    have hbit : (b &&& 1).toNat = b.toNat % 2 := by
      rw [UInt64.toNat_and]
      exact Nat.and_one_is_mod _
    obtain ⟨halt, hares⟩ := double_spec hm hk ha
    -- what the lowest bit of `b` adds
    have hadd : (if b &&& 1 ≠ 0 then r ^^^ a else r).toNat < 2 ^ k ∧
        residue m (if b &&& 1 ≠ 0 then r ^^^ a else r).toNat =
          residue m r.toNat + residue m a.toNat * residue m (b.toNat % 2) := by
      rcases Nat.mod_two_eq_zero_or_one b.toNat with h0 | h1
      · have : b &&& 1 = 0 := UInt64.toNat_inj.1 (hbit.trans h0)
        rw [if_neg (not_not.2 this), h0, residue_zero, mul_zero, add_zero]
        exact ⟨hr, rfl⟩
      · have : b &&& 1 ≠ 0 := fun h => by
          rw [h, h1] at hbit
          exact absurd hbit (by decide)
        rw [if_pos this, UInt64.toNat_xor, residue_xor, h1]
        refine ⟨Nat.xor_lt_two_pow hr ha, ?_⟩
        rw [show residue m 1 = 1 by rw [residue, poly_one, map_one], mul_one]
    obtain ⟨h1, h2⟩ := ih _ (b >>> 1) _ halt hadd.1 (by rw [hhalf]; rw [pow_succ] at hb; omega)
    refine ⟨h1, h2.trans ?_⟩
    rw [hadd.2, hares, hhalf, residue_halve (m := m) b.toNat]
    ring

/-- **`mulMod` is the product modulo the polynomial.** -/
lemma mulMod_spec (hm : HasDegree m k) (hk : k ≤ 62) (a b : UInt64) :
    (mulMod a b m).toNat < 2 ^ k ∧
    residue m (mulMod a b m).toNat = residue m a.toNat * residue m b.toNat := by
  obtain ⟨h1, h2⟩ := mulLoop_spec hm hk 64 (mod a m) b 0 (mod_spec hm a).1 (Nat.two_pow_pos k) b.toNat_lt
  refine ⟨h1, h2.trans ?_⟩
  rw [UInt64.toNat_zero, residue_zero, zero_add, (mod_spec hm a).2]

lemma poly_mulMod (hm : HasDegree m k) (hk : k ≤ 62) (a b : UInt64) :
    poly (mulMod a b m).toNat = (poly a.toNat * poly b.toNat) %ₘ poly m.toNat := by
  obtain ⟨h1, h2⟩ := mulMod_spec hm hk a b
  exact poly_eq_modByMonic hm.monic.1 hm.monic.2 h1 (h2.trans (map_mul ..).symm)

end Multiplication

/-! ### the greatest common divisor -/

lemma dvd_gcd_iff (a b : UInt64) (q : (ZMod 2)[X]) :
    q ∣ poly (gcd a b).toNat ↔ q ∣ poly a.toNat ∧ q ∣ poly b.toNat := by
  fun_induction gcd a b with
  | case1 a => simp
  | case2 a b hb ih =>
    obtain ⟨k, hk⟩ := hasDegree_of_ne_zero hb
    have hmod := dvd_of_residue_eq (mod_spec hk a).2
    rw [ih, and_comm]
    refine and_congr_left fun hq => ?_
    rw [← dvd_sub_left (hq.trans hmod) , sub_sub_cancel]

lemma gcd_eq_one_iff (a b : UInt64) : gcd a b = 1 ↔ IsCoprime (poly a.toNat) (poly b.toNat) := by
  constructor
  · intro h
    refine IsRelPrime.isCoprime fun q ha hb => ?_
    have := (dvd_gcd_iff a b q).2 ⟨ha, hb⟩
    rw [h] at this
    exact isUnit_of_dvd_one (poly_one ▸ this)
  · intro h
    have hself := (dvd_gcd_iff a b (poly (gcd a b).toNat)).1 dvd_rfl
    have hunit : IsUnit (poly (gcd a b).toNat) := h.isUnit_of_dvd' hself.1 hself.2
    by_cases hzero : gcd a b = 0
    · rw [hzero, UInt64.toNat_zero, poly_zero] at hunit
      exact absurd hunit not_isUnit_zero
    · obtain ⟨k, hk⟩ := hasDegree_of_ne_zero hzero
      have hdeg := degree_eq_zero_of_isUnit hunit
      rw [hk.monic.2] at hdeg
      have hk0 : k = 0 := by exact_mod_cast hdeg
      have hlow := hk.low
      have hhigh := hk.high
      rw [hk0] at hlow hhigh
      exact UInt64.toNat_inj.1 (by simp at hlow hhigh ⊢; omega)

/-! ### the test -/

section Test

variable {f : UInt64} {k : ℕ}

/-- A turn of the test: what is left of `x ^ 2 ^ i` decides whether `f` is coprime to `x ^ 2 ^ i -
x`. -/
lemma gcd_turn_iff {xp : UInt64} {n : ℕ}
    (hxp : residue f xp.toNat = AdjoinRoot.root (poly f.toNat) ^ n) :
    gcd f (xp ^^^ 2) = 1 ↔ IsCoprime (poly f.toNat) (X ^ n - X) := by
  have hdvd : poly f.toNat ∣ poly (xp ^^^ 2).toNat - (X ^ n - X) := by
    rw [CharTwo.sub_eq_add (X ^ n : (ZMod 2)[X]) X]
    refine AdjoinRoot.mk_eq_mk.1 ?_
    rw [UInt64.toNat_xor, show (2 : UInt64).toNat = 2 from rfl, poly_xor, poly_two, map_add,
      map_add, map_pow, AdjoinRoot.mk_X]
    exact congrArg (· + _) hxp
  obtain ⟨q, hq⟩ := hdvd
  rw [gcd_eq_one_iff, sub_eq_iff_eq_add'.1 hq, IsCoprime.add_mul_left_right_iff]

/-- **The loop of the test**, from the `i`-th power on. -/
lemma benOrLoop_iff (hf : HasDegree f k) (hk : k ≤ 62) : ∀ (turns i : ℕ) (xp : UInt64),
    residue f xp.toNat = AdjoinRoot.root (poly f.toNat) ^ 2 ^ i →
    (benOrLoop f turns xp = true ↔ ∀ j, i < j → j ≤ i + turns →
      IsCoprime (poly f.toNat) (X ^ 2 ^ j - X)) := by
  intro turns
  induction turns with
  | zero =>
    intro i xp _
    exact iff_of_true rfl fun j h1 h2 => by omega
  | succ turns ih =>
    intro i xp hxp
    have hsquare : residue f (mulMod xp xp f).toNat = AdjoinRoot.root (poly f.toNat) ^ 2 ^ (i + 1) := by
      rw [(mulMod_spec hf hk xp xp).2, hxp, ← pow_add, ← two_mul, ← pow_succ']
    rw [benOrLoop]
    have hturn := gcd_turn_iff hsquare
    by_cases hone : gcd f (mulMod xp xp f ^^^ 2) = 1
    · rw [if_neg (not_not.2 hone), ih (i + 1) _ hsquare]
      constructor
      · intro h j h1 h2
        rcases Nat.eq_or_lt_of_le (Nat.succ_le_of_lt h1) with rfl | h1
        · exact hturn.1 hone
        · exact h j h1 (by omega)
      · intro h j h1 h2
        exact h j (by omega) (by omega)
    · rw [if_pos hone]
      refine iff_of_false (by decide) fun h => hone (hturn.2 ?_)
      exact h (i + 1) (by omega) (by omega)

lemma irreducible_iff (hf : HasDegree f k) (h1 : 1 ≤ k) (hk : k ≤ 62) :
    irreducible f = true ↔ Irreducible (poly f.toNat) := by
  have hstart : residue f (2 : UInt64).toNat = AdjoinRoot.root (poly f.toNat) ^ 2 ^ 0 := by
    rw [pow_zero, pow_one, show (2 : UInt64).toNat = 2 from rfl, residue, poly_two, AdjoinRoot.mk_X]
  have hturns : ((deg f).tdiv 2).toNat = k / 2 := by
    rw [hf.deg_eq]
    exact Int.toNat_natCast _
  rw [irreducible, hturns, benOrLoop_iff hf hk _ 0 2 hstart,
    irreducible_iff_coprime hf.monic.1 (by rw [hf.natDegree]; omega),
    hf.natDegree, Nat.card_zmod, zero_add]

/-- **The test is right**, for every polynomial of degree 1 to 61; the products are those modulo the
polynomial, and the greatest common divisor is one, whatever numbers it is asked for. -/
theorem irreducible_correct (f : UInt64) (h1 : 1 ≤ deg f) (h61 : deg f ≤ 61) :
    (irreducible f = true ↔ Irreducible (poly f.toNat)) ∧
      (∀ a b : UInt64, poly (mulMod a b f).toNat = (poly a.toNat * poly b.toNat) %ₘ poly f.toNat) ∧
      ∀ (a b : UInt64) (q : (ZMod 2)[X]), q ∣ poly (gcd a b).toNat ↔ q ∣ poly a.toNat ∧
      q ∣ poly b.toNat := by
  obtain ⟨k, hk⟩ := Int.eq_ofNat_of_zero_le (show 0 ≤ deg f by omega)
  have hf := hasDegree_of_deg hk
  exact ⟨irreducible_iff hf (by omega) (by omega), poly_mulMod hf (by omega), dvd_gcd_iff⟩

theorem irreducible_correct_restic : Irreducible (poly (0x3DA3358B4DC173 : UInt64).toNat) :=
  (irreducible_correct 0x3DA3358B4DC173 (by decide +kernel) (by decide +kernel)).1.1 (by decide +kernel)

/-! ### the polynomial of a new repository -/

lemma candidate_degree (p : UInt64) : HasDegree (candidate p) 53 := by
  have hmask : (p &&& ((1 : UInt64) <<< (54 : UInt64) - 1)).toNat < 2 ^ 54 := by
    rw [UInt64.toNat_and]
    exact Nat.and_lt_two_pow _ (by decide)
  unfold candidate
  constructor
  · rw [UInt64.toNat_or, UInt64.toNat_or]
    exact Nat.right_le_or.trans Nat.left_le_or
  · rw [UInt64.toNat_or, UInt64.toNat_or]
    exact Nat.or_lt_two_pow (Nat.or_lt_two_pow hmask (by decide)) (by decide)

/-- **A new repository's polynomial** is irreducible and of degree 53, as the chunker asks. -/
theorem randomIrreducible_spec {random : List UInt64} (h : randomIrreducible random = some f) :
    deg f = 53 ∧ Irreducible (poly f.toNat) := by
  induction random with
  | nil => cases h
  | cons p random ih =>
    rw [randomIrreducible] at h
    split at h
    · rename_i htest
      cases h
      have hdeg := candidate_degree p
      exact ⟨hdeg.deg_eq, (irreducible_iff hdeg (by decide) (by decide)).1 htest⟩
    · exact ih h

theorem randomIrreducible_restic :
    deg 0x3DA3358B4DC173 = 53 ∧ Irreducible (poly (0x3DA3358B4DC173 : UInt64).toNat) :=
  @randomIrreducible_spec _ [0x3DA3358B4DC173] (by decide +kernel)

end Test

end Polynomials

end OtgMaster.Restic
