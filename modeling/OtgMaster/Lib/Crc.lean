import Mathlib.Data.Nat.Bitwise
import Mathlib.Logic.Function.Iterate

/-!
Reflected 32-bit cyclic redundancy checks: the remainder of a long division, one bit at a time, and
the same a byte at a time.

A shift of the remainder is linear in exclusive or (`shift_xor`), so eight of them are what a table
has for the low octet, and the other octets moved down (`shift_octet`).
-/

namespace OtgMaster.Lib.Crc

variable (poly : UInt32)

/-- One step of the division by `poly`, whose bits are in reverse order. -/
def shift (c : UInt32) : UInt32 := if c &&& 1 ≠ 0 then (c >>> 1) ^^^ poly else c >>> 1

/-- The remainder `c` after one more byte. -/
def octet (c : UInt32) (b : UInt8) : UInt32 := (shift poly)^[8] (c ^^^ b.toUInt32)

/-- The remainder `c` after the bytes `data`. -/
def remainder (c : UInt32) (data : List UInt8) : UInt32 := data.foldl (octet poly) c

variable {poly}

lemma low_xor (a b : UInt32) : (a ^^^ b) &&& 1 = (a &&& 1) ^^^ (b &&& 1) := by
  rw [← UInt32.toNat_inj]
  simp only [UInt32.toNat_and, UInt32.toNat_xor]
  exact Nat.and_xor_distrib_right

lemma low_cases (a : UInt32) : a &&& 1 = 0 ∨ a &&& 1 = 1 := by
  rw [← UInt32.toNat_inj, ← UInt32.toNat_inj]
  simp only [UInt32.toNat_and, UInt32.reduceToNat, Nat.and_one_is_mod]
  omega

lemma shift_xor (a b : UInt32) : shift poly (a ^^^ b) = shift poly a ^^^ shift poly b := by
  unfold shift
  rw [low_xor, UInt32.shiftRight_xor]
  rcases low_cases a with ha | ha <;> rcases low_cases b with hb | hb <;> simp [ha, hb]
  · ac_rfl
  · ac_rfl
  · -- the two divisors cancel
    calc a >>> 1 ^^^ b >>> 1 = a >>> 1 ^^^ b >>> 1 ^^^ (poly ^^^ poly) := by simp
      _ = a >>> 1 ^^^ poly ^^^ (b >>> 1 ^^^ poly) := by ac_rfl

lemma shifts_xor (n : ℕ) (a b : UInt32) :
    (shift poly)^[n] (a ^^^ b) = (shift poly)^[n] a ^^^ (shift poly)^[n] b := by
  induction n with
  | zero => rfl
  | succ n ih => simp only [Function.iterate_succ_apply', ih, shift_xor]

lemma shift_even {c : UInt32} (h : c.toNat % 2 = 0) : (shift poly c).toNat = c.toNat / 2 := by
  have hlow : c &&& 1 = 0 := by
    rw [← UInt32.toNat_inj]
    simpa only [UInt32.toNat_and, UInt32.reduceToNat, Nat.and_one_is_mod] using h
  simp [shift, hlow, Nat.shiftRight_eq_div_pow]

/-- A remainder whose low bits are clear only moves down. -/
lemma shifts_clear {c : UInt32} :
    ∀ n, 2 ^ n ∣ c.toNat → ((shift poly)^[n] c).toNat = c.toNat / 2 ^ n := by
  intro n
  induction n with
  | zero => intro _; simp
  | succ n ih =>
    intro h
    have hn := ih ((Nat.pow_dvd_pow 2 n.le_succ).trans h)
    rw [Function.iterate_succ_apply', shift_even, hn, Nat.div_div_eq_div_mul, Nat.pow_succ]
    obtain ⟨k, hk⟩ := h
    rw [hn, hk, Nat.pow_succ, Nat.mul_assoc, Nat.mul_div_cancel_left _ (Nat.two_pow_pos n),
      Nat.mul_mod_right]

lemma octets_split (c : UInt32) : c = (c &&& 0xFF) ^^^ (c &&& ~~~0xFF) := by
  rw [← UInt32.toBitVec_inj]
  ext i
  simp only [UInt32.toBitVec_xor, UInt32.toBitVec_and, UInt32.toBitVec_not, BitVec.getElem_xor,
    BitVec.getElem_and, BitVec.getElem_not]
  cases c.toBitVec[i] <;> cases (UInt32.toBitVec 0xFF)[i] <;> rfl

lemma low_octet (c : UInt32) : (c &&& 0xFF).toNat = c.toNat % 256 := by
  simp only [UInt32.toNat_and, UInt32.reduceToNat]
  exact Nat.and_two_pow_sub_one_eq_mod _ 8

lemma dvd_high_octets (c : UInt32) : 2 ^ 8 ∣ (c &&& ~~~0xFF).toNat := by
  have hlow : (c &&& ~~~0xFF) &&& 0xFF = 0 := by
    rw [UInt32.and_assoc, show ~~~(0xFF : UInt32) &&& 0xFF = 0 by decide, UInt32.and_zero]
  have hmod := low_octet (c &&& ~~~0xFF)
  rw [hlow, UInt32.toNat_zero] at hmod
  exact Nat.dvd_of_mod_eq_zero hmod.symm

lemma shiftRight_eight {c : UInt32} (h : c.toNat < 256) : c >>> 8 = 0 := by
  rw [← UInt32.toNat_inj]
  simp only [UInt32.toNat_shiftRight, UInt32.reduceToNat, Nat.reduceMod, Nat.shiftRight_eq_div_pow]
  omega

/-- A byte at a time, with a table for the low octet. -/
lemma octet_eq (c : UInt32) (b : UInt8) :
    octet poly c b = (c >>> 8) ^^^ (shift poly)^[8] ((c ^^^ b.toUInt32) &&& 0xFF) := by
  have hhigh : (shift poly)^[8] ((c ^^^ b.toUInt32) &&& ~~~0xFF) = c >>> 8 := by
    have hb : b.toUInt32 >>> 8 = 0 := shiftRight_eight (by simpa using b.toNat_lt)
    have hlow : ((c ^^^ b.toUInt32) &&& 0xFF) >>> 8 = 0 :=
      shiftRight_eight (by rw [low_octet]; exact Nat.mod_lt _ (by decide))
    have hsplit := congrArg (fun x : UInt32 => x >>> 8) (octets_split (c ^^^ b.toUInt32))
    simp only [UInt32.shiftRight_xor, hb, hlow, UInt32.xor_zero, UInt32.zero_xor] at hsplit
    rw [hsplit, ← UInt32.toNat_inj, shifts_clear 8 (dvd_high_octets _)]
    simp [Nat.shiftRight_eq_div_pow]
  rw [octet, octets_split (c ^^^ b.toUInt32), shifts_xor, hhigh, UInt32.xor_comm, ← octets_split]

end OtgMaster.Lib.Crc
