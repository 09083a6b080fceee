import OtgMaster.Lib.Bytes
import Mathlib.Data.List.Nodup
import Mathlib.Data.List.Range
import Mathlib.Data.Nat.Bitwise

/-!
Bitmaps in a buffer, bit `i` being bit `i % 8` of byte `i / 8`.
-/

namespace OtgMaster.Lib

namespace Bytes

/-- Bit `i` of a bitmap. -/
def bit (b : Bytes) (i : ℕ) : Bool := (b (i / 8)).toNat.testBit (i % 8)

def setBit (b : Bytes) (i : ℕ) : Bytes := b.put8 (i / 8) ((b (i / 8)).toNat ||| 2 ^ (i % 8))

section Bits

variable {b c : Bytes} {i j n : ℕ}

lemma put8_in (b : Bytes) (o v : ℕ) : (b.put8 o v o).toNat = v % 256 := by
  have h := patch_at (b := b) (v := leByte v) (a := o) (n := 1) (i := 0) (by omega)
  simp only [Nat.add_zero] at h
  rw [put8, h, toNat_leByte]
  simp

lemma put8_out {o v : ℕ} (h : i ≠ o) : b.put8 o v i = b i := patch_out (by omega)

lemma bit_zeros : zeros.bit i = false := by
  unfold bit; simp

private lemma testBit_put8 {o v k : ℕ} (hk : k < 8) : (b.put8 o v o).toNat.testBit k = v.testBit k := by
  rw [put8_in, show 256 = 2 ^ 8 from rfl, Nat.testBit_mod_two_pow]
  simp [hk]

lemma bit_setBit (b : Bytes) (i j : ℕ) : (b.setBit i).bit j = (decide (i = j) || b.bit j) := by
  have hk : j % 8 < 8 := Nat.mod_lt _ (by omega)
  unfold bit setBit
  by_cases h : j / 8 = i / 8
  · rw [h, testBit_put8 hk, Nat.testBit_or, Nat.testBit_two_pow, Bool.or_comm]
    congr 1
    exact decide_eq_decide.2 ⟨fun he => by omega, fun he => by rw [he]⟩
  · rw [put8_out h]
    have : i ≠ j := fun he => h (by rw [he])
    simp [this]

lemma bit_foldl_setBit (l : List ℕ) :
    ∀ b : Bytes, (l.foldl setBit b).bit j = (decide (j ∈ l) || b.bit j) := by
  induction l with
  | nil => intro b; simp
  | cons i l ih =>
    intro b
    rw [List.foldl_cons, ih, bit_setBit]
    simp only [List.mem_cons, Bool.decide_or, eq_comm (a := i)]
    cases decide (j ∈ l) <;> cases decide (j = i) <;> rfl

end Bits

end Bytes

end OtgMaster.Lib
