import Mathlib.Data.List.Basic
import Mathlib.Tactic.Ring
import Mathlib.Tactic.Linarith

/-!
Buffers and devices as functions from addresses to bytes, with the one way of changing them:
`patch b a n v` is `b` with the `n` bytes from `a` on taken from `v`.

The fixed-width getters and putters of a byte buffer (`le16`, `put16`, …) are stated over `patch`,
so that one frame rule (`patch_out`) says what every write leaves alone, whether the write is a
field of a record or a whole run of blocks of a device.
-/

namespace OtgMaster.Lib

/-- A buffer, or a whole device: the byte at each address. -/
abbrev Bytes := ℕ → UInt8

namespace Bytes

/-! ### Patching -/

/-- `b` with the `n` bytes from `a` on replaced by those of `v`. -/
def patch (b : Bytes) (a n : ℕ) (v : Bytes) : Bytes :=
  fun i => if a ≤ i ∧ i < a + n then v (i - a) else b i

/-- The array of the `n` bytes from `a` on. -/
def window (b : Bytes) (a n : ℕ) : Bytes := fun i => if i < n then b (a + i) else 0

def zeros : Bytes := fun _ => 0

def ofList (l : List UInt8) : Bytes := fun i => l.getD i 0

def slice (b : Bytes) (a n : ℕ) : List UInt8 := (List.range n).map fun i => b (a + i)

section Patch

variable {b v : Bytes} {a n i : ℕ}

lemma patch_in (h1 : a ≤ i) (h2 : i < a + n) : b.patch a n v i = v (i - a) :=
  if_pos ⟨h1, h2⟩

lemma patch_out (h : i < a ∨ a + n ≤ i) : b.patch a n v i = b i :=
  if_neg (by omega)

lemma patch_at (h : i < n) : b.patch a n v (a + i) = v i := by
  rw [patch_in (by omega) (by omega), Nat.add_sub_cancel_left]

lemma window_apply (h : i < n) : b.window a n i = b (a + i) := if_pos h

@[simp] lemma zeros_apply : zeros i = 0 := rfl

@[simp] lemma length_slice : (b.slice a n).length = n := by simp [slice]

lemma slice_getD (h : i < n) : (b.slice a n).getD i 0 = b (a + i) := by
  simp [slice, List.getD_eq_getElem?_getD, h]

lemma take_slice {m : ℕ} (h : m ≤ n) : (b.slice a n).take m = b.slice a m := by
  rw [slice, ← List.map_take, List.take_range, Nat.min_eq_left h, slice]

lemma slice_add (m : ℕ) : b.slice a (m + n) = b.slice a m ++ b.slice (a + m) n := by
  simp [slice, List.range_add, Nat.add_assoc]

lemma take_drop_slice {k m : ℕ} (h : k + m ≤ n) : ((b.slice a n).drop k).take m = b.slice (a + k) m := by
  obtain ⟨r, rfl⟩ := Nat.exists_eq_add_of_le h
  rw [Nat.add_assoc, slice_add, List.drop_left' length_slice, take_slice (Nat.le_add_right ..)]

lemma slice_congr {c : Bytes} {a' : ℕ} (h : ∀ i < n, b (a + i) = c (a' + i)) :
    b.slice a n = c.slice a' n := by
  unfold slice
  exact List.map_congr_left fun i hi => h i (List.mem_range.1 hi)

end Patch

/-! ### Little-endian and big-endian fields -/

def le16 (b : Bytes) (o : ℕ) : ℕ := (b o).toNat + 256 * (b (o + 1)).toNat

def le32 (b : Bytes) (o : ℕ) : ℕ := le16 b o + 65536 * le16 b (o + 2)

def le64 (b : Bytes) (o : ℕ) : ℕ := le32 b o + 4294967296 * le32 b (o + 4)

def be16 (b : Bytes) (o : ℕ) : ℕ := 256 * (b o).toNat + (b (o + 1)).toNat

def be32 (b : Bytes) (o : ℕ) : ℕ := 65536 * be16 b o + be16 b (o + 2)

def be64 (b : Bytes) (o : ℕ) : ℕ := 4294967296 * be32 b o + be32 b (o + 4)

/-- Byte `k` of the little-endian code of `v`. -/
def leByte (v k : ℕ) : UInt8 := UInt8.ofNat (v / 256 ^ k)

def put8 (b : Bytes) (o v : ℕ) : Bytes := b.patch o 1 (leByte v)

def put16 (b : Bytes) (o v : ℕ) : Bytes := b.patch o 2 (leByte v)

def put32 (b : Bytes) (o v : ℕ) : Bytes := b.patch o 4 (leByte v)

def put64 (b : Bytes) (o v : ℕ) : Bytes := b.patch o 8 (leByte v)

def putBe32 (b : Bytes) (o v : ℕ) : Bytes := b.patch o 4 fun k => leByte v (3 - k)

section Fields

variable {b c : Bytes} {o v : ℕ}

lemma toNat_leByte (v k : ℕ) : (leByte v k).toNat = v / 256 ^ k % 256 := by
  simp [leByte]

lemma le16_lt (b : Bytes) (o : ℕ) : le16 b o < 65536 := by
  have h1 := (b o).toNat_lt
  have h2 := (b (o + 1)).toNat_lt
  unfold le16
  omega

lemma le32_lt (b : Bytes) (o : ℕ) : le32 b o < 4294967296 := by
  have h1 := le16_lt b o
  have h2 := le16_lt b (o + 2)
  unfold le32
  omega

lemma be32_lt (b : Bytes) (o : ℕ) : be32 b o < 4294967296 := by
  have h0 := (b o).toNat_lt
  have h1 := (b (o + 1)).toNat_lt
  have h2 := (b (o + 2)).toNat_lt
  have h3 := (b (o + 2 + 1)).toNat_lt
  unfold be32 be16
  omega

lemma le16_congr {o' : ℕ} (h0 : b o = c o') (h1 : b (o + 1) = c (o' + 1)) :
    le16 b o = le16 c o' := by
  unfold le16; rw [h0, h1]

lemma le32_congr {o' : ℕ} (h : ∀ k < 4, b (o + k) = c (o' + k)) : le32 b o = le32 c o' := by
  have h0 := h 0 (by omega)
  have h1 := h 1 (by omega)
  have h2 := h 2 (by omega)
  have h3 := h 3 (by omega)
  unfold le32
  rw [le16_congr (by simpa using h0) h1, le16_congr h2 h3]

lemma be32_congr {o' : ℕ} (h : ∀ k < 4, b (o + k) = c (o' + k)) : be32 b o = be32 c o' := by
  have h0 := h 0 (by omega)
  have h1 := h 1 (by omega)
  have h2 := h 2 (by omega)
  have h3 := h 3 (by omega)
  simp only [Nat.add_zero] at h0
  unfold be32 be16
  rw [h0, h1, h2, show o + 2 + 1 = o + 3 from rfl, show o' + 2 + 1 = o' + 3 from rfl, h3]

lemma le32_window {a n : ℕ} (h : o + 4 ≤ n) : le32 (b.window a n) o = le32 b (a + o) :=
  le32_congr fun k hk => by rw [window_apply (by omega), Nat.add_assoc]

lemma le32_patch_out {w : Bytes} {a n : ℕ} (h : o + 4 ≤ a ∨ a + n ≤ o) :
    le32 (b.patch a n w) o = le32 b o :=
  le32_congr fun k hk => patch_out (by omega)

lemma le32_put32 (b : Bytes) (o v : ℕ) : le32 (put32 b o v) o = v % 4294967296 := by
  have h0 := patch_at (b := b) (v := leByte v) (a := o) (n := 4) (i := 0) (by omega)
  have h1 := patch_at (b := b) (v := leByte v) (a := o) (n := 4) (i := 1) (by omega)
  have h2 := patch_at (b := b) (v := leByte v) (a := o) (n := 4) (i := 2) (by omega)
  have h3 := patch_at (b := b) (v := leByte v) (a := o) (n := 4) (i := 3) (by omega)
  simp only [Nat.add_zero] at h0
  unfold le32 le16 put32
  rw [h0, h1, h2, show o + 2 + 1 = o + 3 from rfl, h3]
  simp only [toNat_leByte]
  omega

lemma be32_putBe32 (b : Bytes) (o v : ℕ) : be32 (putBe32 b o v) o = v % 4294967296 := by
  have h (i : ℕ) (hi : i < 4) := patch_at (b := b) (v := fun k => leByte v (3 - k)) (a := o) hi
  have h0 := h 0 (by omega)
  have h1 := h 1 (by omega)
  have h2 := h 2 (by omega)
  have h3 := h 3 (by omega)
  simp only [Nat.add_zero] at h0
  unfold be32 be16 putBe32
  rw [h0, h1, h2, show o + 2 + 1 = o + 3 from rfl, h3]
  simp only [toNat_leByte]
  omega

lemma le32_put16_out {o' : ℕ} (h : o + 4 ≤ o' ∨ o' + 2 ≤ o) :
    le32 (put16 b o' v) o = le32 b o := le32_patch_out h

lemma le32_put32_out {o' : ℕ} (h : o + 4 ≤ o' ∨ o' + 4 ≤ o) :
    le32 (put32 b o' v) o = le32 b o := le32_patch_out h

lemma put16_out {i : ℕ} (h : i < o ∨ o + 2 ≤ i) : put16 b o v i = b i := patch_out h

lemma put32_out {i : ℕ} (h : i < o ∨ o + 4 ≤ i) : put32 b o v i = b i := patch_out h

lemma putBe32_out {i : ℕ} (h : i < o ∨ o + 4 ≤ i) : putBe32 b o v i = b i := patch_out h

end Fields

end Bytes

end OtgMaster.Lib
