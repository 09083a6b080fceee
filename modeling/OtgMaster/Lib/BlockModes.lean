import Mathlib.Data.List.OfFn
import Mathlib.Data.List.GetD

/-!
Block ciphers over longer messages. A list is cut into blocks and put together again (`blocks`,
`unblocks`); the two modes that chain the blocks (`cbcEncrypt`) or mask each with a running tweak
(`xex`) are undone whenever the cipher of one block is.
-/

namespace OtgMaster.Lib

/-! ### cutting a list into blocks -/

section Blocks

variable {α : Type} [Inhabited α] {n : ℕ}

def blocks (n : ℕ) : ℕ → List α → List (Fin n → α)
  | 0, _ => []
  | k + 1, l => (fun i => l.getD i default) :: blocks n k (l.drop n)

def unblocks (bs : List (Fin n → α)) : List α := bs.flatMap List.ofFn

@[simp] lemma length_blocks (k : ℕ) (l : List α) : (blocks n k l).length = k := by
  induction k generalizing l with
  | zero => rfl
  | succ k ih => rw [blocks, List.length_cons, ih]

omit [Inhabited α] in
@[simp] lemma length_unblocks (bs : List (Fin n → α)) : (unblocks bs).length = bs.length * n := by
  induction bs with
  | nil => simp [unblocks]
  | cons b bs ih =>
    rw [unblocks, List.flatMap_cons, List.length_append, List.length_ofFn, ← unblocks, ih,
      List.length_cons, Nat.succ_mul, Nat.add_comm]

lemma ofFn_getD {l : List α} (hl : n ≤ l.length) :
    List.ofFn (fun i : Fin n => l.getD i default) = l.take n := by
  refine List.ext_getElem (by simpa using hl) fun i h1 h2 => ?_
  rw [List.length_ofFn] at h1
  simp [h1.trans_le hl]

lemma unblocks_blocks {k : ℕ} {l : List α} (hl : l.length = k * n) : unblocks (blocks n k l) = l := by
  induction k generalizing l with
  | zero =>
    rw [Nat.zero_mul, List.length_eq_zero_iff] at hl
    rw [hl]
    rfl
  | succ k ih =>
    rw [Nat.succ_mul] at hl
    rw [blocks, unblocks, List.flatMap_cons, ofFn_getD (by omega), ← unblocks,
      ih (by rw [List.length_drop]; omega), List.take_append_drop]

lemma blocks_unblocks {k : ℕ} {bs : List (Fin n → α)} (hk : bs.length = k) :
    blocks n k (unblocks bs) = bs := by
  subst hk
  induction bs with
  | nil => rfl
  | cons b bs ih =>
    rw [List.length_cons, blocks, unblocks, List.flatMap_cons, List.drop_left' List.length_ofFn,
      ← unblocks, ih]
    congr 1
    funext i
    rw [List.getD_append _ _ _ _ (by simp)]
    simp

end Blocks

/-! ### modes of a cipher -/

section Modes

variable {β : Type} (xor : β → β → β)

/-- Each block is mixed with the ciphertext before it. -/
def cbcEncrypt (e : β → β) : β → List β → List β
  | _, [] => []
  | iv, x :: xs => e (xor x iv) :: cbcEncrypt e (e (xor x iv)) xs

def cbcDecrypt (d : β → β) : β → List β → List β
  | _, [] => []
  | iv, y :: ys => xor (d y) iv :: cbcDecrypt d y ys

/-- Each block is masked on both sides by a tweak, which moves on from block to block. -/
def xex (f next : β → β) : β → List β → List β
  | _, [] => []
  | t, x :: xs => xor (f (xor x t)) t :: xex f next (next t) xs

variable {xor} {e d next : β → β}

@[simp] lemma length_cbcEncrypt (iv : β) (xs : List β) :
    (cbcEncrypt xor e iv xs).length = xs.length := by
  induction xs generalizing iv with
  | nil => rfl
  | cons x xs ih => rw [cbcEncrypt, List.length_cons, ih, List.length_cons]

@[simp] lemma length_xex (t : β) (xs : List β) : (xex xor e next t xs).length = xs.length := by
  induction xs generalizing t with
  | nil => rfl
  | cons x xs ih => rw [xex, List.length_cons, ih, List.length_cons]

variable (hxor : ∀ x y, xor (xor x y) y = x) (hd : ∀ x, d (e x) = x)
include hxor hd

/-- **Chained blocks are recovered**, given where the chain started. -/
theorem cbcDecrypt_cbcEncrypt (iv : β) (xs : List β) :
    cbcDecrypt xor d iv (cbcEncrypt xor e iv xs) = xs := by
  induction xs generalizing iv with
  | nil => rfl
  | cons x xs ih => rw [cbcEncrypt, cbcDecrypt, ih, hd, hxor]

/-- **Masked blocks are recovered** under the same tweaks. -/
theorem xex_xex (t : β) (xs : List β) : xex xor d next t (xex xor e next t xs) = xs := by
  induction xs generalizing t with
  | nil => rfl
  | cons x xs ih => rw [xex, xex, ih, hxor, hd, hxor]

end Modes

end OtgMaster.Lib
