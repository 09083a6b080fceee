import OtgMaster.Block.Drive
import Mathlib.Data.Nat.Digits.Defs
import Mathlib.Tactic.LinearCombination

/-!
`Poly1305`: the authenticator of a repository's objects. The accumulator is a number modulo `2 ^ 130
- 5` in five limbs of 26 bits, of which the second may be a little larger between the blocks.

The sums of a block and of the end are written once, for any kind of number: for the `Long`s of the
class they are what the code computes, for natural numbers what it is meant to compute. They agree
on all limbs that can occur, with nothing above `2 ^ 63` (`Exact`), and so the class returns the tag
of RFC 8439 (`finish_tag`).
-/

namespace OtgMaster.Restic

open Lib Block

namespace Poly1305

/-- A number in limbs of 26 bits. -/
structure Limbs (α : Type) where
  l0 : α
  l1 : α
  l2 : α
  l3 : α
  l4 : α
  deriving DecidableEq

def Limbs.map {α β : Type} (f : α → β) (h : Limbs α) : Limbs β :=
  ⟨f h.l0, f h.l1, f h.l2, f h.l3, f h.l4⟩

def Limbs.toList {α : Type} (h : Limbs α) : List α := [h.l0, h.l1, h.l2, h.l3, h.l4]

/-! ### the sums -/

section Sums

variable {α : Type} [Add α] [Mul α] [AndOp α] [ShiftRight α] [OfNat α 5] [OfNat α 26] [OfNat α 0x3ffffff]

/-- `x and M`. -/
def low (x : α) : α := x &&& 0x3ffffff

/-- `x ushr 26`. -/
def carry (x : α) : α := x >>> 26

/-- The limbs of the accumulator with those of a block added to them. -/
def Limbs.add (h m : Limbs α) : Limbs α :=
  ⟨h.l0 + m.l0, h.l1 + m.l1, h.l2 + m.l2, h.l3 + m.l3, h.l4 + m.l4⟩

/-- The sums of a block: the multiples of the key, the product sums with what is carried into them,
and the lowest limbs with what is carried around. -/
structure Product (α : Type) where
  s1 : α
  s2 : α
  s3 : α
  s4 : α
  d0 : α
  d1 : α
  d2 : α
  d3 : α
  d4 : α
  around : α
  h0 : α
  h1 : α

def product (h r : Limbs α) : Product α :=
  let s1 := r.l1 * 5
  let s2 := r.l2 * 5
  let s3 := r.l3 * 5
  let s4 := r.l4 * 5
  let d0 := h.l0 * r.l0 + h.l1 * s4 + h.l2 * s3 + h.l3 * s2 + h.l4 * s1
  let d1 := h.l0 * r.l1 + h.l1 * r.l0 + h.l2 * s4 + h.l3 * s3 + h.l4 * s2 + carry d0
  let d2 := h.l0 * r.l2 + h.l1 * r.l1 + h.l2 * r.l0 + h.l3 * s4 + h.l4 * s3 + carry d1
  let d3 := h.l0 * r.l3 + h.l1 * r.l2 + h.l2 * r.l1 + h.l3 * r.l0 + h.l4 * s4 + carry d2
  let d4 := h.l0 * r.l4 + h.l1 * r.l3 + h.l2 * r.l2 + h.l3 * r.l1 + h.l4 * r.l0 + carry d3
  let around := carry d4 * 5
  let h0 := low d0 + around
  let h1 := low d1 + carry h0
  ⟨s1, s2, s3, s4, d0, d1, d2, d3, d4, around, h0, h1⟩

def Product.toList (p : Product α) : List α :=
  [p.s1, p.s2, p.s3, p.s4, p.d0, p.d1, p.d2, p.d3, p.d4, p.around, p.h0, p.h1]

def Product.limbs (p : Product α) : Limbs α := ⟨low p.h0, p.h1, low p.d2, low p.d3, low p.d4⟩

structure Carried (α : Type) where
  h2 : α
  h3 : α
  h4 : α
  around : α
  h0 : α
  h1 : α

def carried (h : Limbs α) : Carried α :=
  let h2 := h.l2 + carry h.l1
  let h3 := h.l3 + carry h2
  let h4 := h.l4 + carry h3
  let around := carry h4 * 5
  let h0 := h.l0 + around
  let h1 := low h.l1 + carry h0
  ⟨h2, h3, h4, around, h0, h1⟩

def Carried.toList (c : Carried α) : List α := [c.h2, c.h3, c.h4, c.around, c.h0, c.h1]

def Carried.limbs (c : Carried α) : Limbs α := ⟨low c.h0, c.h1, low c.h2, low c.h3, low c.h4⟩

/-- The sums of `h + 5`, the last one without the `1L shl 26` that is taken from it. -/
def plusFive (h : Limbs α) : Limbs α :=
  let g0 := h.l0 + 5
  let g1 := h.l1 + carry g0
  let g2 := h.l2 + carry g1
  let g3 := h.l3 + carry g2
  ⟨g0, g1, g2, g3, h.l4 + carry g3⟩

end Sums

section Words

variable {α : Type} [Add α] [AndOp α] [OrOp α] [ShiftRight α] [ShiftLeft α] [OfNat α 6] [OfNat α 8]
  [OfNat α 12] [OfNat α 14] [OfNat α 18] [OfNat α 20] [OfNat α 26] [OfNat α 32] [OfNat α 0xffffffff]

structure Words (α : Type) where
  w0 : α
  w1 : α
  w2 : α
  w3 : α

def Words.map {β : Type} (f : α → β) (w : Words α) : Words β := ⟨f w.w0, f w.w1, f w.w2, f w.w3⟩

def Words.toList (w : Words α) : List α := [w.w0, w.w1, w.w2, w.w3]

def Limbs.words (h : Limbs α) : Words α where
  w0 := (h.l0 ||| h.l1 <<< 26) &&& 0xffffffff
  w1 := (h.l1 >>> 6 ||| h.l2 <<< 20) &&& 0xffffffff
  w2 := (h.l2 >>> 12 ||| h.l3 <<< 14) &&& 0xffffffff
  w3 := (h.l3 >>> 18 ||| h.l4 <<< 8) &&& 0xffffffff

/-- The sums of the words and the pad, each with what is carried into it. -/
def Words.plus (w pad : Words α) : Words α :=
  let f0 := w.w0 + pad.w0
  let f1 := w.w1 + pad.w1 + f0 >>> 32
  let f2 := w.w2 + pad.w2 + f1 >>> 32
  let f3 := w.w3 + pad.w3 + f2 >>> 32
  ⟨f0, f1, f2, f3⟩

end Words

/-! ### the class -/

def le32 (b : List UInt8) (i : ℕ) : UInt64 :=
  (b.getD i 0).toUInt64 ||| (b.getD (i + 1) 0).toUInt64 <<< 8 ||| (b.getD (i + 2) 0).toUInt64 <<< 16 |||
    (b.getD (i + 3) 0).toUInt64 <<< 24

/-- The four bytes that `putLe32` stores. -/
def putLe32 (v : UInt64) : List UInt8 :=
  [v.toUInt8, (v >>> 8).toUInt8, (v >>> 16).toUInt8, (v >>> 24).toUInt8]

def keyLimbs (key : List UInt8) : Limbs UInt64 where
  l0 := le32 key 0 &&& 0x3ffffff
  l1 := le32 key 3 >>> 2 &&& 0x3ffff03
  l2 := le32 key 6 >>> 4 &&& 0x3ffc0ff
  l3 := le32 key 9 >>> 6 &&& 0x3f03fff
  l4 := le32 key 12 >>> 8 &&& 0x00fffff

def blockLimbs (m : List UInt8) (hibit : UInt64) : Limbs UInt64 where
  l0 := le32 m 0 &&& 0x3ffffff
  l1 := le32 m 3 >>> 2 &&& 0x3ffffff
  l2 := le32 m 6 >>> 4 &&& 0x3ffffff
  l3 := le32 m 9 >>> 6 &&& 0x3ffffff
  l4 := le32 m 12 >>> 8 ||| hibit

end Poly1305

/-- The class: the key, the accumulator, and the bytes of `buf` up to `bufLen`. -/
structure Poly1305 where
  r : Poly1305.Limbs UInt64
  pad : Poly1305.Words UInt64
  h : Poly1305.Limbs UInt64
  buf : List UInt8

namespace Poly1305

def new (key : List UInt8) : E Poly1305 := do
  require (key.length = 32) "Poly1305 takes a 32-byte key"
  return {
    r := keyLimbs key, pad := ⟨le32 key 16, le32 key 20, le32 key 24, le32 key 28⟩
    h := ⟨0, 0, 0, 0, 0⟩, buf := [] }

def block (p : Poly1305) (m : List UInt8) (hibit : UInt64) : Poly1305 :=
  { p with h := (product (p.h.add (blockLimbs m hibit)) p.r).limbs }

/-- `1L shl 24`. -/
def HIBIT : UInt64 := 0x1000000

/-- The loop of `update` over whole blocks, and the bytes that are left over. -/
def absorb (p : Poly1305) (m : List UInt8) : Poly1305 :=
  if 16 ≤ m.length then absorb (p.block (m.take 16) HIBIT) (m.drop 16)
  else if 0 < m.length then { p with buf := m } else p
termination_by m.length
decreasing_by
  rw [List.length_drop]
  omega

/-- `update` with the bytes from `off` on, `len` of them. -/
def update (p : Poly1305) (m : List UInt8) : Poly1305 :=
  if 0 < p.buf.length then
    let take := min (16 - p.buf.length) m.length
    let buf := p.buf ++ m.take take
    if buf.length < 16 then { p with buf }
    else { p.block buf HIBIT with buf := [] }.absorb (m.drop take)
  else p.absorb m

def reduce (h : Limbs UInt64) : Limbs UInt64 :=
  let h := (carried h).limbs
  let g := plusFive h
  let g4 := g.l4 - 0x4000000
  -- `g4 >= 0` as a signed number
  if g4 < 0x8000000000000000 then ⟨low g.l0, low g.l1, low g.l2, low g.l3, g4⟩ else h

def padded (p : Poly1305) : List UInt8 := p.buf ++ 1 :: List.replicate (15 - p.buf.length) 0

def lastBlock (p : Poly1305) : Poly1305 := if 0 < p.buf.length then p.block p.padded 0 else p

def finish (p : Poly1305) : List UInt8 :=
  let f := (reduce p.lastBlock.h).words.plus p.pad
  [f.w0, f.w1, f.w2, f.w3].flatMap fun x => putLe32 (x &&& 0xffffffff)

/-! ### on natural numbers -/

lemma low_nat (x : ℕ) : low x = x % 2 ^ 26 := Nat.and_two_pow_sub_one_eq_mod x 26

lemma carry_nat (x : ℕ) : carry x = x / 2 ^ 26 := Nat.shiftRight_eq_div_pow x 26

def Limbs.value (h : Limbs ℕ) : ℕ :=
  h.l0 + h.l1 * 2 ^ 26 + h.l2 * 2 ^ 52 + h.l3 * 2 ^ 78 + h.l4 * 2 ^ 104

/-- `2 ^ 130 - 5`. -/
def prime : ℕ := 0x3fffffffffffffffffffffffffffffffb

/-- **The sums of a block are the product**, modulo `2 ^ 130 - 5`. -/
lemma product_value (h r : Limbs ℕ) :
    ∃ k, h.value * r.value = (product h r).limbs.value + prime * k := by
  obtain ⟨h0, h1, h2, h3, h4⟩ := h
  obtain ⟨r0, r1, r2, r3, r4⟩ := r
  simp only [product, Product.limbs, Limbs.value, low_nat, carry_nat, prime]
  generalize hd0 : h0 * r0 + h1 * (r4 * 5) + h2 * (r3 * 5) + h3 * (r2 * 5) + h4 * (r1 * 5) = d0
  generalize hd1 : h0 * r1 + h1 * r0 + h2 * (r4 * 5) + h3 * (r3 * 5) + h4 * (r2 * 5) + d0 / 2 ^ 26 = d1
  generalize hd2 : h0 * r2 + h1 * r1 + h2 * r0 + h3 * (r4 * 5) + h4 * (r3 * 5) + d1 / 2 ^ 26 = d2
  generalize hd3 : h0 * r3 + h1 * r2 + h2 * r1 + h3 * r0 + h4 * (r4 * 5) + d2 / 2 ^ 26 = d3
  generalize hd4 : h0 * r4 + h1 * r3 + h2 * r2 + h3 * r1 + h4 * r0 + d3 / 2 ^ 26 = d4
  have e0 := Nat.div_add_mod d0 (2 ^ 26)
  have e1 := Nat.div_add_mod d1 (2 ^ 26)
  have e2 := Nat.div_add_mod d2 (2 ^ 26)
  have e3 := Nat.div_add_mod d3 (2 ^ 26)
  have e4 := Nat.div_add_mod d4 (2 ^ 26)
  have e5 := Nat.div_add_mod (d0 % 2 ^ 26 + d4 / 2 ^ 26 * 5) (2 ^ 26)
  -- the products that are above `2 ^ 130`, and what is carried out of the highest limb
  refine ⟨h1 * r4 + h2 * r3 + h3 * r2 + h4 * r1 + (h2 * r4 + h3 * r3 + h4 * r2) * 2 ^ 26 +
    (h3 * r4 + h4 * r3) * 2 ^ 52 + h4 * r4 * 2 ^ 78 + d4 / 2 ^ 26, ?_⟩
  zify at *
  linear_combination hd0 + 2 ^ 26 * hd1 + 2 ^ 52 * hd2 + 2 ^ 78 * hd3 + 2 ^ 104 * hd4 - e0 - 2 ^
    26 * e1 - 2 ^ 52 * e2 -
    2 ^ 78 * e3 - 2 ^ 104 * e4 - e5

def Limbs.Below (h : Limbs ℕ) (n : ℕ) : Prop := ∀ x ∈ h.toList, x < n

structure Limbs.Loose (h : Limbs ℕ) : Prop where
  l0 : h.l0 < 2 ^ 26
  l1 : h.l1 < 2 ^ 26 + 2 ^ 9
  l2 : h.l2 < 2 ^ 26
  l3 : h.l3 < 2 ^ 26
  l4 : h.l4 < 2 ^ 26

variable {h : Limbs ℕ} {n : ℕ} {a b : UInt64} {m : List UInt8} {p : Poly1305}

lemma Limbs.below_iff : h.Below n ↔ h.l0 < n ∧ h.l1 < n ∧ h.l2 < n ∧ h.l3 < n ∧ h.l4 < n := by
  simp [Limbs.Below, Limbs.toList]

structure Product.Small (p : Product ℕ) : Prop where
  s : p.s1 < 2 ^ 29 ∧ p.s2 < 2 ^ 29 ∧ p.s3 < 2 ^ 29 ∧ p.s4 < 2 ^ 29
  d : p.d0 < 2 ^ 60 ∧ p.d1 < 2 ^ 60 ∧ p.d2 < 2 ^ 60 ∧ p.d3 < 2 ^ 60
  d4 : p.d4 < 2 ^ 57
  around : p.around < 2 ^ 34
  h0 : p.h0 < 2 ^ 35
  h1 : p.h1 < 2 ^ 26 + 2 ^ 9

lemma Product.Small.lt {p : Product ℕ} (h : p.Small) : ∀ x ∈ p.toList, x < 2 ^ 63 := by
  obtain ⟨hs, hd, hd4, ha, h0, h1⟩ := h
  simp only [Product.toList, List.mem_cons, List.not_mem_nil, or_false, forall_eq_or_imp, forall_eq]
  omega

lemma product_small {r : Limbs ℕ} (hh : h.Below (2 ^ 28)) (hr : r.Below (2 ^ 26)) :
    (product h r).Small := by
  rw [Limbs.below_iff] at hh hr
  obtain ⟨h0, h1, h2, h3, h4⟩ := h
  obtain ⟨r0, r1, r2, r3, r4⟩ := r
  dsimp only at hh hr
  obtain ⟨hh0, hh1, hh2, hh3, hh4⟩ := hh
  obtain ⟨hr0, hr1, hr2, hr3, hr4⟩ := hr
  have hs {x : ℕ} (hx : x < 2 ^ 26) : x * 5 < 2 ^ 29 := by omega
  have hp {x y : ℕ} (hx : x < 2 ^ 28) (hy : y < 2 ^ 26) : x * y < 2 ^ 54 :=
    (Nat.mul_lt_mul'' hx hy).trans_eq (by norm_num)
  have hq {x y : ℕ} (hx : x < 2 ^ 28) (hy : y < 2 ^ 26) : x * (y * 5) < 2 ^ 57 :=
    (Nat.mul_lt_mul'' hx (hs hy)).trans_eq (by norm_num)
  simp only [product, low_nat, carry_nat]
  have b0 : h0 * r0 + h1 * (r4 * 5) + h2 * (r3 * 5) + h3 * (r2 * 5) + h4 * (r1 * 5) <
      2 ^ 60 - 2 ^ 34 := by
    have := hp hh0 hr0; have := hq hh1 hr4; have := hq hh2 hr3; have := hq hh3 hr2; have := hq hh4 hr1
    omega
  have b1 : h0 * r1 + h1 * r0 + h2 * (r4 * 5) + h3 * (r3 * 5) + h4 * (r2 * 5) < 2 ^ 60 - 2 ^ 34 := by
    have := hp hh0 hr1; have := hp hh1 hr0; have := hq hh2 hr4; have := hq hh3 hr3; have := hq hh4 hr2
    omega
  have b2 : h0 * r2 + h1 * r1 + h2 * r0 + h3 * (r4 * 5) + h4 * (r3 * 5) < 2 ^ 60 - 2 ^ 34 := by
    have := hp hh0 hr2; have := hp hh1 hr1; have := hp hh2 hr0; have := hq hh3 hr4; have := hq hh4 hr3
    omega
  have b3 : h0 * r3 + h1 * r2 + h2 * r1 + h3 * r0 + h4 * (r4 * 5) < 2 ^ 60 - 2 ^ 34 := by
    have := hp hh0 hr3; have := hp hh1 hr2; have := hp hh2 hr1; have := hp hh3 hr0; have := hq hh4 hr4
    omega
  have b4 : h0 * r4 + h1 * r3 + h2 * r2 + h3 * r1 + h4 * r0 < 2 ^ 57 - 2 ^ 34 := by
    have := hp hh0 hr4; have := hp hh1 hr3; have := hp hh2 hr2; have := hp hh3 hr1; have := hp hh4 hr0
    omega
  generalize h0 * r0 + h1 * (r4 * 5) + h2 * (r3 * 5) + h3 * (r2 * 5) + h4 * (r1 * 5) = d0 at b0 ⊢
  generalize h0 * r1 + h1 * r0 + h2 * (r4 * 5) + h3 * (r3 * 5) + h4 * (r2 * 5) = d1 at b1 ⊢
  generalize h0 * r2 + h1 * r1 + h2 * r0 + h3 * (r4 * 5) + h4 * (r3 * 5) = d2 at b2 ⊢
  generalize h0 * r3 + h1 * r2 + h2 * r1 + h3 * r0 + h4 * (r4 * 5) = d3 at b3 ⊢
  generalize h0 * r4 + h1 * r3 + h2 * r2 + h3 * r1 + h4 * r0 = d4 at b4 ⊢
  have c1 : d1 + d0 / 2 ^ 26 < 2 ^ 60 := by omega
  have c2 : d2 + (d1 + d0 / 2 ^ 26) / 2 ^ 26 < 2 ^ 60 := by omega
  generalize d1 + d0 / 2 ^ 26 = x1 at c1 c2 ⊢
  generalize d2 + x1 / 2 ^ 26 = x2 at c2 ⊢
  have c3 : d3 + x2 / 2 ^ 26 < 2 ^ 60 := by omega
  generalize d3 + x2 / 2 ^ 26 = x3 at c3 ⊢
  have c4 : d4 + x3 / 2 ^ 26 < 2 ^ 57 := by omega
  generalize d4 + x3 / 2 ^ 26 = x4 at c4 ⊢
  refine ⟨⟨hs hr1, hs hr2, hs hr3, hs hr4⟩, ⟨b0.trans_le (Nat.sub_le ..), c1, c2, c3⟩, c4, ?_, ?_, ?_⟩
  · dsimp only; omega
  · dsimp only; omega
  · dsimp only; omega

lemma Product.Small.loose {p : Product ℕ} (h : p.Small) : p.limbs.Loose := by
  simp only [Product.limbs, low_nat]
  exact ⟨Nat.mod_lt _ (by decide), h.h1, Nat.mod_lt _ (by decide), Nat.mod_lt _ (by decide),
    Nat.mod_lt _ (by decide)⟩

/-! ### the `Long`s are exact -/

/-- The `Long`s of a computation are the numbers that are meant, and no bit of them is lost. -/
def Exact (longs : List UInt64) (numbers : List ℕ) : Prop :=
  longs.map UInt64.toNat = numbers ∧ ∀ x ∈ numbers, x < 2 ^ 63

lemma toNat_low (x : UInt64) : (low x).toNat = low x.toNat := UInt64.toNat_and ..

lemma toNat_carry (x : UInt64) : (carry x).toNat = carry x.toNat := UInt64.toNat_shiftRight ..

lemma toNat_add_lt (h : a.toNat + b.toNat < 2 ^ 64) : (a + b).toNat = a.toNat + b.toNat := by
  rw [UInt64.toNat_add, Nat.mod_eq_of_lt h]

lemma toNat_mul_lt (h : a.toNat * b.toNat < 2 ^ 64) : (a * b).toNat = a.toNat * b.toNat := by
  rw [UInt64.toNat_mul, Nat.mod_eq_of_lt h]

lemma toNat_products {a0 a1 a2 a3 a4 b0 b1 b2 b3 b4 : UInt64}
    (h : a0.toNat * b0.toNat + a1.toNat * b1.toNat + a2.toNat * b2.toNat + a3.toNat * b3.toNat +
      a4.toNat * b4.toNat < 2 ^ 64) : (a0 * b0 + a1 * b1 + a2 * b2 + a3 * b3 + a4 * b4).toNat =
      a0.toNat * b0.toNat + a1.toNat * b1.toNat + a2.toNat * b2.toNat + a3.toNat * b3.toNat +
        a4.toNat * b4.toNat := by
  simp only [UInt64.toNat_add, UInt64.toNat_mul]
  generalize a0.toNat * b0.toNat = x0 at h ⊢
  generalize a1.toNat * b1.toNat = x1 at h ⊢
  generalize a2.toNat * b2.toNat = x2 at h ⊢
  generalize a3.toNat * b3.toNat = x3 at h ⊢
  generalize a4.toNat * b4.toNat = x4 at h ⊢
  omega

lemma toNat_products_carry {a0 a1 a2 a3 a4 b0 b1 b2 b3 b4 d : UInt64} (hd : d.toNat = n)
    (h : a0.toNat * b0.toNat + a1.toNat * b1.toNat + a2.toNat * b2.toNat + a3.toNat * b3.toNat +
      a4.toNat * b4.toNat + carry n < 2 ^ 64) :
    (a0 * b0 + a1 * b1 + a2 * b2 + a3 * b3 + a4 * b4 + carry d).toNat =
      a0.toNat * b0.toNat + a1.toNat * b1.toNat + a2.toNat * b2.toNat + a3.toNat * b3.toNat +
        a4.toNat * b4.toNat + carry n := by
  have hsum := toNat_products (Nat.lt_of_le_of_lt (Nat.le_add_right _ _) h)
  have hcarry : (carry d).toNat = carry n := by rw [toNat_carry, hd]
  rw [toNat_add_lt (by rw [hsum, hcarry]; exact h), hsum, hcarry]

lemma toNat_around {x0 x1 x4 : UInt64} {n0 n1 n4 : ℕ} (h0 : x0.toNat = n0) (h1 : x1.toNat = n1)
    (h4 : x4.toNat = n4) (ha : carry n4 * 5 < 2 ^ 64) (hs : n0 + carry n4 * 5 < 2 ^ 64)
    (hl : n1 + carry (n0 + carry n4 * 5) < 2 ^ 64) :
    (carry x4 * 5).toNat = carry n4 * 5 ∧ (x0 + carry x4 * 5).toNat = n0 + carry n4 * 5 ∧
      (x1 + carry (x0 + carry x4 * 5)).toNat = n1 + carry (n0 + carry n4 * 5) := by
  have e4 : (carry x4).toNat = carry n4 := by rw [toNat_carry, h4]
  have ea : (carry x4 * 5).toNat = carry n4 * 5 := by
    rw [toNat_mul_lt (by rw [e4]; exact ha), e4]
    rfl
  have es : (x0 + carry x4 * 5).toNat = n0 + carry n4 * 5 := by
    rw [toNat_add_lt (by rw [h0, ea]; exact hs), h0, ea]
  have ec : (carry (x0 + carry x4 * 5)).toNat = carry (n0 + carry n4 * 5) := by rw [toNat_carry, es]
  exact ⟨ea, es, by rw [toNat_add_lt (by rw [h1, ec]; exact hl), h1, ec]⟩

/-- **The sums of a block are exact.** -/
lemma product_exact {h r : Limbs UInt64}
    (hs : (product (h.map UInt64.toNat) (r.map UInt64.toNat)).Small) :
    Exact (product h r).toList (product (h.map UInt64.toNat) (r.map UInt64.toNat)).toList := by
  refine ⟨?_, hs.lt⟩
  obtain ⟨⟨hs1, hs2, hs3, hs4⟩, ⟨hd0, hd1, hd2, hd3⟩, hd4, ha, hh0, hh1⟩ := hs
  obtain ⟨h0, h1, h2, h3, h4⟩ := h
  obtain ⟨r0, r1, r2, r3, r4⟩ := r
  simp only [product, Limbs.map] at hs1 hs2 hs3 hs4 hd0 hd1 hd2 hd3 hd4 ha hh0 hh1
  simp only [product, Limbs.map, Product.toList, List.map_cons, List.map_nil]
  have e1 : (r1 * 5).toNat = r1.toNat * 5 := toNat_mul_lt (by exact hs1.trans (by decide))
  have e2 : (r2 * 5).toNat = r2.toNat * 5 := toNat_mul_lt (by exact hs2.trans (by decide))
  have e3 : (r3 * 5).toNat = r3.toNat * 5 := toNat_mul_lt (by exact hs3.trans (by decide))
  have e4 : (r4 * 5).toNat = r4.toNat * 5 := toNat_mul_lt (by exact hs4.trans (by decide))
  rw [← e1, ← e2, ← e3, ← e4]
  rw [← e1, ← e2, ← e3, ← e4] at hd0 hd1 hd2 hd3 hd4 ha hh0 hh1
  generalize r1 * 5 = s1 at *
  generalize r2 * 5 = s2 at *
  generalize r3 * 5 = s3 at *
  generalize r4 * 5 = s4 at *
  have f0 := toNat_products (hd0.trans (by decide))
  have f1 := toNat_products_carry f0 (hd1.trans (by decide))
  have f2 := toNat_products_carry f1 (hd2.trans (by decide))
  have f3 := toNat_products_carry f2 (hd3.trans (by decide))
  have f4 := toNat_products_carry f3 (hd4.trans (by decide))
  obtain ⟨g0, g1, g2⟩ :=
    toNat_around ((toNat_low _).trans (congrArg low f0)) ((toNat_low _).trans (congrArg low f1)) f4
    (ha.trans (by decide)) (hh0.trans (by decide)) (hh1.trans (by decide))
  rw [f0, f1, f2, f3, f4, g0, g1, g2]

lemma Product.limbs_toNat {p : Product UInt64} {q : Product ℕ} (h : Exact p.toList q.toList) :
    p.limbs.map UInt64.toNat = q.limbs := by
  have h := h.1
  simp only [Product.toList, List.map_cons, List.map_nil, List.cons.injEq, and_true] at h
  obtain ⟨-, -, -, -, -, -, h2, h3, h4, -, h0, h1⟩ := h
  simp only [Product.limbs, Limbs.map, toNat_low, h0, h1, h2, h3, h4]

/-! ### bytes -/

def leNat (b : List UInt8) : ℕ := Nat.ofDigits 256 (b.map UInt8.toNat)

lemma leNat_lt (b : List UInt8) : leNat b < 256 ^ b.length := by
  have h : ∀ x ∈ b.map UInt8.toNat, x < 256 := by
    intro x hx
    obtain ⟨y, -, rfl⟩ := List.mem_map.1 hx
    exact y.toNat_lt
  have := Nat.ofDigits_lt_base_pow_length (by decide) h
  rwa [List.length_map] at this

lemma leNat_append (a b : List UInt8) : leNat (a ++ b) = leNat a + 256 ^ a.length * leNat b := by
  rw [leNat, List.map_append, Nat.ofDigits_append, List.length_map]
  rfl

lemma leNat_cons (x : UInt8) (b : List UInt8) : leNat (x :: b) = x.toNat + 256 * leNat b := by
  rw [leNat, List.map_cons, Nat.ofDigits_cons]
  rfl

lemma leNat_zeros (n : ℕ) : leNat (List.replicate n 0) = 0 := by
  induction n with
  | zero => rfl
  | succ n ih => rw [List.replicate_succ, leNat_cons, ih]; rfl

lemma leNat_drop (b : List UInt8) {i : ℕ} (hi : i ≤ b.length) :
    leNat b / 256 ^ i = leNat (b.drop i) := by
  have hlt := leNat_lt (b.take i)
  rw [List.length_take_of_le hi] at hlt
  conv_lhs => rw [← List.take_append_drop i b, leNat_append, List.length_take_of_le hi]
  rw [Nat.add_mul_div_left _ _ (by positivity), Nat.div_eq_of_lt hlt, zero_add]

private lemma toNat_shl_lt {x : UInt8} {m : ℕ} (hm : m < 64) (hx : x.toNat <<< m < 2 ^ 64) :
    (x.toUInt64 <<< UInt64.ofNat m).toNat = x.toNat <<< m := by
  rw [UInt64.toNat_shiftLeft, UInt64.toNat_ofNat', UInt8.toNat_toUInt64,
    Nat.mod_mod_of_dvd _ (by decide), Nat.mod_eq_of_lt hm,
    Nat.mod_eq_of_lt hx]

private lemma or_bytes {b0 b1 b2 b3 : ℕ} (h0 : b0 < 2 ^ 8) (h1 : b1 < 2 ^ 8) (h2 : b2 < 2 ^ 8) :
    b0 ||| b1 <<< 8 ||| b2 <<< 16 ||| b3 <<< 24 = b0 + 256 * b1 + 65536 * b2 + 16777216 * b3 := by
  have e1 : b0 ||| b1 <<< 8 = b1 <<< 8 + b0 := by rw [Nat.shiftLeft_add_eq_or_of_lt h0, Nat.or_comm]
  have l1 : b1 <<< 8 + b0 < 2 ^ 16 := by rw [Nat.shiftLeft_eq]; omega
  have e2 : b1 <<< 8 + b0 ||| b2 <<< 16 = b2 <<< 16 + (b1 <<< 8 + b0) := by
    rw [Nat.shiftLeft_add_eq_or_of_lt l1, Nat.or_comm]
  have l2 : b2 <<< 16 + (b1 <<< 8 + b0) < 2 ^ 24 := by rw [Nat.shiftLeft_eq b2]; omega
  rw [e1, e2, Nat.or_comm, ← Nat.shiftLeft_add_eq_or_of_lt l2]
  simp only [Nat.shiftLeft_eq]
  omega

lemma le32_toNat (b : List UInt8) {i : ℕ} (hi : i + 4 ≤ b.length) :
    (le32 b i).toNat = leNat b / 256 ^ i % 2 ^ 32 := by
  have hget (k : ℕ) : b.getD (i + k) 0 = (b.drop i).getD k 0 := by
    rw [List.getD_eq_getElem?_getD, List.getD_eq_getElem?_getD, List.getElem?_drop]
  have hlen : 4 ≤ (b.drop i).length := by
    rw [List.length_drop]
    omega
  rw [leNat_drop b (by omega), le32, hget 1, hget 2, hget 3, ← Nat.add_zero i, hget 0, Nat.add_zero]
  generalize b.drop i = l at hlen ⊢
  obtain _ | ⟨b0, _ | ⟨b1, _ | ⟨b2, _ | ⟨b3, rest⟩⟩⟩⟩ := l
  · exact absurd hlen (by simp)
  · exact absurd hlen (by simp)
  · exact absurd hlen (by simp)
  · exact absurd hlen (by simp)
  have h0 := b0.toNat_lt
  have h1 := b1.toNat_lt
  have h2 := b2.toNat_lt
  have h3 := b3.toNat_lt
  have e1 : (b1.toUInt64 <<< 8).toNat = b1.toNat <<< 8 := toNat_shl_lt (m := 8) (by omega) (by omega)
  have e2 : (b2.toUInt64 <<< 16).toNat = b2.toNat <<< 16 := toNat_shl_lt (m := 16) (by omega) (by omega)
  have e3 : (b3.toUInt64 <<< 24).toNat = b3.toNat <<< 24 := toNat_shl_lt (m := 24) (by omega) (by omega)
  simp only [List.getD_cons_zero, List.getD_cons_succ, UInt64.toNat_or, e1, e2, e3, UInt8.toNat_toUInt64,
    or_bytes h0 h1 h2, leNat_cons]
  omega

def Limbs.ofNat (n : ℕ) : Limbs ℕ :=
  ⟨n % 2 ^ 26, n / 2 ^ 26 % 2 ^ 26, n / 2 ^ 52 % 2 ^ 26, n / 2 ^ 78 % 2 ^ 26, n / 2 ^ 104⟩

lemma Limbs.value_ofNat (n : ℕ) : (Limbs.ofNat n).value = n := by
  simp only [Limbs.value, Limbs.ofNat]
  omega

lemma Limbs.ofNat_value (hh : h.Below (2 ^ 26)) : Limbs.ofNat h.value = h := by
  rw [Limbs.below_iff] at hh
  obtain ⟨h0, h1, h2, h3, h4⟩ := h
  simp only [Limbs.value, Limbs.ofNat, Limbs.mk.injEq] at hh ⊢
  omega

lemma Limbs.ofNat_below (h : n < 2 ^ 130) : (Limbs.ofNat n).Below (2 ^ 26) := by
  rw [Limbs.below_iff]
  simp only [Limbs.ofNat]
  omega

lemma toNat_shr (x : UInt64) {k : ℕ} (hk : k < 64) : (x >>> UInt64.ofNat k).toNat = x.toNat / 2 ^ k := by
  rw [UInt64.toNat_shiftRight, UInt64.toNat_ofNat', Nat.mod_mod_of_dvd _ (by decide),
    Nat.mod_eq_of_lt hk, Nat.shiftRight_eq_div_pow]

lemma le32_limbs (hm : 16 ≤ m.length) (hn : leNat (m.take 16) = n) :
    (le32 m 0).toNat % 2 ^ 26 = n % 2 ^ 26 ∧ (le32 m 3 >>> 2).toNat % 2 ^ 26 = n / 2 ^ 26 % 2 ^ 26 ∧
      (le32 m 6 >>> 4).toNat % 2 ^ 26 = n / 2 ^ 52 % 2 ^ 26 ∧
      (le32 m 9 >>> 6).toNat % 2 ^ 26 = n / 2 ^ 78 % 2 ^ 26 ∧
      (le32 m 12 >>> 8).toNat = n / 2 ^ 104 := by
  have hlt : n < 2 ^ 128 := by
    have := leNat_lt (m.take 16)
    rw [hn, List.length_take_of_le hm] at this
    exact this.trans_eq (by norm_num)
  have hall : ∃ q, leNat m = n + 2 ^ 128 * q := by
    refine ⟨leNat (m.drop 16), ?_⟩
    conv_lhs => rw [← List.take_append_drop 16 m, leNat_append, List.length_take_of_le hm, hn]
    norm_num
  obtain ⟨q, hq⟩ := hall
  have h3 : (le32 m 3 >>> 2).toNat = (le32 m 3).toNat / 2 ^ 2 := toNat_shr _ (by decide)
  have h6 : (le32 m 6 >>> 4).toNat = (le32 m 6).toNat / 2 ^ 4 := toNat_shr _ (by decide)
  have h9 : (le32 m 9 >>> 6).toNat = (le32 m 9).toNat / 2 ^ 6 := toNat_shr _ (by decide)
  have h12 : (le32 m 12 >>> 8).toNat = (le32 m 12).toNat / 2 ^ 8 := toNat_shr _ (by decide)
  rw [h3, h6, h9, h12, le32_toNat m (by omega), le32_toNat m (by omega), le32_toNat m (by omega),
    le32_toNat m (by omega),
    le32_toNat m (by omega), hq]
  norm_num only
  omega

/-- **The limbs of a block** are those of its number with the bit above it. -/
lemma blockLimbs_toNat (hm : m.length = 16) {hibit : UInt64} (hb : hibit = 0 ∨ hibit = HIBIT) :
    (blockLimbs m hibit).map UInt64.toNat = Limbs.ofNat (leNat m + hibit.toNat * 2 ^ 104) := by
  have htake : leNat (m.take 16) = leNat m := by rw [List.take_of_length_le hm.le]
  obtain ⟨e0, e1, e2, e3, e4⟩ := le32_limbs hm.ge htake
  have hlt := leNat_lt m
  rw [hm] at hlt
  have hor : (le32 m 12 >>> 8 ||| hibit).toNat = leNat m / 2 ^ 104 + hibit.toNat := by
    rw [UInt64.toNat_or, e4]
    rcases hb with rfl | rfl
    · exact Nat.or_zero _
    · have := Nat.two_pow_add_eq_or_of_lt (i := 24) (b := leNat m / 2 ^ 104) (by omega) 1
      rw [Nat.or_comm, Nat.add_comm]
      exact this.symm
  have hmask (x : UInt64) : (x &&& 0x3ffffff).toNat = x.toNat % 2 ^ 26 := (toNat_low x).trans (low_nat _)
  simp only [blockLimbs, Limbs.map, Limbs.ofNat, hmask, e0, e1, e2, e3, hor]
  have hbit : hibit.toNat = 0 ∨ hibit.toNat = 2 ^ 24 := by
    rcases hb with rfl | rfl
    · exact .inl rfl
    · exact .inr rfl
  rw [Limbs.mk.injEq]
  rcases hbit with h | h <;> rw [h] <;> omega

/-! ### the tag of RFC 8439 -/

/-- `r` without the bits that the RFC has cleared. -/
def clamp (r : ℕ) : ℕ := r &&& 0x0ffffffc0ffffffc0ffffffc0fffffff

/-- The accumulator after a message: each block of 16 bytes, the last one maybe shorter, has a one
put behind it. -/
def accumulate (r acc : ℕ) (msg : List UInt8) : ℕ :=
  if msg = [] then acc else accumulate r ((acc + leNat (msg.take 16 ++ [1])) * r % prime) (msg.drop 16)
termination_by msg.length
decreasing_by
  have := List.length_pos_of_ne_nil ‹_›
  rw [List.length_drop]
  omega

/-- The tag of a message under a key of 32 bytes. -/
def tag (key msg : List UInt8) : List UInt8 :=
  (List.range 16).map
    (Bytes.leByte (accumulate (clamp (leNat (key.take 16))) 0 msg + leNat (key.drop 16)))

lemma clamp_lt (r : ℕ) : clamp r < 2 ^ 124 := Nat.and_lt_two_pow _ (by decide)

/-- **The limbs of the key** are those of the clamped number. -/
lemma keyLimbs_toNat {key : List UInt8} (hkey : 16 ≤ key.length) :
    (keyLimbs key).map UInt64.toNat = Limbs.ofNat (clamp (leNat (key.take 16))) := by
  obtain ⟨e0, e1, e2, e3, e4⟩ := le32_limbs hkey rfl
  generalize leNat (key.take 16) = n at e0 e1 e2 e3 e4 ⊢
  -- a mask of 26 bits does not look at the bits above them
  have hmask (x : ℕ) {k : ℕ} (hk : k < 2 ^ 26) : x &&& k = x % 2 ^ 26 &&& k := by
    rw [← Nat.mod_eq_of_lt (Nat.and_lt_two_pow x hk), Nat.and_mod_two_pow, Nat.mod_eq_of_lt hk]
  have hlimb (i : ℕ) : clamp n / 2 ^ i % 2 ^ 26 = n / 2 ^ i % 2 ^ 26 &&& clamp (2 ^ 128 - 1) / 2 ^
      i % 2 ^ 26 := by
    rw [clamp, clamp, Nat.and_div_two_pow, Nat.and_mod_two_pow]
    rfl
  have h0 : clamp n % 2 ^ 26 = n % 2 ^ 26 &&& 0x3ffffff := by
    have := hlimb 0
    rw [Nat.pow_zero, Nat.div_one, Nat.div_one] at this
    exact this
  have h4 : clamp n / 2 ^ 104 = n / 2 ^ 104 &&& 0x00fffff := Nat.and_div_two_pow ..
  simp only [keyLimbs, Limbs.map, Limbs.ofNat, UInt64.toNat_and]
  rw [hmask (le32 key 0).toNat (by decide), hmask (le32 key 3 >>> 2).toNat (by decide),
    hmask (le32 key 6 >>> 4).toNat (by decide), hmask (le32 key 9 >>> 6).toNat (by decide), e0, e1,
    e2, e3, e4, h0, hlimb 26, hlimb 52, hlimb 78, h4]
  rfl

/-! ### the blocks -/

def BlockExact (p : Poly1305) (m : List UInt8) (hibit : UInt64) : Prop :=
  let b := blockLimbs m hibit
  let h := (p.h.map UInt64.toNat).add (b.map UInt64.toNat)
  Exact (p.h.add b).toList h.toList ∧
    Exact (product (p.h.add b) p.r).toList (product h (p.r.map UInt64.toNat)).toList

lemma Limbs.add_toNat {h m : Limbs UInt64} (hh : (h.map UInt64.toNat).Loose)
    (hm : (m.map UInt64.toNat).Below (2 ^ 26)) :
    (h.add m).map UInt64.toNat = (h.map UInt64.toNat).add (m.map UInt64.toNat) ∧
      ((h.map UInt64.toNat).add (m.map UInt64.toNat)).Below (2 ^ 28) := by
  rw [Limbs.below_iff] at hm
  obtain ⟨h0, h1, h2, h3, h4⟩ := hh
  obtain ⟨m0, m1, m2, m3, m4⟩ := hm
  simp only [Limbs.map] at h0 h1 h2 h3 h4 m0 m1 m2 m3 m4
  refine ⟨?_, Limbs.below_iff.2 ?_⟩
  · simp only [Limbs.add, Limbs.map]
    rw [toNat_add_lt (by omega), toNat_add_lt (by omega), toNat_add_lt (by omega),
      toNat_add_lt (by omega),
      toNat_add_lt (by omega)]
  · simp only [Limbs.add, Limbs.map]
    omega

lemma Limbs.value_add (h m : Limbs ℕ) : (h.add m).value = h.value + m.value := by
  simp only [Limbs.add, Limbs.value]
  ring

def acc (p : Poly1305) : ℕ := (p.h.map UInt64.toNat).value

/-- **A block**: it is exact, leaves the limbs as it needs them, and multiplies. -/
lemma block_spec {hibit : UInt64} (hr : (p.r.map UInt64.toNat).Below (2 ^ 26))
    (hh : (p.h.map UInt64.toNat).Loose) (hm : m.length = 16) (hb : hibit = 0 ∨ hibit = HIBIT) :
    p.BlockExact m hibit ∧ ((p.block m hibit).h.map UInt64.toNat).Loose ∧
      (p.block m hibit).acc % prime =
        (p.acc + (leNat m + hibit.toNat * 2 ^ 104)) * (p.r.map UInt64.toNat).value % prime := by
  have hlimbs := blockLimbs_toNat hm hb
  have hbelow : ((blockLimbs m hibit).map UInt64.toNat).Below (2 ^ 26) := by
    rw [hlimbs]
    refine Limbs.ofNat_below ?_
    have hlt := leNat_lt m
    have hbit : hibit.toNat ≤ 2 ^ 24 := by
      rcases hb with rfl | rfl
      · exact Nat.zero_le _
      · exact le_rfl
    rw [hm] at hlt
    omega
  obtain ⟨hadd, hsum⟩ := Limbs.add_toNat hh hbelow
  have hsmall := product_small hsum hr
  have hexact : Exact (product (p.h.add (blockLimbs m hibit)) p.r).toList
      (product ((p.h.map UInt64.toNat).add ((blockLimbs m hibit).map UInt64.toNat))
          (p.r.map UInt64.toNat)).toList := by
    rw [← hadd] at hsmall ⊢
    exact product_exact hsmall
  have hout := Product.limbs_toNat hexact
  refine ⟨⟨⟨?_, fun x hx => (hsum x hx).trans (by decide)⟩, hexact⟩, ?_, ?_⟩
  · rw [← hadd]
    rfl
  · change Limbs.Loose ((product (p.h.add (blockLimbs m hibit)) p.r).limbs.map UInt64.toNat)
    rw [hout]
    exact hsmall.loose
  · obtain ⟨k, hk⟩ := product_value ((p.h.map UInt64.toNat).add ((blockLimbs m hibit).map UInt64.toNat))
      (p.r.map UInt64.toNat)
    have hnew : (p.block m hibit).acc =
      (product ((p.h.map UInt64.toNat).add ((blockLimbs m hibit).map UInt64.toNat))
        (p.r.map UInt64.toNat)).limbs.value := by rw [← hout]; rfl
    rw [hnew, ← Nat.add_mul_mod_self_left _ prime k, ← hk, Limbs.value_add, hlimbs, Limbs.value_ofNat]
    rfl

/-! ### the end -/

/-- The carries at the end bring every limb under 26 bits: one goes around only where the second
limb was small. -/
lemma carried_below (hh : h.Loose) :
    (carried h).limbs.Below (2 ^ 26) ∧ ∀ x ∈ (carried h).toList, x < 2 ^ 27 := by
  obtain ⟨h0, h1, h2, h3, h4⟩ := hh
  rw [Limbs.below_iff]
  simp only [carried, Carried.limbs, Carried.toList, low_nat, carry_nat, List.mem_cons,
    List.not_mem_nil, or_false, forall_eq_or_imp, forall_eq]
  omega

lemma carried_value (h : Limbs ℕ) : ∃ k, h.value = (carried h).limbs.value + prime * k := by
  refine ⟨(carried h).h4 / 2 ^ 26, ?_⟩
  simp only [carried, Carried.limbs, Limbs.value, low_nat, carry_nat, prime]
  omega

lemma toNat_add_carry {d : UInt64} (hd : d.toNat = n) (h : a.toNat + carry n < 2 ^ 64) :
    (a + carry d).toNat = a.toNat + carry n := by
  have hc : (carry d).toNat = carry n := by rw [toNat_carry, hd]
  rw [toNat_add_lt (by rw [hc]; exact h), hc]

lemma carried_exact {h : Limbs UInt64} (hh : (h.map UInt64.toNat).Loose) :
    Exact (carried h).toList (carried (h.map UInt64.toNat)).toList := by
  have hlt := (carried_below hh).2
  refine ⟨?_, fun x hx => (hlt x hx).trans (by decide)⟩
  simp only [Carried.toList, carried, Limbs.map, List.mem_cons, List.not_mem_nil, or_false,
    forall_eq_or_imp, forall_eq] at hlt
  obtain ⟨b2, b3, b4, ba, b0, b1⟩ := hlt
  simp only [Carried.toList, carried, Limbs.map, List.map_cons, List.map_nil]
  have f2 := toNat_add_carry (a := h.l2) (d := h.l1) rfl (b2.trans (by decide))
  have f3 := toNat_add_carry f2 (b3.trans (by decide))
  have f4 := toNat_add_carry f3 (b4.trans (by decide))
  obtain ⟨g0, g1, g2⟩ :=
    toNat_around (rfl : h.l0.toNat = _) (toNat_low h.l1) f4 (ba.trans (by decide))
      (b0.trans (by decide))
    (b1.trans (by decide))
  rw [f2, f3, f4, g0, g1, g2]

lemma Carried.limbs_toNat {c : Carried UInt64} {d : Carried ℕ} (h : Exact c.toList d.toList) :
    c.limbs.map UInt64.toNat = d.limbs := by
  have h := h.1
  simp only [Carried.toList, List.map_cons, List.map_nil, List.cons.injEq, and_true] at h
  obtain ⟨h2, h3, h4, -, h0, h1⟩ := h
  simp only [Carried.limbs, Limbs.map, toNat_low, h0, h1, h2, h3, h4]

lemma plusFive_lt (hh : h.Below (2 ^ 26)) : (plusFive h).Below (2 ^ 27) := by
  rw [Limbs.below_iff] at hh ⊢
  simp only [plusFive, carry_nat]
  omega

lemma plusFive_toNat {h : Limbs UInt64} (hh : (h.map UInt64.toNat).Below (2 ^ 26)) :
    (plusFive h).map UInt64.toNat = plusFive (h.map UInt64.toNat) := by
  have hlt := Limbs.below_iff.1 (plusFive_lt hh)
  simp only [plusFive, Limbs.map] at hlt
  obtain ⟨b0, b1, b2, b3, b4⟩ := hlt
  simp only [plusFive, Limbs.map]
  have f0 : (h.l0 + 5).toNat = h.l0.toNat + 5 := toNat_add_lt (b0.trans (by decide))
  have f1 := toNat_add_carry f0 (b1.trans (by decide))
  have f2 := toNat_add_carry f1 (b2.trans (by decide))
  have f3 := toNat_add_carry f2 (b3.trans (by decide))
  have f4 := toNat_add_carry f3 (b4.trans (by decide))
  rw [f0, f1, f2, f3, f4]

/-- What the conditional subtraction leaves is the number modulo the prime: it is at most once in
limbs of 26 bits. -/
lemma select_value (hh : h.Below (2 ^ 26)) :
    (if 2 ^ 26 ≤ (plusFive h).l4 then
      ⟨low (plusFive h).l0, low (plusFive h).l1, low (plusFive h).l2, low (plusFive h).l3,
        (plusFive h).l4 - 2 ^ 26⟩
    else h) = Limbs.ofNat (h.value % prime) := by
  have hlt : (plusFive h).l4 ≤ 2 ^ 26 ∧ h.value < 2 ^ 130 := by
    rw [Limbs.below_iff] at hh
    simp only [plusFive, carry_nat, Limbs.value]
    omega
  have hval : h.value + 5 = low (plusFive h).l0 + low (plusFive h).l1 * 2 ^ 26 +
    low (plusFive h).l2 * 2 ^ 52 +
      low (plusFive h).l3 * 2 ^ 78 + (plusFive h).l4 * 2 ^ 104 := by
    simp only [plusFive, carry_nat, low_nat, Limbs.value]
    omega
  generalize plusFive h = g at hval hlt ⊢
  simp only [low_nat] at hval ⊢
  by_cases hge : 2 ^ 26 ≤ g.l4
  · rw [if_pos hge, ← Limbs.ofNat_value (h := ⟨_, _, _, _, _⟩) (Limbs.below_iff.2 ?_)]
    · have hsub : h.value % prime = h.value - prime := by
        rw [Nat.mod_eq_sub_mod, Nat.mod_eq_of_lt] <;> rw [prime] <;> omega
      rw [hsub, Limbs.value]
      refine congrArg Limbs.ofNat ?_
      rw [prime]
      dsimp only
      omega
    · dsimp only
      omega
  · rw [if_neg hge, Nat.mod_eq_of_lt, Limbs.ofNat_value hh]
    rw [prime]
    omega

/-- **The accumulator is reduced fully.** -/
lemma reduce_toNat {h : Limbs UInt64} (hh : (h.map UInt64.toNat).Loose) :
    (reduce h).map UInt64.toNat = Limbs.ofNat ((h.map UInt64.toNat).value % prime) := by
  have hc := Carried.limbs_toNat (carried_exact hh)
  have hbelow := (carried_below hh).1
  obtain ⟨k, hk⟩ := carried_value (h.map UInt64.toNat)
  rw [hk, Nat.add_mul_mod_self_left, ← select_value hbelow, ← hc]
  rw [← hc] at hbelow
  have hg := plusFive_toNat hbelow
  have hlt := Limbs.below_iff.1 (plusFive_lt hbelow)
  rw [reduce, ← hg]
  rw [← hg] at hlt
  generalize plusFive (carried h).limbs = g at hlt ⊢
  generalize (carried h).limbs = c
  simp only [Limbs.map] at hlt
  -- the difference is negative, as a signed number, just where the highest limb is below `2 ^ 26`
  have hsign : g.l4 - 0x4000000 < 0x8000000000000000 ↔ 2 ^ 26 ≤ g.l4.toNat := by
    rw [UInt64.lt_iff_toNat_lt, UInt64.toNat_sub]
    have e1 : (0x4000000 : UInt64).toNat = 2 ^ 26 := rfl
    have e2 : (0x8000000000000000 : UInt64).toNat = 2 ^ 63 := rfl
    rw [e1, e2]
    omega
  have hsub (hge : 2 ^ 26 ≤ g.l4.toNat) : (g.l4 - 0x4000000).toNat = g.l4.toNat - 2 ^ 26 :=
    UInt64.toNat_sub_of_le _ _ (UInt64.le_iff_toNat_le.2 hge)
  by_cases hge : 2 ^ 26 ≤ g.l4.toNat
  · rw [if_pos (hsign.2 hge), if_pos (by exact hge)]
    simp only [Limbs.map, toNat_low, hsub hge]
  · rw [if_neg (mt hsign.1 hge), if_neg (by exact hge)]

def Words.ofNat (n : ℕ) : Words ℕ :=
  ⟨n % 2 ^ 32, n / 2 ^ 32 % 2 ^ 32, n / 2 ^ 64 % 2 ^ 32, n / 2 ^ 96 % 2 ^ 32⟩

lemma toNat_word (x : UInt64) : (x &&& 0xffffffff).toNat = x.toNat % 2 ^ 32 :=
  (UInt64.toNat_and ..).trans (Nat.and_two_pow_sub_one_eq_mod _ 32)

lemma toNat_side {k : ℕ} (ha : a.toNat < 2 ^ k) (hk : k < 64) (hb : b.toNat * 2 ^ k < 2 ^ 64) :
    (a ||| b <<< UInt64.ofNat k).toNat = a.toNat + b.toNat * 2 ^ k := by
  rw [UInt64.toNat_or, UInt64.toNat_shiftLeft, UInt64.toNat_ofNat',
    Nat.mod_mod_of_dvd _ (by decide), Nat.mod_eq_of_lt hk,
    Nat.shiftLeft_eq, Nat.mod_eq_of_lt hb, ← Nat.shiftLeft_eq, Nat.or_comm,
    ← Nat.shiftLeft_add_eq_or_of_lt ha, Nat.add_comm]

lemma words_toNat {h : Limbs UInt64} (hh : h.map UInt64.toNat = Limbs.ofNat n) (hn : n < 2 ^ 130) :
    h.words.map UInt64.toNat = Words.ofNat n := by
  simp only [Limbs.map, Limbs.ofNat, Limbs.mk.injEq] at hh
  obtain ⟨h0, h1, h2, h3, h4⟩ := hh
  have s1 : (h.l1 >>> 6).toNat = h.l1.toNat / 2 ^ 6 := toNat_shr _ (by decide)
  have s2 : (h.l2 >>> 12).toNat = h.l2.toNat / 2 ^ 12 := toNat_shr _ (by decide)
  have s3 : (h.l3 >>> 18).toNat = h.l3.toNat / 2 ^ 18 := toNat_shr _ (by decide)
  have w0 : (h.l0 ||| h.l1 <<< 26).toNat = _ := toNat_side (k := 26) (by omega) (by decide) (by omega)
  have w1 : (h.l1 >>> 6 ||| h.l2 <<< 20).toNat = _ :=
    toNat_side (k := 20) (by omega) (by decide) (by omega)
  have w2 : (h.l2 >>> 12 ||| h.l3 <<< 14).toNat = _ :=
    toNat_side (k := 14) (by omega) (by decide) (by omega)
  have w3 : (h.l3 >>> 18 ||| h.l4 <<< 8).toNat = _ :=
    toNat_side (k := 8) (by omega) (by decide) (by omega)
  simp only [Limbs.words, Words.map, Words.ofNat, toNat_word, w0, w1, w2, w3, s1, s2, s3, h0, h1,
    h2, h3, h4, Words.mk.injEq]
  omega

lemma word_carry (n s c : ℕ) :
    (n % 2 ^ 32 + s % 2 ^ 32 + c) % 2 ^ 32 = (n + s + c) % 2 ^ 32 ∧
      n / 2 ^ 32 + s / 2 ^ 32 + (n % 2 ^ 32 + s % 2 ^ 32 + c) / 2 ^ 32 = (n + s + c) / 2 ^ 32 := by
  omega

lemma plus_value (n s : ℕ) :
    let f := (Words.ofNat n).plus (Words.ofNat s)
    f.w0 % 2 ^ 32 = (n + s) % 2 ^ 32 ∧ f.w1 % 2 ^ 32 = (n + s) / 2 ^ 32 % 2 ^ 32 ∧
      f.w2 % 2 ^ 32 = (n + s) / 2 ^ 64 % 2 ^ 32 ∧ f.w3 % 2 ^ 32 = (n + s) / 2 ^ 96 % 2 ^ 32 := by
  have hdiv (x : ℕ) : x >>> 32 = x / 2 ^ 32 := Nat.shiftRight_eq_div_pow x 32
  have h64 (x : ℕ) : x / 2 ^ 64 = x / 2 ^ 32 / 2 ^ 32 :=
    (Nat.div_div_eq_div_mul x (2 ^ 32) (2 ^ 32)).symm
  have h96 (x : ℕ) : x / 2 ^ 96 = x / 2 ^ 32 / 2 ^ 32 / 2 ^ 32 :=
    (Nat.div_div_eq_div_mul x (2 ^ 32) (2 ^ 64)).symm.trans (h64 _)
  simp only [Words.plus, Words.ofNat, hdiv, h64, h96]
  obtain ⟨e0, c0⟩ := word_carry n s 0
  obtain ⟨e1, c1⟩ := word_carry (n / 2 ^ 32) (s / 2 ^ 32) ((n % 2 ^ 32 + s % 2 ^ 32) / 2 ^ 32)
  rw [Nat.add_zero, Nat.add_zero] at e0 c0
  rw [c0] at e1 c1
  generalize n / 2 ^ 32 % 2 ^ 32 + s / 2 ^ 32 % 2 ^ 32 + (n % 2 ^ 32 + s % 2 ^ 32) / 2 ^ 32 =
    f1 at e1 c1 ⊢
  obtain ⟨e2, c2⟩ := word_carry (n / 2 ^ 32 / 2 ^ 32) (s / 2 ^ 32 / 2 ^ 32) (f1 / 2 ^ 32)
  rw [c1] at e2 c2
  generalize n / 2 ^ 32 / 2 ^ 32 % 2 ^ 32 + s / 2 ^ 32 / 2 ^ 32 % 2 ^ 32 + f1 / 2 ^ 32 = f2 at e2 c2 ⊢
  obtain ⟨e3, -⟩ :=
    word_carry (n / 2 ^ 32 / 2 ^ 32 / 2 ^ 32) (s / 2 ^ 32 / 2 ^ 32 / 2 ^ 32) (f2 / 2 ^ 32)
  rw [c2] at e3
  exact ⟨e0, e1, e2, e3⟩

lemma toNat_plus {f : UInt64} (ha : a.toNat < 2 ^ 32) (hb : b.toNat < 2 ^ 32) (hf : f.toNat = n)
    (hn : n < 2 ^ 34) :
    (a + b + f >>> 32).toNat = a.toNat + b.toNat + n >>> 32 ∧ a.toNat + b.toNat + n >>> 32 < 2 ^ 34 := by
  have hshr : (f >>> 32).toNat = n >>> 32 := by rw [UInt64.toNat_shiftRight, hf]; rfl
  have hlt : n >>> 32 < 2 ^ 2 := by rw [Nat.shiftRight_eq_div_pow]; omega
  rw [UInt64.toNat_add, UInt64.toNat_add, hshr]
  omega

lemma plus_exact {w pad : Words UInt64} (hw : ∀ x ∈ w.toList, x.toNat < 2 ^ 32)
    (hp : ∀ x ∈ pad.toList, x.toNat < 2 ^ 32) :
    Exact (w.plus pad).toList ((w.map UInt64.toNat).plus (pad.map UInt64.toNat)).toList := by
  simp only [Words.toList, List.mem_cons, List.not_mem_nil, or_false, forall_eq_or_imp,
    forall_eq] at hw hp
  obtain ⟨w0, w1, w2, w3⟩ := hw
  obtain ⟨p0, p1, p2, p3⟩ := hp
  have f0 : (w.w0 + pad.w0).toNat = w.w0.toNat + pad.w0.toNat := toNat_add_lt (by omega)
  have l0 : w.w0.toNat + pad.w0.toNat < 2 ^ 34 := by omega
  obtain ⟨f1, l1⟩ := toNat_plus w1 p1 f0 l0
  obtain ⟨f2, l2⟩ := toNat_plus w2 p2 f1 l1
  obtain ⟨f3, l3⟩ := toNat_plus w3 p3 f2 l2
  simp only [Exact, Words.plus, Words.map, Words.toList, List.map_cons, List.map_nil, f0, f1, f2,
    f3, true_and, List.mem_cons, List.not_mem_nil, or_false, forall_eq_or_imp, forall_eq]
  exact ⟨l0.trans (by decide), l1.trans (by decide), l2.trans (by decide), l3.trans (by decide)⟩

lemma putLe32_word {x : UInt64} {t j : ℕ} (hx : x.toNat % 2 ^ 32 = t / 256 ^ (4 * j) % 2 ^ 32) :
    putLe32 (x &&& 0xffffffff) = (List.range 4).map fun i => Bytes.leByte t (4 * j + i) := by
  have hbyte (i : ℕ) : (Bytes.leByte t (4 * j + i)).toNat = t / 256 ^ (4 * j) / 256 ^ i % 256 := by
    rw [Bytes.toNat_leByte, Nat.pow_add, Nat.div_div_eq_div_mul]
  have h8 (y : UInt64) : (y >>> 8).toNat = y.toNat / 2 ^ 8 := toNat_shr y (by decide)
  have h16 (y : UInt64) : (y >>> 16).toNat = y.toNat / 2 ^ 16 := toNat_shr y (by decide)
  have h24 (y : UInt64) : (y >>> 24).toNat = y.toNat / 2 ^ 24 := toNat_shr y (by decide)
  have hrange : List.range 4 = [0, 1, 2, 3] := rfl
  simp only [putLe32, hrange, List.map_cons, List.map_nil, List.cons.injEq, and_true,
    ← UInt8.toNat_inj, hbyte, UInt64.toNat_toUInt8, h8, h16, h24, toNat_word, hx]
  generalize t / 256 ^ (4 * j) = q
  omega

/-- The last block and the sums of `finish` lose no bit. -/
structure FinishExact (p : Poly1305) : Prop where
  block : 0 < p.buf.length → p.BlockExact p.padded 0
  carried : Exact (carried p.lastBlock.h).toList
    (Poly1305.carried (p.lastBlock.h.map UInt64.toNat)).toList
  plusFive : Exact (plusFive (Poly1305.carried p.lastBlock.h).limbs).toList
    (Poly1305.plusFive (Poly1305.carried (p.lastBlock.h.map UInt64.toNat)).limbs).toList
  words : Exact ((reduce p.lastBlock.h).words.plus p.pad).toList
    (((reduce p.lastBlock.h).words.map UInt64.toNat).plus (p.pad.map UInt64.toNat)).toList

lemma Words.ofNat_lt (n : ℕ) : ∀ x ∈ (Words.ofNat n).toList, x < 2 ^ 32 := by
  simp only [Words.ofNat, Words.toList, List.mem_cons, List.not_mem_nil, or_false, forall_eq_or_imp,
    forall_eq]
  omega

lemma Words.lt_of_toNat {w : Words UInt64} (h : w.map UInt64.toNat = Words.ofNat n) :
    ∀ x ∈ w.toList, x.toNat < 2 ^ 32 := by
  intro x hx
  refine Words.ofNat_lt n _ ?_
  rw [← h]
  exact List.mem_map_of_mem (f := UInt64.toNat) hx

/-- **The end**: reduced, added to the pad and stored. -/
lemma finish_eq {s : ℕ} (hh : (p.lastBlock.h.map UInt64.toNat).Loose)
    (hpad : p.pad.map UInt64.toNat = Words.ofNat s) :
    p.finish = (List.range 16).map (Bytes.leByte (p.lastBlock.acc % prime + s)) := by
  have hw := words_toNat (reduce_toNat hh) ((Nat.mod_lt _ (by decide)).trans (by decide))
  have hexact := (plus_exact (Words.lt_of_toNat hw) (Words.lt_of_toNat hpad)).1
  rw [hw, hpad] at hexact
  obtain ⟨v0, v1, v2, v3⟩ := plus_value (p.lastBlock.acc % prime) s
  simp only [Words.toList, List.map_cons, List.map_nil, List.cons.injEq, and_true] at hexact
  obtain ⟨f0, f1, f2, f3⟩ := hexact
  change (_ : ℕ) = ((Words.ofNat (p.lastBlock.acc % prime)).plus (Words.ofNat s)).w0 at f0
  change (_ : ℕ) = ((Words.ofNat (p.lastBlock.acc % prime)).plus (Words.ofNat s)).w1 at f1
  change (_ : ℕ) = ((Words.ofNat (p.lastBlock.acc % prime)).plus (Words.ofNat s)).w2 at f2
  change (_ : ℕ) = ((Words.ofNat (p.lastBlock.acc % prime)).plus (Words.ofNat s)).w3 at f3
  rw [← f0] at v0
  rw [← f1] at v1
  rw [← f2] at v2
  rw [← f3] at v3
  generalize p.lastBlock.acc % prime + s = t at v0 v1 v2 v3 ⊢
  have b0 := putLe32_word (t := t) (j := 0) (v0.trans (by norm_num))
  have b1 := putLe32_word (t := t) (j := 1) (v1.trans (by norm_num))
  have b2 := putLe32_word (t := t) (j := 2) (v2.trans (by norm_num))
  have b3 := putLe32_word (t := t) (j := 3) (v3.trans (by norm_num))
  simp only [finish, List.flatMap_cons, List.flatMap_nil, b0, b1, b2, b3]
  rfl

lemma finish_exact {s : ℕ} (hh : (p.lastBlock.h.map UInt64.toNat).Loose)
    (hpad : p.pad.map UInt64.toNat = Words.ofNat s)
    (hb : 0 < p.buf.length → p.BlockExact p.padded 0) : p.FinishExact := by
  have hc := Carried.limbs_toNat (carried_exact hh)
  have hbelow := (carried_below hh).1
  have hw := words_toNat (reduce_toNat hh) ((Nat.mod_lt _ (by decide)).trans (by decide))
  refine ⟨hb, carried_exact hh, ⟨?_, fun x hx => (plusFive_lt hbelow x hx).trans (by decide)⟩,
    plus_exact (Words.lt_of_toNat hw) (Words.lt_of_toNat hpad)⟩
  rw [← hc] at hbelow ⊢
  rw [← plusFive_toNat hbelow]
  rfl

/-! ### the message -/

lemma mod_step (acc b r : ℕ) : (acc % prime + b) * r % prime = (acc + b) * r % prime := by
  rw [Nat.mul_mod, Nat.mod_add_mod, ← Nat.mul_mod]

lemma accumulate_nil (r acc : ℕ) : accumulate r acc [] = acc := by rw [accumulate, if_pos rfl]

lemma accumulate_block (r acc : ℕ) (hm : m.length = 16) (rest : List UInt8) :
    accumulate r acc (m ++ rest) =
      accumulate r ((acc + (leNat m + HIBIT.toNat * 2 ^ 104)) * r % prime) rest := by
  have hne : m ++ rest ≠ [] := by
    intro h
    rw [List.append_eq_nil_iff.1 h |>.1] at hm
    exact absurd hm (by decide)
  have hone : leNat [1] = 1 := rfl
  rw [accumulate, if_neg hne, List.take_left' hm, List.drop_left' hm, leNat_append, hm, hone]
  rfl

lemma accumulate_last (r acc : ℕ) (hm : m.length < 16) (hne : m ≠ []) :
    accumulate r acc m = (acc + leNat (m ++ [1])) * r % prime := by
  rw [accumulate, if_neg hne, List.take_of_length_le hm.le, List.drop_of_length_le hm.le, accumulate_nil]

structure Tracks (key msg : List UInt8) (p : Poly1305) : Prop where
  r : p.r = keyLimbs key
  pad : p.pad.map UInt64.toNat = Words.ofNat (leNat (key.drop 16))
  loose : (p.h.map UInt64.toNat).Loose
  buf : p.buf.length < 16
  /-- What the bytes that follow bring does not depend on where the ones before were split. -/
  acc : ∀ rest, accumulate (clamp (leNat (key.take 16))) 0 (msg ++ rest) =
    accumulate (clamp (leNat (key.take 16))) (p.acc % prime) (p.buf ++ rest)

def AbsorbExact (p : Poly1305) (m : List UInt8) : Prop :=
  if 16 ≤ m.length then p.BlockExact (m.take 16) HIBIT ∧
  AbsorbExact (p.block (m.take 16) HIBIT) (m.drop 16) else True
termination_by m.length
decreasing_by
  rw [List.length_drop]
  omega

def UpdateExact (p : Poly1305) (m : List UInt8) : Prop :=
  if 0 < p.buf.length then
    let take := min (16 - p.buf.length) m.length
    let buf := p.buf ++ m.take take
    16 ≤ buf.length → p.BlockExact buf HIBIT ∧
      AbsorbExact { p.block buf HIBIT with buf := [] } (m.drop take)
  else p.AbsorbExact m

section

variable {key : List UInt8} (hkey : key.length = 32)
include hkey

variable {p : Poly1305} {msg : List UInt8}

lemma key_below (hr : p.r = keyLimbs key) : (p.r.map UInt64.toNat).Below (2 ^ 26) := by
  rw [hr, keyLimbs_toNat (by omega)]
  exact Limbs.ofNat_below ((clamp_lt _).trans (by decide))

lemma key_value (hr : p.r = keyLimbs key) :
    (p.r.map UInt64.toNat).value = clamp (leNat (key.take 16)) := by
  rw [hr, keyLimbs_toNat (by omega), Limbs.value_ofNat]

lemma Tracks.block (ht : Tracks key msg p) {m : List UInt8} (piece : List UInt8)
    (hm : m = p.buf ++ piece)
    (hlen : m.length = 16) :
    p.BlockExact m HIBIT ∧ Tracks key (msg ++ piece) { p.block m HIBIT with buf := [] } := by
  obtain ⟨hexact, hloose, hacc⟩ := block_spec (key_below hkey ht.r) ht.loose hlen (.inr rfl)
  refine ⟨hexact, ht.r, ht.pad, hloose, Nat.zero_lt_succ _, fun rest => ?_⟩
  rw [List.append_assoc, ht.acc, ← List.append_assoc, ← hm, accumulate_block _ _ hlen]
  change _ = accumulate _ ((p.block m HIBIT).acc % prime) rest
  rw [hacc, key_value hkey ht.r]
  rw [mod_step]

/-- **The loop of `update`.** -/
lemma absorb_tracks (ht : Tracks key msg p) (hbuf : p.buf = []) (m : List UInt8) :
    p.AbsorbExact m ∧ Tracks key (msg ++ m) (p.absorb m) := by
  fun_induction absorb p m generalizing msg with
  | case1 p m hm ih =>
    obtain ⟨hexact, hnext⟩ := ht.block hkey (m.take 16) (by rw [hbuf]; rfl)
      (List.length_take_of_le hm)
    -- a block leaves `buf` alone, so that it is empty already
    have hsame : { p.block (m.take 16) HIBIT with buf := [] } = p.block (m.take 16) HIBIT := by
      rw [← hbuf]
      rfl
    rw [hsame] at hnext
    obtain ⟨hrest, hend⟩ := ih hnext hbuf
    rw [AbsorbExact, if_pos hm]
    rw [List.append_assoc, List.take_append_drop] at hend
    exact ⟨⟨hexact, hrest⟩, hend⟩
  | case2 p m hm hpos =>
    rw [AbsorbExact, if_neg hm]
    refine ⟨trivial, ht.r, ht.pad, ht.loose, not_le.1 hm, fun rest => ?_⟩
    rw [List.append_assoc, ht.acc, hbuf]
    rfl
  | case3 p m hm hpos =>
    obtain rfl : m = [] := List.length_eq_zero_iff.1 (by omega)
    rw [AbsorbExact, if_neg hm, List.append_nil]
    exact ⟨trivial, ht⟩

/-- **A call of `update`**: its sums are exact, and the class has taken the bytes in. -/
lemma update_tracks (ht : Tracks key msg p) (m : List UInt8) :
    p.UpdateExact m ∧ Tracks key (msg ++ m) (p.update m) := by
  have hlt := ht.buf
  rw [UpdateExact, update]
  by_cases hpos : 0 < p.buf.length
  · rw [if_pos hpos, if_pos hpos]
    have hlen : (p.buf ++ m.take (min (16 - p.buf.length) m.length)).length =
        min 16 (p.buf.length + m.length) := by
      rw [List.length_append, List.length_take]
      omega
    by_cases hfull : 16 ≤ p.buf.length + m.length
    · obtain ⟨hexact, hnext⟩ := ht.block hkey (m.take (min (16 - p.buf.length) m.length)) rfl (by omega)
      obtain ⟨hrest, hend⟩ := absorb_tracks hkey hnext rfl (m.drop (min (16 - p.buf.length) m.length))
      rw [List.append_assoc, List.take_append_drop] at hend
      dsimp only
      rw [if_neg (by omega)]
      exact ⟨fun _ => ⟨hexact, hrest⟩, hend⟩
    · dsimp only
      rw [if_pos (by omega)]
      have htake : m.take (min (16 - p.buf.length) m.length) = m := List.take_of_length_le (by omega)
      refine ⟨fun h => by omega, ht.r, ht.pad, ht.loose, by dsimp only; omega, fun rest => ?_⟩
      rw [htake, List.append_assoc, ht.acc, ← List.append_assoc]
      rfl
  · rw [if_neg hpos, if_neg hpos]
    exact absorb_tracks hkey ht (List.length_eq_zero_iff.1 (by omega)) m

lemma updates_track (ht : Tracks key msg p) (pieces : List (List UInt8)) :
    Tracks key (msg ++ pieces.flatten) (pieces.foldl update p) := by
  induction pieces generalizing msg p with
  | nil => rwa [List.flatten_nil, List.append_nil]
  | cons m pieces ih =>
    rw [List.flatten_cons, ← List.append_assoc]
    exact ih (update_tracks hkey ht m).2

lemma Tracks.finish (ht : Tracks key msg p) : p.FinishExact ∧ p.finish = tag key msg := by
  have hlast : (0 < p.buf.length → p.BlockExact p.padded 0) ∧ (p.lastBlock.h.map UInt64.toNat).Loose ∧
      p.lastBlock.acc % prime = accumulate (clamp (leNat (key.take 16))) 0 msg := by
    have hacc := ht.acc []
    rw [List.append_nil, List.append_nil] at hacc
    by_cases hpos : 0 < p.buf.length
    · have hlt := ht.buf
      have hlen : p.padded.length = 16 := by
        rw [padded, List.length_append, List.length_cons, List.length_replicate]
        omega
      obtain ⟨hexact, hloose, hnew⟩ :=
        block_spec (key_below hkey ht.r) ht.loose hlen (.inl rfl : (0 : UInt64) = 0 ∨ _)
      have hpadded : leNat p.padded = leNat (p.buf ++ [1]) := by
        rw [padded, leNat_append, leNat_append, leNat_cons, leNat_zeros]
        rfl
      rw [lastBlock, if_pos hpos]
      refine ⟨fun _ => hexact, hloose, ?_⟩
      rw [hnew, key_value hkey ht.r, hacc, accumulate_last _ _ hlt (List.ne_nil_of_length_pos hpos),
        hpadded, mod_step]
      rfl
    · rw [lastBlock, if_neg hpos]
      refine ⟨fun h => absurd h hpos, ht.loose, ?_⟩
      rw [hacc, List.length_eq_zero_iff.1 (Nat.eq_zero_of_not_pos hpos), accumulate_nil]
  obtain ⟨hexact, hloose, hacc⟩ := hlast
  refine ⟨finish_exact hloose ht.pad hexact, ?_⟩
  rw [finish_eq hloose ht.pad, hacc]
  rfl

lemma new_tracks : ∃ p, new key = .ok p ∧ Tracks key [] p := by
  refine ⟨⟨keyLimbs key, ⟨le32 key 16, le32 key 20, le32 key 24, le32 key 28⟩, ⟨0, 0, 0, 0, 0⟩, []⟩,
    ?_, ?_⟩
  · rw [new, require_run hkey]
    rfl
  · have hzero : ((⟨0, 0, 0, 0, 0⟩ : Limbs UInt64).map UInt64.toNat).Loose :=
      ⟨by decide, by decide, by decide, by decide, by decide⟩
    have hacc : ((⟨0, 0, 0, 0, 0⟩ : Limbs UInt64).map UInt64.toNat).value % prime = 0 := by decide
    refine ⟨rfl, ?_, hzero, Nat.zero_lt_succ _, fun rest => by rw [acc, hacc]⟩
    have hword (i : ℕ) (hi : 16 + i + 4 ≤ key.length) :
        (le32 key (16 + i)).toNat = leNat (key.drop 16) / 256 ^ i % 2 ^ 32 := by
      rw [le32_toNat key hi, ← leNat_drop key (by omega), Nat.div_div_eq_div_mul, Nat.pow_add]
    have h0 := hword 0 (by omega)
    have h4 := hword 4 (by omega)
    have h8 := hword 8 (by omega)
    have h12 := hword 12 (by omega)
    simp only [Words.map, Words.ofNat, Words.mk.injEq]
    refine ⟨h0.trans (by norm_num), h4.trans (by norm_num), h8.trans (by norm_num),
      h12.trans (by norm_num)⟩

end

/-- **The tag of a message**: for every key of 32 bytes and every way to hand a message over, the
class returns the tag of RFC 8439, and no sum of a block, of the carries or of the words loses a
bit. -/
theorem finish_tag (key : List UInt8) (hkey : key.length = 32) :
    ∃ p, new key = .ok p ∧ ∀ pieces : List (List UInt8),
      (pieces.foldl update p).finish = tag key pieces.flatten ∧
        (∀ m, (pieces.foldl update p).UpdateExact m) ∧ (pieces.foldl update p).FinishExact := by
  obtain ⟨p, hnew, ht⟩ := new_tracks hkey
  refine ⟨p, hnew, fun pieces => ?_⟩
  have hall := updates_track hkey ht pieces
  obtain ⟨hexact, htag⟩ := hall.finish hkey
  exact ⟨htag, fun m => (update_tracks hkey hall m).1, hexact⟩

def exampleKey : List UInt8 :=
  [0x85, 0xd6, 0xbe, 0x78, 0x57, 0x55, 0x6d, 0x33, 0x7f, 0x44, 0x52, 0xfe, 0x42, 0xd5, 0x06, 0xa8,
    0x01, 0x03, 0x80, 0x8a, 0xfb, 0x0d, 0xb2, 0xfd, 0x4a, 0xbf, 0xf6, 0xaf, 0x41, 0x49, 0xf5, 0x1b]

/-- The message of the example, "Cryptographic Forum Research Group", in three pieces. -/
def exampleMessage : List (List UInt8) :=
  [[0x43, 0x72, 0x79, 0x70, 0x74],
    [0x6f, 0x67, 0x72, 0x61, 0x70, 0x68, 0x69, 0x63, 0x20, 0x46, 0x6f, 0x72, 0x75, 0x6d, 0x20, 0x52,
      0x65, 0x73, 0x65, 0x61],
    [0x72, 0x63, 0x68, 0x20, 0x47, 0x72, 0x6f, 0x75, 0x70]]

theorem finish_tag_example :
    ∃ p, new exampleKey = .ok p ∧ (exampleMessage.foldl update p).finish =
      [0xa8, 0x06, 0x1d, 0xc1, 0x30, 0x51, 0x36, 0xc6, 0xc2, 0x2b, 0x8b, 0xaf, 0x0c, 0x01, 0x27,
        0xa9] := by
  obtain ⟨p, hp, h⟩ := finish_tag exampleKey (by decide)
  exact ⟨p, hp, (h exampleMessage).1.trans (by decide +kernel)⟩

end Poly1305

end OtgMaster.Restic
