import OtgMaster.Lib.BinaryPoly
import OtgMaster.Restic.Chunker

/-!
Where a chunk ends. The digest that `slide` keeps is the value of the last 64 bytes, as a polynomial
over the field of two elements, modulo the chunker's polynomial (`Rolling`). So the cuts are a
matter of the bytes alone, however the stream hands them out, and the chunks put together are the
input (`chunks_of_input`).
-/

namespace OtgMaster.Restic

open Lib Block Polynomial

/-! ### the remainder -/

structure HasDegree (p : UInt64) (k : ℕ) : Prop where
  low : 2 ^ k ≤ p.toNat
  high : p.toNat < 2 ^ (k + 1)

/-- The numbers as polynomials, modulo the chunker's polynomial. -/
noncomputable def residue (pol : UInt64) (n : ℕ) : AdjoinRoot (poly pol.toNat) :=
  AdjoinRoot.mk _ (poly n)

section Residue

variable {pol : UInt64} {k n : ℕ}

lemma HasDegree.deg_eq (h : HasDegree pol k) : deg pol = k := by
  have h1 : k < pol.toNat.size := Nat.lt_size.2 h.low
  have h2 : pol.toNat.size ≤ k + 1 := Nat.size_le.2 h.high
  unfold deg
  omega

lemma hasDegree_of_deg (h : deg pol = k) : HasDegree pol k := by
  unfold deg at h
  exact ⟨Nat.lt_size.1 (by omega), Nat.size_le.1 (by omega)⟩

lemma HasDegree.monic (h : HasDegree pol k) : (poly pol.toNat).Monic ∧ (poly pol.toNat).degree = k :=
  poly_monic h.low h.high

lemma residue_xor (a b : ℕ) : residue pol (a ^^^ b) = residue pol a + residue pol b := by
  rw [residue, poly_xor, map_add]
  rfl

lemma residue_shift (a m : ℕ) :
    residue pol (a <<< m) = residue pol a * AdjoinRoot.root (poly pol.toNat) ^ m := by
  rw [residue, poly_shiftLeft, map_mul, map_pow, AdjoinRoot.mk_X]
  rfl

lemma residue_append {a b m : ℕ} (hb : b < 2 ^ m) :
    residue pol (a <<< m ||| b) = residue pol a * AdjoinRoot.root (poly pol.toNat) ^ m +
      residue pol b := by
  rw [residue, poly_append hb, map_add, map_mul, map_pow, AdjoinRoot.mk_X]
  rfl

lemma residue_add_self (a : ℕ) : residue pol a + residue pol a = 0 := by
  rw [← residue_xor, Nat.xor_self, residue, poly_zero, map_zero]

@[simp] lemma residue_zero : residue pol 0 = 0 := by
  rw [residue, poly_zero, map_zero]

lemma residue_self : residue pol pol.toNat = 0 := AdjoinRoot.mk_self

lemma toNat_shl {x : UInt64} {a m : ℕ} (hx : x.toNat < 2 ^ a) (ha : a + m ≤ 64) (hm : m < 64) :
    (x <<< m.toUInt64).toNat = x.toNat <<< m := by
  have hlt : x.toNat <<< m < 2 ^ 64 := by
    rw [Nat.shiftLeft_eq]
    calc x.toNat * 2 ^ m < 2 ^ a * 2 ^ m := Nat.mul_lt_mul_of_pos_right hx (Nat.two_pow_pos m)
      _ = 2 ^ (a + m) := (pow_add ..).symm
      _ ≤ 2 ^ 64 := Nat.pow_le_pow_right two_pos ha
  have hcount : m.toUInt64.toNat % 64 = m := by
    simp
    omega
  rw [UInt64.toNat_shiftLeft, hcount, Nat.mod_eq_of_lt hlt]

/-- **The loop of `mod` leaves the remainder.** -/
lemma modLoop_spec (hd : HasDegree pol k) {turns : ℕ} {x : UInt64} (hx : x.toNat < 2 ^ (k + turns)) :
    (modLoop pol turns x).toNat < 2 ^ k ∧ residue pol (modLoop pol turns x).toNat =
      residue pol x.toNat := by
  induction turns generalizing x with
  | zero => exact ⟨hx, rfl⟩
  | succ turns ih =>
    rw [modLoop]
    split
    · rename_i hgo
      obtain ⟨hne, hdeg⟩ := hgo
      -- the top bit of `x` is at place `s`
      obtain ⟨s, hs⟩ : ∃ s, x.toNat.size = s + 1 :=
        Nat.exists_eq_succ_of_ne_zero fun h => hne (UInt64.toNat_inj.1 (Nat.size_eq_zero.1 h))
      have hlow : 2 ^ s ≤ x.toNat := Nat.lt_size.1 (by omega)
      have hhigh : x.toNat < 2 ^ (s + 1) := Nat.size_le.1 hs.le
      have hsk : s < k + (turns + 1) :=
        (Nat.pow_lt_pow_iff_right (by decide : 1 < 2)).1 (hlow.trans_lt hx)
      have hs64 : s < 64 := (Nat.pow_lt_pow_iff_right (by decide : 1 < 2)).1 (hlow.trans_lt x.toNat_lt)
      have hdx : deg x = s := by unfold deg; omega
      rw [hd.deg_eq, hdx] at hdeg
      have hshift : (deg x - deg pol).toNat = s - k := by rw [hdx, hd.deg_eq]; omega
      have hd' : (pol <<< (deg x - deg pol).toNat.toUInt64).toNat = pol.toNat <<< (s - k) := by
        rw [hshift]
        exact toNat_shl hd.high (by omega) (by omega)
      have htop : 2 ^ s ≤ pol.toNat <<< (s - k) ∧ pol.toNat <<< (s - k) < 2 ^ (s + 1) := by
        rw [Nat.shiftLeft_eq, show 2 ^ s = 2 ^ k * 2 ^ (s - k) from by rw [← pow_add]; congr 1; omega,
          show 2 ^ (s + 1) = 2 ^ (k + 1) * 2 ^ (s - k) from by rw [← pow_add]; congr 1; omega]
        exact ⟨Nat.mul_le_mul_right _ hd.low, Nat.mul_lt_mul_of_pos_right hd.high (Nat.two_pow_pos _)⟩
      have hlt : (x ^^^ pol <<< (deg x - deg pol).toNat.toUInt64).toNat < 2 ^ (k + turns) := by
        rw [UInt64.toNat_xor, hd']
        exact (xor_lt_top ⟨hlow, hhigh⟩ htop).trans_le (Nat.pow_le_pow_right two_pos (by omega))
      obtain ⟨h1, h2⟩ := ih hlt
      refine ⟨h1, h2.trans ?_⟩
      rw [UInt64.toNat_xor, hd', residue_xor, residue_shift, residue_self, zero_mul, add_zero]
    · rename_i hstop
      refine ⟨?_, rfl⟩
      by_contra hge
      rw [not_lt] at hge
      have hsize : k < x.toNat.size := Nat.lt_size.2 hge
      refine hstop ⟨fun h0 => ?_, ?_⟩
      · rw [h0] at hge
        exact absurd hge (by simp)
      · rw [hd.deg_eq]
        unfold deg
        omega

lemma mod_spec (hd : HasDegree pol k) (x : UInt64) :
    (mod x pol).toNat < 2 ^ k ∧ residue pol (mod x pol).toNat = residue pol x.toNat :=
  modLoop_spec hd (x.toNat_lt.trans_le (Nat.pow_le_pow_right two_pos (by omega)))

end Residue

/-! ### the value of a window -/

/-- The bytes as one polynomial, the last byte lowest. -/
noncomputable def value (w : List UInt8) : (ZMod 2)[X] := w.foldl (fun f b => f * X ^ 8 + poly b.toNat) 0

/-- The fingerprint of a window: its value modulo the chunker's polynomial. -/
noncomputable def fingerprint (pol : UInt64) (w : List UInt8) : (ZMod 2)[X] := value w %ₘ poly pol.toNat

lemma value_concat (w : List UInt8) (b : UInt8) : value (w ++ [b]) = value w * X ^ 8 + poly b.toNat := by
  rw [value, List.foldl_append]
  rfl

lemma value_cons (b : UInt8) (w : List UInt8) :
    value (b :: w) = poly b.toNat * X ^ (8 * w.length) + value w := by
  induction w using List.reverseRecOn with
  | nil => simp [value]
  | append_singleton w c ih =>
    rw [← List.cons_append, value_concat, ih, value_concat, List.length_append, List.length_singleton]
    ring

section Slide

variable {pol : UInt64} {k : ℕ}

noncomputable def residueOf (pol : UInt64) (w : List UInt8) : AdjoinRoot (poly pol.toNat) :=
  AdjoinRoot.mk _ (value w)

lemma residueOf_concat (w : List UInt8) (b : UInt8) :
    residueOf pol (w ++ [b]) = residueOf pol w * AdjoinRoot.root (poly pol.toNat) ^ 8 +
      residue pol b.toNat := by
  rw [residueOf, value_concat, map_add, map_mul, map_pow, AdjoinRoot.mk_X]
  rfl

lemma residueOf_cons (b : UInt8) (w : List UInt8) :
    residueOf pol (b :: w) =
      residue pol b.toNat * AdjoinRoot.root (poly pol.toNat) ^ (8 * w.length) + residueOf pol w := by
  rw [residueOf, value_cons, map_add, map_mul, map_pow, AdjoinRoot.mk_X]
  rfl

lemma appendByte_spec (hd : HasDegree pol k) (hk : k ≤ 56) {h : UInt64} (hh : h.toNat < 2 ^ k)
    (b : UInt8) : (appendByte h b pol).toNat < 2 ^ k ∧ residue pol (appendByte h b pol).toNat =
      residue pol h.toNat * AdjoinRoot.root (poly pol.toNat) ^ 8 + residue pol b.toNat := by
  have hshl : (h <<< (8 : ℕ).toUInt64).toNat = h.toNat <<< 8 := toNat_shl hh (by omega) (by decide)
  obtain ⟨h1, h2⟩ := mod_spec hd (h <<< (8 : ℕ).toUInt64 ||| b.toUInt64)
  refine ⟨h1, h2.trans ?_⟩
  rw [UInt64.toNat_or, hshl, UInt8.toNat_toUInt64, residue_append b.toNat_lt]

lemma outTable_spec (hd : HasDegree pol k) (hk : k ≤ 56) (b : UInt8) :
    (outTable pol b).toNat < 2 ^ k ∧
      residue pol (outTable pol b).toNat = residue pol b.toNat * AdjoinRoot.root (poly pol.toNat) ^
        (8 * 63) := by
  have hrounds (m : ℕ) : ((appendByte · 0 pol)^[m] (appendByte 0 b pol)).toNat < 2 ^ k ∧
      residue pol ((appendByte · 0 pol)^[m] (appendByte 0 b pol)).toNat =
        residue pol b.toNat * AdjoinRoot.root (poly pol.toNat) ^ (8 * m) := by
    induction m with
    | zero =>
      obtain ⟨h1, h2⟩ := appendByte_spec (h := 0) hd hk (Nat.two_pow_pos k) b
      refine ⟨h1, h2.trans ?_⟩
      rw [UInt64.toNat_zero, residue_zero, zero_mul, zero_add, Nat.mul_zero, pow_zero, mul_one]
    | succ m ih =>
      rw [Function.iterate_succ_apply']
      obtain ⟨h1, h2⟩ := appendByte_spec hd hk ih.1 0
      refine ⟨h1, h2.trans ?_⟩
      rw [ih.2, UInt8.toNat_zero, residue_zero, add_zero, mul_assoc, ← pow_add, Nat.mul_succ]
  exact hrounds 63

/-- What is over the degree after a shift is known from the bits that were shifted over it. -/
lemma reduced_lt {e b m : ℕ} (he : e < 2 ^ k) (hb : b < 2 ^ 8) (hm : m < 2 ^ k) (hk : 8 ≤ k) :
    (e <<< 8 ||| b) ^^^ (m ||| (e >>> (k - 8) &&& 255) <<< k) < 2 ^ k := by
  refine Nat.lt_pow_two_of_testBit _ fun i hi => ?_
  have hb' : b.testBit i = false :=
    Nat.testBit_lt_two_pow (hb.trans_le (Nat.pow_le_pow_right two_pos (by omega)))
  have hm' : m.testBit i = false :=
    Nat.testBit_lt_two_pow (hm.trans_le (Nat.pow_le_pow_right two_pos hi))
  have hidx : (255 : ℕ).testBit (i - k) = decide (i - k < 8) := Nat.testBit_two_pow_sub_one 8 (i - k)
  simp only [Nat.testBit_xor, Nat.testBit_or, Nat.testBit_shiftLeft, Nat.testBit_and,
    Nat.testBit_shiftRight, hb', hm', hidx, Bool.or_false, Bool.false_or, ge_iff_le, hi,
    decide_true, Bool.true_and, (by omega : 8 ≤ i),
    (by omega : k - 8 + (i - k) = i - 8)]
  by_cases h8 : i - k < 8
  · simp [h8]
  · rw [Nat.testBit_lt_two_pow (he.trans_le (Nat.pow_le_pow_right two_pos (by omega : k ≤ i - 8)))]
    rfl

/-- One step of the digest: `e` is the digest without the byte that leaves. -/
lemma step_spec (hd : HasDegree pol k) (h8 : 8 ≤ k) (hk : k ≤ 56) {e : UInt64}
    (he : e.toNat < 2 ^ k) (b : UInt8) :
    let d := (e <<< 8 ||| b.toUInt64) ^^^ modTable pol (e >>> (deg pol - 8).toNat.toUInt64 &&& 0xff)
    d.toNat < 2 ^ k ∧
      residue pol d.toNat = residue pol e.toNat * AdjoinRoot.root (poly pol.toNat) ^ 8 +
          residue pol b.toNat := by
  have hshl : (e <<< (8 : ℕ).toUInt64).toNat = e.toNat <<< 8 := toNat_shl he (by omega) (by decide)
  have hidx : (e >>> (deg pol - 8).toNat.toUInt64 &&& 0xff).toNat = e.toNat >>> (k - 8) &&& 255 := by
    have hcount : (deg pol - 8).toNat.toUInt64.toNat % 64 = k - 8 := by
      rw [hd.deg_eq]
      simp
      omega
    rw [UInt64.toNat_and, UInt64.toNat_shiftRight, hcount]
    rfl
  set idx := e >>> (deg pol - 8).toNat.toUInt64 &&& 0xff with hidx_def
  have hlt : idx.toNat < 2 ^ 8 := by
    rw [hidx]
    exact (Nat.and_le_right).trans_lt (by decide)
  have hover : (idx <<< (deg pol).toNat.toUInt64).toNat = idx.toNat <<< k := by
    rw [hd.deg_eq]
    exact toNat_shl hlt (by omega) (by omega)
  obtain ⟨hm1, hm2⟩ := mod_spec hd (idx <<< (deg pol).toNat.toUInt64)
  have htable : (modTable pol idx).toNat = (mod (idx <<< (deg pol).toNat.toUInt64) pol).toNat |||
      idx.toNat <<< k := by
    rw [modTable, UInt64.toNat_or, hover]
  -- the table's entry is a multiple of the polynomial
  have hzero : residue pol (modTable pol idx).toNat = 0 := by
    rw [htable, Nat.or_comm, residue_append hm1, hm2, hover, residue_shift, ← residue_shift,
      residue_add_self]
  have hd' : ((e <<< 8 ||| b.toUInt64) ^^^ modTable pol idx).toNat =
      (e.toNat <<< 8 ||| b.toNat) ^^^ (modTable pol idx).toNat := by
    rw [UInt64.toNat_xor, UInt64.toNat_or, UInt8.toNat_toUInt64]
    exact congrArg (fun x => (x ||| b.toNat) ^^^ _) hshl
  refine ⟨?_, ?_⟩
  · rw [hd', htable, hidx]
    exact reduced_lt he b.toNat_lt hm1 h8
  · rw [hd', residue_xor, hzero, add_zero, residue_append b.toNat_lt]

end Slide

/-! ### the rolling window -/

/-- The bytes of the window, the oldest first. -/
def ResticChunker.ring (c : ResticChunker) : List UInt8 := c.window.drop c.wpos ++ c.window.take c.wpos

/-- **The digest is the fingerprint of the window.** -/
structure Rolling (c : ResticChunker) (k : ℕ) : Prop where
  degree : HasDegree c.pol k
  size : c.window.length = WINDOW
  pos : c.wpos < WINDOW
  small : c.digest.toNat < 2 ^ k
  digest : residue c.pol c.digest.toNat = residueOf c.pol c.ring

section Rolling

variable {c : ResticChunker} {k : ℕ}

lemma Rolling.fingerprint_eq (h : Rolling c k) : poly c.digest.toNat = fingerprint c.pol c.ring :=
  poly_eq_modByMonic h.degree.monic.1 h.degree.monic.2 h.small h.digest

lemma ring_slide (hsize : c.window.length = WINDOW) (hpos : c.wpos < WINDOW) (b : UInt8) :
    ∃ w, c.ring = c.window.getD c.wpos 0 :: w ∧ w.length = 63 ∧ (c.slide b).ring = w ++ [b] := by
  have hlt : c.wpos < c.window.length := by omega
  obtain ⟨l, o, r, hl, hwin, ho⟩ : ∃ l o r, l.length = c.wpos ∧ c.window = l ++ o :: r ∧
      c.window.getD c.wpos 0 = o := by
    refine ⟨c.window.take c.wpos, c.window[c.wpos], c.window.drop (c.wpos + 1), by simp; omega, ?_,
      List.getD_eq_getElem _ _ hlt⟩
    rw [List.getElem_cons_drop, List.take_append_drop]
  have hnew : (c.slide b).window = l ++ b :: r := by
    show c.window.set c.wpos b = _
    rw [hwin, ← hl, List.set_append_right _ _ le_rfl, Nat.sub_self]
    rfl
  have hlen : l.length + r.length = 63 := by
    have := congrArg List.length hwin
    simp [hsize, WINDOW] at this
    omega
  refine ⟨r ++ l, ?_, by rw [List.length_append]; omega, ?_⟩
  · rw [ho, ResticChunker.ring, hwin, ← hl, List.drop_left, List.take_left]
    rfl
  · have hwpos : (c.slide b).wpos = (l.length + 1) % 64 := by rw [hl]; rfl
    rw [ResticChunker.ring, hnew, hwpos]
    rcases Nat.lt_or_ge (l.length + 1) 64 with h | h
    · rw [Nat.mod_eq_of_lt h, ← List.singleton_append, ← List.append_assoc, List.drop_left' (by simp),
        List.take_left' (by simp), List.append_assoc]
    · -- the last place: the window starts over
      have hr : r = [] := List.length_eq_zero_iff.1 (by omega)
      rw [hr, show l.length + 1 = 64 from by omega]
      simp

lemma Rolling.slide (h : Rolling c k) (h8 : 8 ≤ k) (hk : k ≤ 56) (b : UInt8) :
    Rolling (c.slide b) k := by
  obtain ⟨w, hring, hlen, hnew⟩ := ring_slide h.size h.pos b
  obtain ⟨ho1, ho2⟩ := outTable_spec h.degree hk (c.window.getD c.wpos 0)
  have he : (c.digest ^^^ outTable c.pol (c.window.getD c.wpos 0)).toNat < 2 ^ k := by
    rw [UInt64.toNat_xor]
    exact Nat.xor_lt_two_pow h.small ho1
  have hout : residue c.pol (c.digest ^^^ outTable c.pol (c.window.getD c.wpos 0)).toNat =
      residueOf c.pol w := by
    rw [UInt64.toNat_xor, residue_xor, h.digest, hring, residueOf_cons, hlen, ho2, add_right_comm,
      ← residue_shift, residue_add_self, zero_add]
  obtain ⟨hs1, hs2⟩ := step_spec h.degree h8 hk he b
  refine ⟨h.degree, ?_, ?_, hs1, hs2.trans ?_⟩
  · simpa [ResticChunker.slide] using h.size
  · exact Nat.mod_lt _ (by decide)
  · show _ = residueOf c.pol _
    rw [hnew, residueOf_concat, hout]

lemma value_zeros (n : ℕ) : value (List.replicate n 0) = 0 := by
  induction n with
  | zero => rfl
  | succ n ih => rw [List.replicate_succ, value_cons, ih, UInt8.toNat_zero, poly_zero, zero_mul,
    add_zero]

/-- The bytes that a chunk starts with: the marker after an empty window. -/
def seed : List UInt8 := List.replicate 63 0 ++ [1]

lemma Rolling.reset (hd : HasDegree c.pol k) (h8 : 8 ≤ k) (hk : k ≤ 56) :
    Rolling c.reset k ∧ c.reset.ring = seed := by
  have hnew : Rolling { c with window := List.replicate WINDOW 0, wpos := 0, digest := 0 } k := by
    refine ⟨hd, List.length_replicate, Nat.zero_lt_succ 63, Nat.two_pow_pos k, ?_⟩
    show residue c.pol 0 = AdjoinRoot.mk _ (value (List.replicate 64 0))
    rw [residue_zero, value_zeros, map_zero]
  obtain ⟨w, hring, -, hslide⟩ := ring_slide hnew.size hnew.pos 1
  refine ⟨hnew.slide h8 hk 1, hslide.trans ?_⟩
  have hw : (List.replicate 64 (0 : UInt8)) = 0 :: w := hring
  rw [List.replicate_succ] at hw
  rw [← (List.cons.inj hw).2]
  rfl

end Rolling

/-! ### where a chunk ends -/

/-- The fingerprint of the last 64 bytes has 20 low zero bits. -/
def Cut (pol : UInt64) (w : List UInt8) : Prop :=
  ∀ i < 20, (fingerprint pol (w.drop (w.length - WINDOW))).coeff i = 0

/-- A chunk that is followed by `rest`: it has no cut from `MIN` on before its end, and it ends at a
cut, at `MAX` or at the end of the input. -/
structure ChunkEnd (pol : UInt64) (chunk rest : List UInt8) : Prop where
  max : chunk.length ≤ MAX
  first : ∀ m, MIN ≤ m → m < chunk.length → ¬Cut pol (chunk.take m)
  ends : rest = [] ∨ MIN ≤ chunk.length ∧ (Cut pol chunk ∨ chunk.length = MAX)

def Open (pol : UInt64) (so : List UInt8) : Prop :=
  ∀ m, MIN ≤ m → m ≤ so.length → ¬Cut pol (so.take m) ∧ m < MAX

/-- The window while a chunk is taken: from `MIN - WINDOW` on it holds the last bytes, after the
seed. -/
structure Tracks (c : ResticChunker) (k : ℕ) (so : List UInt8) : Prop where
  rolling : Rolling c k
  long : MIN - WINDOW ≤ so.length
  ring : c.ring = (seed ++ so.drop (MIN - WINDOW)).drop (so.length - (MIN - WINDOW))

lemma mask_eq_zero_iff (digest : UInt64) :
    digest &&& SPLIT_MASK = 0 ↔ ∀ i < 20, (poly digest.toNat).coeff i = 0 := by
  have hmask (i : ℕ) : SPLIT_MASK.toNat.testBit i = decide (i < 20) := by
    have : SPLIT_MASK.toNat = 2 ^ 20 - 1 := by decide
    rw [this, Nat.testBit_two_pow_sub_one]
  have hcoeff (i : ℕ) : (poly digest.toNat).coeff i = 0 ↔ digest.toNat.testBit i = false := by
    rw [coeff_poly]
    cases digest.toNat.testBit i <;> simp
  simp only [hcoeff]
  rw [← UInt64.toNat_inj, UInt64.toNat_and]
  constructor
  · intro h0 i hi
    have := congrArg (·.testBit i) h0
    simpa [Nat.testBit_and, hmask, hi] using this
  · intro hall
    refine Nat.eq_of_testBit_eq fun i => ?_
    rw [Nat.testBit_and, hmask]
    by_cases hi : i < 20
    · simp [hall i hi]
    · simp [hi]

section Scan

variable {c : ResticChunker} {k : ℕ} {so : List UInt8}

lemma seed_length : seed.length = WINDOW := by decide

/-- From `MIN` on the window is the last 64 bytes of the chunk. -/
lemma Tracks.ring_eq (h : Tracks c k so) (hmin : MIN ≤ so.length) :
    c.ring = so.drop (so.length - WINDOW) := by
  have hM : WINDOW ≤ MIN := by decide
  have hidx : MIN - WINDOW + (so.length - (MIN - WINDOW) - WINDOW) = so.length - WINDOW := by omega
  rw [h.ring, List.drop_append, List.drop_eq_nil_of_le (by rw [seed_length]; omega),
    List.nil_append, List.drop_drop, seed_length, hidx]

lemma Tracks.slide (h : Tracks c k so) (h8 : 8 ≤ k) (hk : k ≤ 56) (b : UInt8) (p : ℕ) :
    Tracks { c.slide b with bpos := p } k (so ++ [b]) := by
  obtain ⟨w, hring, hlen, hnew⟩ := ring_slide h.rolling.size h.rolling.pos b
  have hroll := h.rolling.slide h8 hk b
  have hlong := h.long
  refine ⟨⟨hroll.degree, hroll.size, hroll.pos, hroll.small, hroll.digest⟩,
    by rw [List.length_append]; omega, ?_⟩
  have hw : w = (seed ++ so.drop (MIN - WINDOW)).drop (so.length - (MIN - WINDOW) + 1) := by
    rw [← List.drop_drop, ← h.ring, hring]
    rfl
  refine hnew.trans ?_
  have hle : so.length - (MIN - WINDOW) + 1 ≤ (seed ++ so.drop (MIN - WINDOW)).length := by
    rw [List.length_append, seed_length, List.length_drop]
    unfold WINDOW
    omega
  rw [hw, List.length_append, List.length_singleton, List.drop_append_of_le_length hlong,
    ← List.append_assoc, Nat.sub_add_comm hlong, List.drop_append_of_le_length hle]

lemma Tracks.cut_iff (h : Tracks c k so) (hmin : MIN ≤ so.length) :
    c.digest &&& SPLIT_MASK = 0 ↔ Cut c.pol so := by
  rw [mask_eq_zero_iff, Cut, ← h.ring_eq hmin, ← h.rolling.fingerprint_eq]

/-- **The bytes of the buffer, one by one**: to the first cut, or to the last byte without one. -/
lemma scan_spec (bs : List UInt8) (h : Tracks c k so) (h8 : 8 ≤ k) (hk : k ≤ 56)
    (hopen : Open c.pol so) :
    (∃ n c' count', n ≤ bs.length ∧ c.scan so.length bs = (true, c', count') ∧ c'.bpos = c.bpos + n ∧
      (∀ rest, ChunkEnd c.pol (so ++ bs.take n) rest)) ∨
    ∃ c', c.scan so.length bs = (false, c', (so ++ bs).length) ∧ Tracks c' k (so ++ bs) ∧
    Open c.pol (so ++ bs) := by
  induction bs generalizing c so with
  | nil => exact .inr ⟨c, by simp [ResticChunker.scan], by simpa using h, by simpa using hopen⟩
  | cons b bs ih =>
    have hslide := h.slide h8 hk b (c.bpos + 1)
    have hlen : (so ++ [b]).length = so.length + 1 := by simp
    have hpref (n : ℕ) : so ++ (b :: bs).take (n + 1) = so ++ [b] ++ bs.take n := by simp
    rw [ResticChunker.scan]
    simp only
    -- the chunk does not end with this byte: the rest of the buffer decides
    have hgo (hopen' : Open c.pol (so ++ [b])) :
        (∃ n c' count', n ≤ (b :: bs).length ∧
          { c.slide b with bpos := c.bpos + 1 }.scan (so.length + 1) bs = (true, c', count') ∧
          c'.bpos = c.bpos + n ∧ (∀ rest, ChunkEnd c.pol (so ++ (b :: bs).take n) rest)) ∨
        ∃ c', { c.slide b with bpos := c.bpos + 1 }.scan (so.length + 1) bs =
          (false, c', (so ++ b :: bs).length) ∧
          Tracks c' k (so ++ b :: bs) ∧ Open c.pol (so ++ b :: bs) := by
      rcases ih hslide hopen' with ⟨n, c', count', hn, hscan, hpos, hend⟩ | ⟨c', hscan, htracks, hopen''⟩
      · rw [hlen] at hscan
        refine .inl ⟨n + 1, c', count', Nat.succ_le_succ hn, hscan, ?_, ?_⟩
        · rw [hpos, Nat.add_assoc, Nat.add_comm 1 n]
        · rw [hpref]
          exact hend
      · rw [hlen, List.append_assoc, List.singleton_append] at hscan
        rw [List.append_assoc, List.singleton_append] at htracks hopen''
        exact .inr ⟨c', hscan, htracks, hopen''⟩
    have hbefore (m : ℕ) (h1 : MIN ≤ m) (h2 : m ≤ so.length) : ¬Cut c.pol ((so ++ [b]).take m) ∧
        m < MAX := by
      rw [List.take_append_of_le_length h2]
      exact hopen m h1 h2
    by_cases hmin : so.length + 1 < MIN
    · rw [if_pos hmin]
      exact hgo fun m h1 h2 => by rw [hlen] at h2; omega
    · have hcut := hslide.cut_iff (by rw [hlen]; omega)
      have hall : (so ++ [b]).take (so.length + 1) = so ++ [b] := List.take_of_length_le hlen.le
      rw [if_neg hmin]
      split
      · rename_i hend
        have hmax : so.length + 1 ≤ MAX := by
          have hle : MIN ≤ MAX := by decide
          rcases Nat.lt_or_ge so.length MIN with h | h
          · omega
          · exact (hopen so.length h le_rfl).2
        refine .inl ⟨1, _, _, by simp, rfl, rfl, fun rest => ?_⟩
        rw [List.take_succ_cons, List.take_zero]
        refine ⟨hlen ▸ hmax, fun m h1 h2 => ?_, .inr ⟨by rw [hlen]; omega, ?_⟩⟩
        · rw [hlen] at h2
          exact (hbefore m h1 (by omega)).1
        · rw [hlen]
          exact hend.imp hcut.1 fun h => by omega
      · rename_i hend
        rw [not_or, not_le] at hend
        refine hgo fun m h1 h2 => ?_
        rcases Nat.lt_or_ge so.length m with hm | hm
        · rw [hlen] at h2
          obtain rfl : m = so.length + 1 := by omega
          rw [hall]
          exact ⟨fun hc => hend.1 (hcut.2 hc), hend.2⟩
        · exact hbefore m h1 hm

/-- The stream is exhausted once it has said so. -/
def AtEnd (c : ResticChunker) : Prop := c.eof = true → c.input.rest = []

lemma fill_spec {c' : ResticChunker} {more : Bool} (hc : AtEnd c) (h : c.fill = (more, c')) :
    AtEnd c' ∧ (more = false → c.left = []) ∧ c'.pol = c.pol ∧ c'.window = c.window ∧ c'.wpos = c.wpos ∧
      c'.digest = c.digest := by
  unfold ResticChunker.fill at h
  split at h
  · cases h
    exact ⟨hc, nofun, rfl, rfl, rfl, rfl⟩
  · rename_i hpos
    have hbuf : c.buf.drop c.bpos = [] := List.drop_eq_nil_of_le (by omega)
    split at h
    · rename_i heof
      cases h
      refine ⟨hc, fun _ => ?_, rfl, rfl, rfl, rfl⟩
      rw [ResticChunker.left, hbuf, hc heof]
      rfl
    · split at h
      rename_i buf eof input hloop
      cases h
      obtain ⟨-, h2, h3⟩ := ResticChunker.fillLoop_spec hloop
      refine ⟨h3, fun hmore => ?_, rfl, rfl, rfl, rfl⟩
      rw [ResticChunker.left, hbuf]
      by_contra hne
      exact absurd (h2 hne) (of_decide_eq_false hmore)

structure SameWindow (c c' : ResticChunker) : Prop where
  pol : c'.pol = c.pol
  window : c'.window = c.window
  wpos : c'.wpos = c.wpos
  digest : c'.digest = c.digest

lemma takePre_spec (pre : ℕ) (out : List UInt8) (hc : AtEnd c) :
    (c.left.length < pre ∧ ∃ c', c.takePre pre out = (false, c', out ++ c.left) ∧ c'.left = [] ∧
      AtEnd c' ∧ c'.pol = c.pol) ∨
    (pre ≤ c.left.length ∧ ∃ c', c.takePre pre out = (true, c', out ++ c.left.take pre) ∧
      c'.left = c.left.drop pre ∧ AtEnd c' ∧ SameWindow c c') := by
  fun_induction ResticChunker.takePre pre c out with
  | case1 pre c out hpre c' hfill =>
    obtain ⟨hend, hnil, hpol, -⟩ := fill_spec hc hfill
    refine .inl ⟨by
      rw [hnil rfl]; exact hpre, c', ?_, (ResticChunker.fill_left hfill).trans (hnil rfl), hend,
      hpol⟩
    rw [hnil rfl, List.append_nil]
  | case2 pre c out hpre c' hfill n ih =>
    obtain ⟨hend, -, hpol, hwin, hwpos, hdig⟩ := fill_spec hc hfill
    have hlt := ResticChunker.lt_of_fill hfill
    have hleft := ResticChunker.fill_left hfill
    -- the part of the buffer that is taken
    have hn : n ≤ (c'.buf.drop c'.bpos).length := by rw [List.length_drop]; omega
    have htake : (c'.buf.drop c'.bpos).take n = c.left.take n := by
      rw [← hleft, ResticChunker.left, List.take_append_of_le_length hn]
    have hdrop : { c' with bpos := c'.bpos + n }.left = c.left.drop n := by
      rw [← hleft, ResticChunker.left, ResticChunker.left, List.drop_append_of_le_length hn,
        List.drop_drop]
    have hsum : c.left.take pre = c.left.take n ++ (c.left.drop n).take (pre - n) := by
      rw [← List.take_add]
      congr 1
      omega
    have hlen : (c.left.drop n).length = c.left.length - n := List.length_drop
    have hnle : n ≤ c.left.length := by
      rw [← hleft, ResticChunker.left, List.length_append]
      omega
    rw [hdrop, htake] at ih
    rcases ih hend with ⟨hshort, c'', hrun, hnil, hend', hpol'⟩ | ⟨hlong, c'', hrun, hrest, hend', hsame⟩
    · refine .inl ⟨by omega, c'', ?_, hnil, hend', hpol'.trans hpol⟩
      rw [htake, hrun, List.append_assoc, List.take_append_drop]
    · refine .inr
        ⟨by omega, c'', ?_, ?_, hend', hsame.pol.trans hpol, hsame.window.trans hwin, hsame.wpos.trans hwpos,
        hsame.digest.trans hdig⟩
      · rw [htake, hrun, List.append_assoc, hsum]
      · rw [hrest, List.drop_drop]
        congr 1
        omega
  | case3 pre c out hpre =>
    obtain rfl : pre = 0 := by omega
    exact .inr ⟨Nat.zero_le _, c, by rw [List.take_zero, List.append_nil], by
      rw [List.drop_zero], hc, rfl, rfl, rfl, rfl⟩

lemma Tracks.same {c' : ResticChunker} (h : Tracks c k so) (hs : SameWindow c c') : Tracks c' k so := by
  have hring : c'.ring = c.ring := by rw [ResticChunker.ring, hs.window, hs.wpos, ResticChunker.ring]
  refine ⟨⟨?_, ?_, ?_, ?_, ?_⟩, h.long, hring.trans h.ring⟩
  · rw [hs.pol]
    exact h.rolling.degree
  · rw [hs.window]
    exact h.rolling.size
  · rw [hs.wpos]
    exact h.rolling.pos
  · rw [hs.digest]
    exact h.rolling.small
  · rw [hs.digest, hring, hs.pol]
    exact h.rolling.digest

lemma Open.chunkEnd {pol : UInt64} (h : Open pol so) : ChunkEnd pol so [] := by
  have hle : MIN ≤ MAX := by decide
  refine ⟨?_, fun m h1 h2 => (h m h1 h2.le).1, .inl rfl⟩
  rcases Nat.lt_or_ge so.length MIN with hlt | hge
  · omega
  · exact (h so.length hge le_rfl).2.le

/-- The chunk that `next` has begun: where it ends in the bytes to come. -/
lemma hashLoop_spec (h8 : 8 ≤ k) (hk : k ≤ 56) (h : Tracks c k so) (hopen : Open c.pol so)
    (hc : AtEnd c) :
    ∃ n c', c.hashLoop so.length so = (some (so ++ c.left.take n), c') ∧ c'.left = c.left.drop n ∧
      AtEnd c' ∧ c'.pol = c.pol ∧ ChunkEnd c.pol (so ++ c.left.take n) (c.left.drop n) := by
  obtain ⟨count, hcount⟩ : ∃ m, m = so.length := ⟨_, rfl⟩
  rw [← hcount]
  fun_induction ResticChunker.hashLoop c count so with
  | case1 c count so c' hfill =>
    obtain ⟨hend, hnil, hpol, -⟩ := fill_spec hc hfill
    have hpos : count ≠ 0 := by
      have := h.long
      have : 0 < MIN - WINDOW := by decide
      omega
    refine ⟨0, c', ?_, ?_, hend, hpol, ?_⟩
    · rw [if_neg hpos, List.take_zero, List.append_nil]
    · rw [List.drop_zero]
      exact ResticChunker.fill_left hfill
    · rw [List.take_zero, List.append_nil, List.drop_zero, hnil rfl]
      exact hopen.chunkEnd
  | case2 c count so c₁ hfill c₂ count₂ hscan =>
    obtain ⟨hend, -, hpol, hwin, hwpos, hdig⟩ := fill_spec hc hfill
    have hleft := ResticChunker.fill_left hfill
    obtain ⟨hbuf, hinput, heof, hpol₂, -⟩ := ResticChunker.scan_buf hscan
    have hspec := scan_spec (c₁.buf.drop c₁.bpos) (h.same ⟨hpol, hwin, hwpos, hdig⟩) h8 hk (hpol ▸ hopen)
    rw [← hcount, hscan] at hspec
    rcases hspec with ⟨n, c', count', hn, heq, hpos, hchunk⟩ | ⟨c', heq, -⟩
    · obtain ⟨-, rfl, -⟩ := Prod.mk.inj heq |>.imp_right Prod.mk.inj
      have htake : (c₁.buf.drop c₁.bpos).take n = c.left.take n := by
        rw [← hleft, ResticChunker.left, List.take_append_of_le_length hn]
      rw [htake, hpol] at hchunk
      refine ⟨n, c₂, ?_, ?_, ?_, hpol₂.trans hpol, hchunk _⟩
      · rw [hbuf, hpos, Nat.add_sub_cancel_left, htake]
      · rw [ResticChunker.left, hbuf, hinput, hpos, ← List.drop_drop, ← List.drop_append_of_le_length hn,
          ← ResticChunker.left, hleft]
      · unfold AtEnd
        rw [heof, hinput]
        exact hend
    · cases heq
  | case3 c count so c₁ hfill c₂ count₂ hscan ih =>
    obtain ⟨hend, -, hpol, hwin, hwpos, hdig⟩ := fill_spec hc hfill
    have hleft := ResticChunker.fill_left hfill
    obtain ⟨hbuf, hinput, heof, hpol₂, hpos⟩ := ResticChunker.scan_buf hscan
    have hspec := scan_spec (c₁.buf.drop c₁.bpos) (h.same ⟨hpol, hwin, hwpos, hdig⟩) h8 hk (hpol ▸ hopen)
    rw [← hcount, hscan] at hspec
    rcases hspec with ⟨n, c', count', hn, heq, -⟩ | ⟨c', heq, htracks, hopen'⟩
    · cases heq
    · obtain ⟨-, rfl, rfl⟩ := Prod.mk.inj heq |>.imp_right Prod.mk.inj
      have hall : (c₂.buf.drop c₁.bpos).take (c₂.bpos - c₁.bpos) = c₁.buf.drop c₁.bpos := by
        rw [hbuf, hpos rfl, Nat.add_sub_cancel_left, List.take_length]
      have hrest : c.left = c₁.buf.drop c₁.bpos ++ c₂.left := by
        rw [← hleft, ResticChunker.left, ResticChunker.left, hbuf, hinput, hpos rfl,
          ← List.drop_drop, List.drop_length, List.nil_append]
      have hend₂ : AtEnd c₂ := by
        unfold AtEnd
        rw [heof, hinput]
        exact hend
      rw [hall] at ih ⊢
      obtain ⟨n, c', hrun, hdrop, hend', hpol', hchunk⟩ := ih htracks (hpol₂ ▸ hopen') hend₂ rfl
      have htake : c.left.take ((c₁.buf.drop c₁.bpos).length + n) = c₁.buf.drop c₁.bpos ++
          c₂.left.take n := by
        rw [hrest, List.take_length_add_append]
      have hdrop' : c.left.drop ((c₁.buf.drop c₁.bpos).length + n) = c₂.left.drop n := by
        rw [hrest, List.drop_length_add_append]
      refine ⟨(c₁.buf.drop c₁.bpos).length + n, c', ?_, hdrop.trans hdrop'.symm, hend',
        hpol'.trans (hpol₂.trans hpol), ?_⟩
      · rw [hrun, htake, List.append_assoc]
      · rw [htake, hdrop', ← List.append_assoc, ← hpol, ← hpol₂]
        exact hchunk

end Scan

/-! ### the chunks of an input -/

section Chunks

variable {c : ResticChunker} {k : ℕ}

/-- **`next`**: the next chunk of the bytes to come, or nothing at their end. -/
lemma next_spec (hd : HasDegree c.pol k) (h8 : 8 ≤ k) (hk : k ≤ 56) (hc : AtEnd c) :
    (c.left = [] ∧ ∃ c', c.next = (none, c')) ∨
    ∃ chunk c', c.next = (some chunk, c') ∧ chunk ≠ [] ∧ c.left = chunk ++ c'.left ∧ AtEnd c' ∧
      c'.pol = c.pol ∧ ChunkEnd c.pol chunk c'.left := by
  have hM : MIN - WINDOW < MIN ∧ MIN - WINDOW ≤ MAX ∧ 0 < MIN - WINDOW := by decide
  have hleft : c.reset.left = c.left := rfl
  have hend : AtEnd c.reset := hc
  unfold ResticChunker.next
  rcases takePre_spec (MIN - WINDOW) [] hend with ⟨hshort, c', hrun, hnil, hend', hpol⟩ | ⟨hlong,
    c', hrun, hdrop, hend', hsame⟩
  · rw [hrun, List.nil_append, hleft]
    rw [hleft] at hshort
    by_cases h0 : c.left = []
    · exact .inl ⟨h0, c', by rw [h0]; rfl⟩
    · have hlen : ¬c.left.length = 0 := fun h => h0 (List.length_eq_zero_iff.1 h)
      refine .inr ⟨c.left, c', ?_, h0, by rw [hnil, List.append_nil], hend', hpol, ?_⟩
      · simp only
        rw [if_neg hlen]
      · exact ⟨by omega, fun m h1 h2 => by omega, .inl hnil⟩
  · rw [hrun, List.nil_append, hleft]
    rw [hleft] at hlong hdrop
    have hso : (c.left.take (MIN - WINDOW)).length = MIN - WINDOW := List.length_take_of_le hlong
    have htracks : Tracks c' k (c.left.take (MIN - WINDOW)) := by
      obtain ⟨hroll, hring⟩ := Rolling.reset (c := c) hd h8 hk
      refine Tracks.same ⟨hroll, hso.ge, ?_⟩ hsame
      rw [hring, hso, Nat.sub_self, List.drop_zero, List.drop_eq_nil_of_le hso.le, List.append_nil]
    have hopen : Open c'.pol (c.left.take (MIN - WINDOW)) := fun m h1 h2 => by omega
    obtain ⟨n, c'', hloop, hdrop', hend'', hpol, hchunk⟩ := hashLoop_spec h8 hk htracks hopen hend'
    have hpol' : c'.pol = c.pol := hsame.pol
    rw [← hdrop'] at hchunk
    refine .inr ⟨_, c'', hloop, ?_, ?_, hend'', hpol.trans hpol', hpol' ▸ hchunk⟩
    · intro hnil
      have := congrArg List.length (List.append_eq_nil_iff.1 hnil).1
      rw [hso] at this
      simp at this
      omega
    · rw [hdrop', List.append_assoc, List.take_append_drop, hdrop, List.take_append_drop]

/-- The chunks that calls of `next` return, up to the first `null`. -/
inductive Yields : ResticChunker → List (List UInt8) → Prop where
  | done {c c' : ResticChunker} : c.next = (none, c') → Yields c []
  | chunk {c c' : ResticChunker} {l : List UInt8} {ls : List (List UInt8)} :
    c.next = (some l, c') → Yields c' ls → Yields c (l :: ls)

lemma yields_left (hd : HasDegree c.pol k) (h8 : 8 ≤ k) (hk : k ≤ 56) (hc : AtEnd c) :
    ∃ chunks, Yields c chunks ∧ chunks.flatten = c.left ∧ (∀ chunk ∈ chunks, chunk ≠ []) ∧
      ∀ l chunk r, chunks = l ++ chunk :: r → ChunkEnd c.pol chunk r.flatten := by
  induction hn : c.left.length using Nat.strong_induction_on generalizing c with
  | _ n ih =>
    rcases next_spec hd h8 hk hc with ⟨hnil, c', hnext⟩ | ⟨chunk, c', hnext, hne, hleft, hend, hpol,
      hchunk⟩
    · exact ⟨[], .done hnext, hnil.symm, nofun, fun l chunk r h => by simp at h⟩
    · have hlt : c'.left.length < n := by
        have := List.length_pos_of_ne_nil hne
        rw [← hn, hleft, List.length_append]
        omega
      obtain ⟨chunks, hyields, hflat, hfull, hall⟩ := ih _ hlt (c := c') (hpol ▸ hd) hend rfl
      refine ⟨chunk :: chunks, .chunk hnext hyields, by rw [List.flatten_cons, hflat, hleft],
        List.forall_mem_cons.2 ⟨hne, hfull⟩, ?_⟩
      rintro (_ | ⟨first, l⟩) chunk' r heq
      · obtain ⟨rfl, rfl⟩ := List.cons.inj heq
        rw [hflat]
        exact hchunk
      · obtain ⟨-, rfl⟩ := List.cons.inj heq
        exact hpol ▸ hall l chunk' r rfl

lemma mem_dropLast {α : Type} {a : α} {as : List α} (h : a ∈ as.dropLast) :
    ∃ l r, as = l ++ a :: r ∧ r ≠ [] := by
  have hne : as ≠ [] := by
    rintro rfl
    cases h
  obtain ⟨l, r, hlr⟩ := List.append_of_mem h
  refine ⟨l, r ++ [as.getLast hne], ?_, by simp⟩
  rw [← List.cons_append, ← List.append_assoc, ← hlr, List.dropLast_append_getLast]

/-- **The chunks of an input**: for a polynomial of degree 53 they are the input, cut at the first
positions from `MIN` on where the fingerprint of the last 64 bytes has 20 low zero bits, or at
`MAX`, however the stream splits its reads. -/
theorem chunks_of_input {pol : UInt64} (hpol : deg pol = 53) (data : List UInt8) (ready : ℕ → ℕ) :
    ∃ c chunks, ResticChunker.new pol { rest := data, ready } = .ok c ∧ Yields c chunks ∧
      chunks.flatten = data ∧ (∀ chunk ∈ chunks.dropLast, MIN ≤ chunk.length ∧ chunk.length ≤ MAX) ∧
      ∀ l chunk r, chunks = l ++ chunk :: r → ChunkEnd pol chunk r.flatten := by
  obtain ⟨c, hnew, rfl, rfl, hend⟩ : ∃ c, ResticChunker.new pol { rest := data, ready } = .ok c ∧
      c.pol = pol ∧ c.left = data ∧ AtEnd c := by
    unfold ResticChunker.new
    rw [require, failIf_bind_run (by rw [hpol]; decide)]
    exact ⟨_, rfl, rfl, rfl, fun h => absurd h Bool.false_ne_true⟩
  obtain ⟨chunks, hyields, hflat, hfull, hends⟩ :=
    yields_left (hasDegree_of_deg hpol) (by decide) (by decide) hend
  refine ⟨_, chunks, hnew, hyields, hflat, fun chunk hmem => ?_, hends⟩
  -- a chunk before the last is followed by a byte, so it has not ended with the input
  obtain ⟨l, r, hchunks, hr⟩ := mem_dropLast hmem
  have hrest : r.flatten ≠ [] := by
    obtain ⟨next, r', rfl⟩ := List.exists_cons_of_ne_nil hr
    rw [List.flatten_cons]
    exact List.append_ne_nil_of_left_ne_nil (hfull next (by rw [hchunks]; simp)) _
  obtain ⟨hmax, -, hend | hend⟩ := hends l chunk r hchunks
  · exact absurd hend hrest
  · exact ⟨hend.1, hmax⟩

/-- Twenty million bytes under restic's own polynomial. -/
theorem chunks_of_input_restic :
    let data := (List.range 20000000).map fun i => UInt8.ofNat (i * i / 997)
    ∃ c chunks, ResticChunker.new 0x3DA3358B4DC173 { rest := data, ready := (· % 70000) } = .ok c ∧
      Yields c chunks ∧ chunks.flatten = data ∧
      (∀ chunk ∈ chunks.dropLast, MIN ≤ chunk.length ∧ chunk.length ≤ MAX) ∧
      ∀ l chunk r, chunks = l ++ chunk :: r → ChunkEnd 0x3DA3358B4DC173 chunk r.flatten :=
  chunks_of_input (by decide +kernel) _ _

end Chunks

end OtgMaster.Restic
