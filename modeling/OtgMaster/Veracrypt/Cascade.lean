import OtgMaster.Bitlocker.Crypto
import OtgMaster.Lib.BinaryPoly
import OtgMaster.Lib.Bytes

/-!
`xts_generic.c` and `vc_cascade.cpp`: XTS for any block cipher, and a cascade of up to three of
them.

The tweak moves on with a loop that carries a bit from byte to byte (`gf128MulByAlpha`). On the
number that the bytes are, this is one doubling with a reduction, so on polynomials it is
multiplication by `X` (`gf128MulByAlpha_iterate`), and block `j` is masked with the tweak times `X ^
j`. A stage that decrypts undoes one that encrypts, in place, and the cascade runs its stages in the
opposite order.
-/

namespace OtgMaster.Veracrypt.Cascade

open Lib Bytes Polynomial
open Bitlocker (AesBlock xorBlock Aes XtsContext xtsSetkeyEnc xtsSetkeyDec leBlock)

/-! ### `xts_generic.c` -/

local instance block_neZero : NeZero (16 : ℕ) := inferInstance

/-- One turn of the loop: the byte is shifted, and its top bit is carried to the next one. -/
def shiftByte (s : AesBlock × UInt8) (i : Fin 16) : AesBlock × UInt8 :=
  (Function.update s.1 i (s.1 i <<< 1 ||| s.2), s.1 i >>> 7 &&& 1)

def gf128MulByAlpha (t : AesBlock) : AesBlock :=
  let (t, carryIn) := (List.finRange 16).foldl shiftByte (t, 0)
  if carryIn ≠ 0 then Function.update t 0 (t 0 ^^^ 0x87) else t

def blockAt (mem : Bytes) (p : ℕ) : AesBlock := fun i => mem (p + i)

def putBlock (mem : Bytes) (p : ℕ) (b : AesBlock) : Bytes := fun a =>
  if h : p ≤ a ∧ a < p + 16 then b ⟨a - p, by omega⟩ else mem a

def xtsTurn (dataBlockFn : AesBlock → AesBlock) (input output : ℕ) (s : AesBlock × Bytes) (offset : ℕ) :
    AesBlock × Bytes :=
  let (tweak, mem) := s
  let block := xorBlock (blockAt mem (input + offset)) tweak
  let block := dataBlockFn block
  (gf128MulByAlpha tweak, putBlock mem (output + offset) (xorBlock block tweak))

/-- `xts_generic_crypt`; the block functions are the ones of the C code with their contexts. -/
def xtsGenericCrypt (dataBlockFn tweakEncryptFn : AesBlock → AesBlock) (dataUnit : AesBlock)
    (input output length : ℕ) (mem : Bytes) : Bytes :=
  let tweak := tweakEncryptFn dataUnit
  (((List.range ((length + 15) / 16)).map (16 * ·)).foldl (xtsTurn dataBlockFn input output) (tweak,
    mem)).2

/-! ### `vc_cascade.cpp` -/

/-- The block ciphers. Each is a permutation for each key, and what decrypts is its inverse. -/
structure Ciphers where
  aes : Aes
  serpentSetKey256 : List UInt8 → Equiv.Perm AesBlock
  /-- `none` for an error code. -/
  twofishSetup : List UInt8 → Option (Equiv.Perm AesBlock)

inductive Stage where
  | aes (enc dec : XtsContext)
  | serpent (data tweak : Equiv.Perm AesBlock)
  | twofish (data tweak : Equiv.Perm AesBlock)

def VC_CIPHER_AES : ℤ := 0

def VC_CIPHER_SERPENT : ℤ := 1

def VC_CIPHER_TWOFISH : ℤ := 2

def VC_MAX_CASCADE : ℕ := 3

section Cascade

variable (lib : Ciphers)

def unitTweak (unitNo : UInt64) : AesBlock := leBlock unitNo

/-- `stageInit`; `none` for `false`. -/
def stageInit (id : ℤ) (primary secondary : List UInt8) : Option Stage :=
  if id = VC_CIPHER_AES then do
    let key := primary ++ secondary
    return .aes (← xtsSetkeyEnc key) (← xtsSetkeyDec key)
  else if id = VC_CIPHER_SERPENT then
    some (.serpent (lib.serpentSetKey256 primary) (lib.serpentSetKey256 secondary))
  else if id = VC_CIPHER_TWOFISH then do
    return .twofish (← lib.twofishSetup primary) (← lib.twofishSetup secondary)
  else none

def stageCrypt (s : Stage) (encrypt : Bool) (tweak : AesBlock) (buf length : ℕ) (mem : Bytes) : Bytes :=
  match s with
  | .aes enc dec =>
    mem.patch buf length
      (ofList (lib.aes.cryptXts (if encrypt then enc else dec) encrypt tweak (mem.slice buf length)).2)
  | .serpent data tweakKey =>
    xtsGenericCrypt (if encrypt then data else data.symm) tweakKey tweak buf buf length mem
  | .twofish data tweakKey =>
    xtsGenericCrypt (if encrypt then data else data.symm) tweakKey tweak buf buf length mem

/-- `vc_cascade_new`; `none` for `nullptr`. -/
def vcCascadeNew (ids : List ℤ) (key : List UInt8) : Option (List Stage) :=
  let n := ids.length
  if n < 1 ∨ VC_MAX_CASCADE < n ∨ key.length < 64 * n then none
  else (List.range n).mapM fun i =>
    stageInit lib (ids.getD i 0) ((key.drop (32 * i)).take 32) ((key.drop (32 * (n + i))).take 32)

def vcCascadeEncryptUnit (c : List Stage) (unitNo : UInt64) (buf length : ℕ) (mem : Bytes) : Bytes :=
  c.foldl (fun mem s => stageCrypt lib s true (unitTweak unitNo) buf length mem) mem

/-- `vc_cascade_decrypt_unit`: the last stage first. -/
def vcCascadeDecryptUnit (c : List Stage) (unitNo : UInt64) (buf length : ℕ) (mem : Bytes) : Bytes :=
  c.reverse.foldl (fun mem s => stageCrypt lib s false (unitTweak unitNo) buf length mem) mem

end Cascade

/-! ### the tweak -/

/-- The number whose bytes, lowest first, are the first `k` of a block. -/
def lowNat (t : AesBlock) (k : ℕ) : ℕ := ∑ i ∈ Finset.range k, (t (Fin.ofNat 16 i)).toNat * 256 ^ i

/-- The number of a block: bit `j` is the coefficient of `X ^ j`. -/
def blockNat (t : AesBlock) : ℕ := lowNat t 16

section Tweak

variable {t : AesBlock} {k : ℕ}

lemma lowNat_succ (t : AesBlock) (k : ℕ) :
    lowNat t (k + 1) = lowNat t k + (t (Fin.ofNat 16 k)).toNat * 256 ^ k :=
  Finset.sum_range_succ ..

lemma lowNat_lt (t : AesBlock) (k : ℕ) : lowNat t k < 256 ^ k := by
  induction k with
  | zero => simp [lowNat]
  | succ k ih =>
    have hb := (t (Fin.ofNat 16 k)).toNat_lt
    rw [lowNat_succ, Nat.pow_succ]
    nlinarith

lemma blockNat_lt (t : AesBlock) : blockNat t < 2 ^ 128 := (lowNat_lt t 16).trans_eq (by norm_num)

lemma lowNat_update (hk : k < 16) (v : UInt8) :
    lowNat (Function.update t (Fin.ofNat 16 k) v) k = lowNat t k := by
  refine Finset.sum_congr rfl fun i hi => ?_
  rw [Finset.mem_range] at hi
  rw [Function.update_of_ne]
  intro h
  have := congrArg Fin.val h
  simp only [Fin.ofNat_eq_cast, Fin.val_natCast] at this
  omega

lemma shift_carry (b c : UInt8) (hc : c.toNat ≤ 1) :
    (b <<< 1 ||| c).toNat + 256 * (b >>> 7 &&& 1).toNat = 2 * b.toNat + c.toNat ∧
    (b >>> 7 &&& 1).toNat ≤ 1 := by
  have hall : ∀ n : Fin 256, ∀ m : Fin 2, (UInt8.ofNat n <<< 1 ||| UInt8.ofNat m).toNat +
      256 * (UInt8.ofNat n >>> 7 &&& 1).toNat = 2 * (UInt8.ofNat n).toNat + (UInt8.ofNat m).toNat ∧
        (UInt8.ofNat n >>> 7 &&& 1).toNat ≤ 1 := by
    decide +kernel
  have h := hall ⟨b.toNat, b.toNat_lt⟩ ⟨c.toNat, by omega⟩
  rwa [UInt8.ofNat_toNat, UInt8.ofNat_toNat] at h

/-- **The carry loop doubles a number**: after `k` turns the first `k` bytes and the carry are twice
what these bytes were, and the others are as before. -/
lemma shiftBytes_spec (t : AesBlock) (hk : k ≤ 16) :
    let s := ((List.range k).map (Fin.ofNat 16)).foldl shiftByte (t, 0)
    lowNat s.1 k + s.2.toNat * 256 ^ k = 2 * lowNat t k ∧ s.2.toNat ≤ 1 ∧
      ∀ i, k ≤ i → i < 16 → s.1 (Fin.ofNat 16 i) = t (Fin.ofNat 16 i) := by
  induction k with
  | zero => exact ⟨rfl, Nat.zero_le _, fun _ _ _ => rfl⟩
  | succ k ih =>
    rw [List.range_succ, List.map_append, List.foldl_append, List.map_singleton, List.foldl_cons,
      List.foldl_nil]
    obtain ⟨hsum, hcarry, hrest⟩ := ih (by omega)
    generalize ((List.range k).map (Fin.ofNat 16)).foldl shiftByte (t, 0) = s at hsum hcarry hrest ⊢
    obtain ⟨r, c⟩ := s
    dsimp only at hsum hcarry hrest
    obtain ⟨hbyte, hout⟩ := shift_carry (r (Fin.ofNat 16 k)) c hcarry
    rw [hrest k le_rfl (by omega)] at hbyte hout
    dsimp only [shiftByte]
    rw [hrest k le_rfl (by omega)]
    refine ⟨?_, hout, ?_⟩
    · rw [lowNat_succ, lowNat_succ, lowNat_update (by omega), Function.update_self, Nat.pow_succ]
      linear_combination hsum + 256 ^ k * hbyte
    · intro i hi hlt
      rw [Function.update_of_ne, hrest i (by omega) hlt]
      intro h
      have := congrArg Fin.val h
      simp only [Fin.ofNat_eq_cast, Fin.val_natCast] at this
      omega

lemma blockNat_update_zero (t : AesBlock) (v : UInt8) :
    blockNat (Function.update t 0 (t 0 ^^^ v)) = blockNat t ^^^ v.toNat := by
  -- what lies above the lowest byte
  have hsplit : ∀ u : AesBlock, blockNat u =
      2 ^ 8 * (∑ i ∈ Finset.range 15, (u (Fin.ofNat 16 (i + 1))).toNat * 256 ^ i) + (u 0).toNat := by
    intro u
    unfold blockNat lowNat
    rw [Finset.sum_range_succ', Finset.mul_sum, pow_zero, mul_one]
    congr 1
    exact Finset.sum_congr rfl fun i _ => by rw [pow_succ]; ring
  have hrest : ∀ i ∈ Finset.range 15,
    (Function.update t 0 (t 0 ^^^ v) (Fin.ofNat 16 (i + 1))).toNat * 256 ^ i =
      (t (Fin.ofNat 16 (i + 1))).toNat * 256 ^ i := by
    intro i hi
    rw [Finset.mem_range] at hi
    rw [Function.update_of_ne]
    intro h
    have := congrArg Fin.val h
    simp only [Fin.ofNat_eq_cast, Fin.val_natCast, Fin.val_zero] at this
    omega
  have hxor :=
    xor_halves (∑ i ∈ Finset.range 15, (t (Fin.ofNat 16 (i + 1))).toNat * 256 ^ i) 0
      (t 0).toNat_lt v.toNat_lt
  rw [hsplit, hsplit t, Finset.sum_congr rfl hrest, Function.update_self, UInt8.toNat_xor]
  rw [Nat.mul_zero, Nat.zero_add, Nat.xor_zero] at hxor
  exact hxor.symm

def reduction : ℕ := 2 ^ 128 + 0x87

lemma blockNat_gf128MulByAlpha (t : AesBlock) :
    blockNat (gf128MulByAlpha t) = timesX reduction 128 (blockNat t) := by
  obtain ⟨hsum, hcarry, -⟩ := shiftBytes_spec t (le_refl 16)
  have hloop : (List.range 16).map (Fin.ofNat 16) = List.finRange 16 := by decide
  rw [hloop] at hsum hcarry
  have hlt := blockNat_lt ((List.finRange 16).foldl shiftByte (t, 0)).1
  unfold gf128MulByAlpha timesX
  generalize (List.finRange 16).foldl shiftByte (t, 0) = s at hsum hcarry hlt ⊢
  obtain ⟨r, c⟩ := s
  change blockNat r + c.toNat * 256 ^ 16 = 2 * blockNat t at hsum
  dsimp only at hcarry hlt ⊢
  rw [show 256 ^ 16 = 2 ^ 128 by norm_num] at hsum
  by_cases h0 : c = 0
  · rw [h0, UInt8.toNat_zero, Nat.zero_mul, Nat.add_zero] at hsum
    rw [if_neg (not_not.2 h0), ← hsum, if_pos hlt]
  · have h1 : c.toNat = 1 := by
      have : c.toNat ≠ 0 := fun h => h0 (UInt8.toNat_inj.1 h)
      omega
    rw [h1, one_mul] at hsum
    have hxor := xor_halves (k := 128) 1 1 hlt (show 0x87 < 2 ^ 128 by norm_num)
    rw [Nat.mul_one, Nat.xor_self, Nat.mul_zero, Nat.zero_add] at hxor
    rw [if_pos h0, blockNat_update_zero, ← hsum, if_neg (by omega), Nat.add_comm (blockNat r)]
    exact hxor.symm

/-- The modulus of the field of `2 ^ 128` elements. -/
noncomputable def gf128 : (ZMod 2)[X] := X ^ 128 + X ^ 7 + X ^ 2 + X + 1

lemma poly_reduction : poly reduction = gf128 := by
  have hbits : reduction = 1 <<< 128 ^^^ 1 <<< 7 ^^^ 1 <<< 2 ^^^ 1 <<< 1 ^^^ 1 := by decide
  have hone : poly 1 = 1 := by
    ext i
    rw [coeff_poly, coeff_one]
    simp only [Nat.testBit_one_eq_true_iff_self_eq_zero]
  unfold gf128
  rw [hbits]
  simp only [poly_xor, poly_shiftLeft, hone, one_mul, pow_one]

lemma poly_iterate_reduction {n : ℕ} (hn : n < 2 ^ 128) (j : ℕ) :
    poly ((timesX reduction 128)^[j] n) = (poly n * X ^ j) %ₘ gf128 := by
  rw [poly_iterate_timesX (by norm_num [reduction]) hn, poly_reduction]

noncomputable def blockPoly (t : AesBlock) : (ZMod 2)[X] := poly (blockNat t)

/-- **The tweak of block `j` is the first one times `X ^ j`** in the field of `2 ^ 128` elements. -/
lemma gf128MulByAlpha_iterate (t : AesBlock) (j : ℕ) :
    blockPoly (gf128MulByAlpha^[j] t) = (blockPoly t * X ^ j) %ₘ gf128 := by
  have hsemi : Function.Semiconj blockNat gf128MulByAlpha (timesX reduction 128) :=
    blockNat_gf128MulByAlpha
  rw [blockPoly, blockPoly, hsemi.iterate_right j t, poly_iterate_reduction (blockNat_lt t)]

end Tweak

/-! ### the mode -/

def masked (f : AesBlock → AesBlock) (t x : AesBlock) : AesBlock := xorBlock (f (xorBlock x t)) t

section Mode

variable {f e : AesBlock → AesBlock} {t : AesBlock} {input output n p q a : ℕ} {mem mem' : Bytes}

lemma blockAt_putBlock_self (mem : Bytes) (p : ℕ) (b : AesBlock) : blockAt (putBlock mem p b) p = b := by
  funext i
  rw [blockAt, putBlock, dif_pos (by omega)]
  exact congrArg b (Fin.ext (Nat.add_sub_cancel_left ..))

lemma putBlock_outside {b : AesBlock} (h : a < p ∨ p + 16 ≤ a) : putBlock mem p b a = mem a :=
  dif_neg (by omega)

lemma blockAt_congr (h : ∀ i < 16, mem (p + i) = mem' (p + i)) : blockAt mem p = blockAt mem' p :=
  funext fun i => h i i.isLt

/-- **The loop, turn by turn**: a block is read before anything is written over it, in place and
wherever else the output does not lie over what is still to be read. -/
lemma xtsTurns_spec (f : AesBlock → AesBlock) (t : AesBlock) (mem : Bytes)
    (h : output ≤ input ∨ input + 16 * n ≤ output) :
    let s := ((List.range n).map (16 * ·)).foldl (xtsTurn f input output) (t, mem)
    s.1 = gf128MulByAlpha^[n] t ∧
      (∀ j < n, blockAt s.2 (output + 16 * j) =
        masked f (gf128MulByAlpha^[j] t) (blockAt mem (input + 16 * j))) ∧
      ∀ a, a < output ∨ output + 16 * n ≤ a → s.2 a = mem a := by
  induction n with
  | zero => exact ⟨rfl, fun j hj => absurd hj (Nat.not_lt_zero j), fun _ _ => rfl⟩
  | succ n ih =>
    rw [List.range_succ, List.map_append, List.foldl_append, List.map_singleton, List.foldl_cons,
      List.foldl_nil]
    obtain ⟨htweak, hdone, hrest⟩ := ih (by omega)
    generalize ((List.range n).map (16 * ·)).foldl (xtsTurn f input output) (t, mem) =
      s at htweak hdone hrest ⊢
    obtain ⟨t', mem'⟩ := s
    dsimp only at htweak hdone hrest
    dsimp only [xtsTurn]
    have hread : blockAt mem' (input + 16 * n) = blockAt mem (input + 16 * n) :=
      blockAt_congr fun i _ => hrest _ (by omega)
    refine ⟨?_, ?_, ?_⟩
    · rw [Function.iterate_succ_apply', htweak]
    · intro j hj
      rcases Nat.lt_succ_iff_lt_or_eq.1 hj with hj | rfl
      · rw [← hdone j hj]
        exact blockAt_congr fun i _ => putBlock_outside (by omega)
      · rw [blockAt_putBlock_self, hread, htweak]
        rfl
    · intro a ha
      rw [putBlock_outside (by omega), hrest a (by omega)]

lemma xtsGenericCrypt_spec (f e : AesBlock → AesBlock) (dataUnit : AesBlock) (mem : Bytes)
    (h : output ≤ input ∨ input + 16 * n ≤ output) :
    (∀ j < n, blockAt (xtsGenericCrypt f e dataUnit input output (16 * n) mem) (output + 16 * j) =
      masked f (gf128MulByAlpha^[j] (e dataUnit)) (blockAt mem (input + 16 * j))) ∧
      ∀ a, a < output ∨ output + 16 * n ≤ a →
      xtsGenericCrypt f e dataUnit input output (16 * n) mem a = mem a := by
  unfold xtsGenericCrypt
  rw [show (16 * n + 15) / 16 = n by omega]
  exact (xtsTurns_spec f (e dataUnit) mem h).2

lemma masked_masked {g : AesBlock → AesBlock} (hg : ∀ x, g (f x) = x) (t x : AesBlock) :
    masked g t (masked f t x) = x := by
  unfold masked
  rw [Bitlocker.xorBlock_xorBlock, hg, Bitlocker.xorBlock_xorBlock]

lemma mem_ext (hin : ∀ j < n, blockAt mem (p + 16 * j) = blockAt mem' (p + 16 * j))
    (hout : ∀ a, a < p ∨ p + 16 * n ≤ a → mem a = mem' a) : mem = mem' := by
  funext a
  by_cases ha : a < p ∨ p + 16 * n ≤ a
  · exact hout a ha
  · have hblock := congrFun (hin ((a - p) / 16) (by omega)) ⟨(a - p) % 16, by omega⟩
    simp only [blockAt] at hblock
    rwa [show p + 16 * ((a - p) / 16) + (a - p) % 16 = a by omega] at hblock

/-- **In place, the inverse of the cipher undoes it.** -/
lemma xtsGenericCrypt_undo {g : AesBlock → AesBlock} (hg : ∀ x, g (f x) = x) (e : AesBlock → AesBlock)
    (dataUnit : AesBlock) (p n : ℕ) (mem : Bytes) :
    xtsGenericCrypt g e dataUnit p p (16 * n) (xtsGenericCrypt f e dataUnit p p (16 * n) mem) = mem := by
  obtain ⟨henc, houtside⟩ := xtsGenericCrypt_spec (n := n) f e dataUnit mem (Or.inl (le_refl p))
  obtain ⟨hdec, houtside'⟩ := xtsGenericCrypt_spec (n := n) g e dataUnit
    (xtsGenericCrypt f e dataUnit p p (16 * n) mem) (Or.inl (le_refl p))
  refine mem_ext (n := n) (p := p) (fun j hj => ?_) fun a ha => ?_
  · rw [hdec j hj, henc j hj, masked_masked hg]
  · rw [houtside' a ha, houtside a ha]

end Mode

/-! ### the cascade -/

section Undo

variable {lib : Ciphers} {s : Stage} {c : List Stage} {ids : List ℤ} {key : List UInt8}

lemma patch_slice {mem mem' : Bytes} {p n : ℕ} (h : ∀ a, a < p ∨ p + n ≤ a → mem a = mem' a) :
    mem.patch p n (ofList (mem'.slice p n)) = mem' := by
  funext a
  by_cases ha : p ≤ a ∧ a < p + n
  · rw [patch_in ha.1 ha.2, ofList, slice_getD (by omega), Nat.add_sub_cancel' ha.1]
  · rw [patch_out (by omega), h a (by omega)]

lemma slice_patch_ofList {mem : Bytes} {p n : ℕ} {l : List UInt8} (hl : l.length = n) :
    (mem.patch p n (ofList l)).slice p n = l := by
  refine List.ext_getElem (by rw [length_slice, hl]) fun i h1 h2 => ?_
  simp only [slice, List.getElem_map, List.getElem_range]
  rw [patch_at (by omega), ofList, List.getD_eq_getElem _ _ h2]

lemma aesStage_undo (key : List UInt8) (tweakKey : Bitlocker.AesContext) (tweak : AesBlock)
    (buf n : ℕ) (mem : Bytes) :
    stageCrypt lib (.aes ⟨.enc key, tweakKey⟩ ⟨.dec key, tweakKey⟩) false tweak buf (16 * n)
      (stageCrypt lib (.aes ⟨.enc key, tweakKey⟩ ⟨.dec key, tweakKey⟩) true tweak buf
        (16 * n) mem) = mem := by
  unfold stageCrypt
  simp only [if_true, Bool.false_eq_true, if_false]
  by_cases hn : 0 < n ∧ 16 * n ≤ 2 ^ 24
  · have hlength : (mem.slice buf (16 * n)).length = 16 * n := length_slice
    obtain ⟨sec, henc, hlen, hdec⟩ :=
      lib.aes.cryptXts_undo key tweakKey tweak (hlength ▸ Nat.dvd_mul_right 16 n)
      (by omega) (by omega)
    rw [henc]
    dsimp only
    rw [slice_patch_ofList (hlen.trans hlength), hdec]
    exact patch_slice fun a ha => patch_out ha
  · have hsame : ∀ ctx encrypt (m : Bytes), m.patch buf (16 * n)
        (ofList (lib.aes.cryptXts ctx encrypt tweak (m.slice buf (16 * n))).2) = m := by
      intro ctx encrypt m
      have hbuf : (lib.aes.cryptXts ctx encrypt tweak (m.slice buf (16 * n))).2 =
          m.slice buf (16 * n) := by
        unfold Aes.cryptXts
        rw [length_slice]
        rcases Nat.eq_zero_or_pos n with rfl | hpos
        · rw [if_pos (by decide)]
        · rw [if_neg (by omega), if_pos (by omega)]
      rw [hbuf]
      exact patch_slice fun _ _ => rfl
    rw [hsame, hsame]

lemma stageCrypt_undo {id : ℤ} {primary secondary : List UInt8}
    (h : stageInit lib id primary secondary = some s) (tweak : AesBlock) (buf n : ℕ) (mem : Bytes) :
    stageCrypt lib s false tweak buf (16 * n) (stageCrypt lib s true tweak buf (16 * n) mem) = mem := by
  unfold stageInit at h
  split at h
  · obtain ⟨enc, henc, h⟩ := Option.bind_eq_some_iff.1 h
    obtain ⟨dec, hdec, h⟩ := Option.bind_eq_some_iff.1 h
    cases h
    obtain ⟨key, tweakKey, rfl, rfl⟩ := Bitlocker.xtsSetkey_some henc hdec
    exact aesStage_undo key tweakKey tweak buf n mem
  split at h
  · cases h
    exact xtsGenericCrypt_undo (Equiv.symm_apply_apply _) _ tweak buf n mem
  split at h
  · obtain ⟨data, -, h⟩ := Option.bind_eq_some_iff.1 h
    obtain ⟨tweakKey, -, h⟩ := Option.bind_eq_some_iff.1 h
    cases h
    exact xtsGenericCrypt_undo (Equiv.symm_apply_apply _) _ tweak buf n mem
  · cases h

lemma foldl_reverse_undo {σ τ : Type} {f g : σ → τ → σ} {l : List τ}
    (h : ∀ x ∈ l, ∀ m, g (f m x) x = m) (m : σ) : l.reverse.foldl g (l.foldl f m) = m := by
  induction l generalizing m with
  | nil => rfl
  | cons x l ih =>
    rw [List.foldl_cons, List.reverse_cons, List.foldl_append,
      ih fun y hy => h y (List.mem_cons_of_mem _ hy)]
    exact h x List.mem_cons_self m

lemma mapM_some_mem {σ τ : Type} {f : σ → Option τ} {l : List σ} {bs : List τ} (h : l.mapM f = some bs) :
    ∀ b ∈ bs, ∃ a ∈ l, f a = some b := by
  induction l generalizing bs with
  | nil =>
    cases h
    exact fun _ hb => nomatch hb
  | cons a l ih =>
    rw [List.mapM_cons] at h
    obtain ⟨b, hb, h⟩ := Option.bind_eq_some_iff.1 h
    obtain ⟨bs', hbs, h⟩ := Option.bind_eq_some_iff.1 h
    cases h
    intro c hc
    rcases List.mem_cons.1 hc with rfl | hc
    · exact ⟨a, List.mem_cons_self .., hb⟩
    · obtain ⟨a', ha', hf⟩ := ih hbs c hc
      exact ⟨a', List.mem_cons_of_mem _ ha', hf⟩

lemma vcCascadeNew_stages (h : vcCascadeNew lib ids key = some c) :
    ∀ s ∈ c, ∃ id primary secondary, stageInit lib id primary secondary = some s := by
  unfold vcCascadeNew at h
  dsimp only at h
  split at h
  · cases h
  · intro s hs
    obtain ⟨i, -, hi⟩ := mapM_some_mem h s hs
    exact ⟨_, _, _, hi⟩

end Undo

/-- **XTS and the cascade.** What a cascade of ciphers decrypts is what it has encrypted, and
nothing else in memory has changed. `xts_generic_crypt` is the XTS mode of whichever block function
it is given, in place and wherever the output does not lie over input that is still to be read:
block `j` is masked with the tweak times `X ^ j`. -/
theorem cascade_undone_and_xts (lib : Ciphers) {ids : List ℤ} {key : List UInt8} {c : List Stage}
    (hnew : vcCascadeNew lib ids key = some c) (unitNo : UInt64) (buf n : ℕ) (mem : Bytes) :
    vcCascadeDecryptUnit lib c unitNo buf (16 * n)
      (vcCascadeEncryptUnit lib c unitNo buf (16 * n) mem) = mem ∧
      ∀ (f e : AesBlock → AesBlock) (dataUnit : AesBlock) (input output : ℕ),
        output ≤ input ∨ input + 16 * n ≤ output → ∃ tweak : ℕ → AesBlock,
          (∀ j, blockPoly (tweak j) = (blockPoly (e dataUnit) * X ^ j) %ₘ gf128) ∧
          (∀ j < n, blockAt (xtsGenericCrypt f e dataUnit input output (16 * n) mem) (output + 16 * j) =
            xorBlock (f (xorBlock (blockAt mem (input + 16 * j)) (tweak j))) (tweak j)) ∧
          ∀ a, a < output ∨ output + 16 * n ≤ a →
          xtsGenericCrypt f e dataUnit input output (16 * n) mem a = mem a := by
  constructor
  · refine foldl_reverse_undo (fun s hs m => ?_) mem
    obtain ⟨id, primary, secondary, hinit⟩ := vcCascadeNew_stages hnew s hs
    exact stageCrypt_undo hinit (unitTweak unitNo) buf n m
  · intro f e dataUnit input output hplace
    obtain ⟨hblocks, houtside⟩ := xtsGenericCrypt_spec f e dataUnit mem hplace
    exact ⟨fun j => gf128MulByAlpha^[j] (e dataUnit), gf128MulByAlpha_iterate (e dataUnit), hblocks,
      houtside⟩

def addingCiphers : Ciphers :=
  let add : Equiv.Perm AesBlock :=
    ⟨fun b i => b i + 3, fun b i => b i - 3, fun b => by simp, fun b => by simp⟩
  ⟨⟨fun _ => add, fun _ _ => id⟩, fun _ => add, fun _ => some add⟩

theorem cascade_undone_three :
    ∃ c, vcCascadeNew addingCiphers [2, 0, 1] (List.replicate 192 5) = some c ∧
    vcCascadeDecryptUnit addingCiphers c 7 64 (16 * 32)
      (vcCascadeEncryptUnit addingCiphers c 7 64 (16 * 32) zeros) =
      zeros := by
  have hnew : (vcCascadeNew addingCiphers [2, 0, 1] (List.replicate 192 5)).isSome = true := by
    decide +kernel
  obtain ⟨c, hc⟩ := Option.isSome_iff_exists.1 hnew
  exact ⟨c, hc, (cascade_undone_and_xts addingCiphers hc 7 64 32 zeros).1⟩

end OtgMaster.Veracrypt.Cascade
