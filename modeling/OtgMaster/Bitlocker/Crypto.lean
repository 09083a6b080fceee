import OtgMaster.Bitlocker.Diffuser
import OtgMaster.Block.Sectors
import OtgMaster.Lib.BlockModes
import Mathlib.Data.Fin.VecNotation
import Mathlib.Data.Nat.Bitwise
import Mathlib.Logic.Equiv.Basic
import Mathlib.Tactic.FinCases

/-!
The sector modes of `bitlocker_crypto.c`: AES-CBC, AES-CBC with the Elephant diffuser, and AES-XTS,
over the AES of mbedtls. AES itself is any family of permutations of a block; the modes, the key
schedules that a context holds and the arithmetic of the sector numbers are the code's. A sector is
decrypted to what was encrypted, so a context is a `SectorCipher`, and a buffer of whole sectors
comes back as it was.
-/

namespace OtgMaster.Bitlocker

open OtgMaster.Lib Block

/-! ### AES and its modes, as mbedtls has them -/

abbrev AesBlock := Fin 16 → UInt8

def xorBlock (a b : AesBlock) : AesBlock := fun i => a i ^^^ b i

/-- `mbedtls_aes_context`: the schedule of a key for one direction, or what `calloc` left. -/
inductive AesContext where
  | blank
  | enc (key : List UInt8)
  | dec (key : List UInt8)
deriving DecidableEq, Repr

/-- The block cipher: a permutation for each key. A schedule that is used in the other direction
than it was made for gives some block. -/
structure Aes where
  cipher : List UInt8 → Equiv.Perm AesBlock
  misused : AesContext → Bool → AesBlock → AesBlock

def Aes.cryptEcb (aes : Aes) : AesContext → (encrypt : Bool) → AesBlock → AesBlock
  | .enc key, true => aes.cipher key
  | .dec key, false => (aes.cipher key).symm
  | ctx, encrypt => aes.misused ctx encrypt

structure XtsContext where
  crypt : AesContext
  tweak : AesContext
deriving DecidableEq, Repr

def keyLengthOk (key : List UInt8) : Bool := key.length == 16 || key.length == 24 || key.length == 32

/-- `mbedtls_aes_setkey_enc`; `none` for an error code. -/
def setkeyEnc (key : List UInt8) : Option AesContext := if keyLengthOk key then some (.enc key) else none

def setkeyDec (key : List UInt8) : Option AesContext := if keyLengthOk key then some (.dec key) else none

def xtsDecodeKeys (key : List UInt8) : Option (List UInt8 × List UInt8) :=
  if key.length = 32 ∨ key.length = 64 then
    some (key.take (key.length / 2), key.drop (key.length / 2))
  else none

def xtsSetkeyEnc (key : List UInt8) : Option XtsContext := do
  let (key1, key2) ← xtsDecodeKeys key
  let tweak ← setkeyEnc key2
  return ⟨← setkeyEnc key1, tweak⟩

/-- `mbedtls_aes_xts_setkey_dec`: the tweak key is set for encryption here too. -/
def xtsSetkeyDec (key : List UInt8) : Option XtsContext := do
  let (key1, key2) ← xtsDecodeKeys key
  let tweak ← setkeyEnc key2
  return ⟨← setkeyDec key1, tweak⟩

def invalidInputLength : ℤ := -0x22

/-- `mbedtls_aes_crypt_cbc` in place: the return value and the buffer. -/
def Aes.cryptCbc (aes : Aes) (ctx : AesContext) (encrypt : Bool) (iv : AesBlock) (buf : List UInt8) :
    ℤ × List UInt8 :=
  if buf.length % 16 ≠ 0 then (invalidInputLength, buf)
  else
    let mode := if encrypt then cbcEncrypt xorBlock (aes.cryptEcb ctx true)
      else cbcDecrypt xorBlock (aes.cryptEcb ctx false)
    (0, unblocks (mode iv (blocks 16 (buf.length / 16) buf)))

def getUint64Le (x : AesBlock) (o : ℕ) : UInt64 :=
  (List.range 8).foldr (fun i v => v <<< 8 ||| (x (Fin.ofNat 16 (o + i))).toUInt64) 0

def putUint64Le (a b : UInt64) : AesBlock := fun i =>
  if i.val < 8 then (a >>> (8 * i.val).toUInt64).toUInt8 else (b >>> (8 * (i.val - 8)).toUInt64).toUInt8

def gf128mulXBle (x : AesBlock) : AesBlock :=
  let a := getUint64Le x 0
  let b := getUint64Le x 8
  putUint64Le (a <<< 1 ^^^ (0x87 : UInt64) >>> ((8 : UInt64) - (b >>> 63) <<< 3)) (a >>> 63 ||| b <<< 1)

/-- `mbedtls_aes_crypt_xts` in place, for a data unit of whole blocks. -/
def Aes.cryptXts (aes : Aes) (ctx : XtsContext) (encrypt : Bool) (dataUnit : AesBlock)
    (buf : List UInt8) : ℤ × List UInt8 :=
  if buf.length < 16 then (invalidInputLength, buf)
  else if (1 <<< 20) * 16 < buf.length then (invalidInputLength, buf)
  else
    let tweak := aes.cryptEcb ctx.tweak true dataUnit
    (0, unblocks
      (xex xorBlock (aes.cryptEcb ctx.crypt encrypt) gf128mulXBle tweak
        (blocks 16 (buf.length / 16) buf)))

/-! ### contexts -/

inductive BitlkMode where
  | cbc
  | cbcElephant
  | xts
deriving DecidableEq, Repr

def BitlkMode.ofInt : ℤ → Option BitlkMode
  | 1 => some .cbc
  | 2 => some .cbcElephant
  | 3 => some .xts
  | _ => none

structure BitlkCtx where
  mode : BitlkMode
  sectorSize : UInt32
  enc : AesContext := .blank
  dec : AesContext := .blank
  elephant : AesContext := .blank
  xtsEnc : XtsContext := ⟨.blank, .blank⟩
  xtsDec : XtsContext := ⟨.blank, .blank⟩
deriving DecidableEq, Repr

/-- `bitlk_ctx_new`; `none` for a null pointer. -/
def bitlkCtxNew (mode : ℤ) (key : List UInt8) (sectorSize : UInt32) : Option BitlkCtx :=
  if sectorSize < 512 ∨ sectorSize > 4096 ∨ sectorSize &&& (sectorSize - 1) ≠ 0 then none
  else do
    let mode ← BitlkMode.ofInt mode
    let c : BitlkCtx := { mode, sectorSize }
    let half := key.length / 2
    match mode with
    | .cbc =>
      if key.length = 16 ∨ key.length = 32 then
        return { c with enc := ← setkeyEnc key, dec := ← setkeyDec key }
      else none
    | .cbcElephant =>
      if key.length = 32 ∨ key.length = 64 then
        return { c with
          enc := ← setkeyEnc (key.take half)
          dec := ← setkeyDec (key.take half)
          elephant := ← setkeyEnc ((key.drop half).take half) }
      else none
    | .xts =>
      if key.length = 32 ∨ key.length = 64 then
        return { c with xtsEnc := ← xtsSetkeyEnc key, xtsDec := ← xtsSetkeyDec key }
      else none

/-! ### the Elephant layer -/

def rd32 (p : Fin 4 → UInt8) : UInt32 :=
  (p 0).toUInt32 ||| (p 1).toUInt32 <<< 8 ||| (p 2).toUInt32 <<< 16 ||| (p 3).toUInt32 <<< 24

def wr32 (v : UInt32) : Fin 4 → UInt8 :=
  ![v.toUInt8, (v >>> 8).toUInt8, (v >>> 16).toUInt8, (v >>> 24).toUInt8]

/-- `w[i] = rd32(sec + 4 * i)` for the first `n` words of `w[4096 / 4]`. -/
def readWords (n : ℕ) (sec : List UInt8) : Option Words :=
  if n ≤ 4096 / 4 then some fun i => ((blocks 4 n sec).map rd32).getD i 0 else none

def writeWords (n : ℕ) (w : Words) : List UInt8 := unblocks ((List.range n).map fun i => wr32 (w i))

/-- `for (int b = 0; b < 8; b++) es[b] = (uint8_t) (v >> (8 * b))` over zeros. -/
def leBlock (v : UInt64) : AesBlock :=
  fun b => if b.val < 8 then (v >>> (8 * b.val).toUInt64).toUInt8 else 0

/-- `sec[i] ^= ks[i % 32]`. -/
def xorKey (ks : Fin 32 → UInt8) (sec : List UInt8) : List UInt8 :=
  sec.mapIdx fun i x => x ^^^ ks (Fin.ofNat 32 i)

/-- The sector key: the offset encrypted, and once more with its last byte marked. -/
def BitlkCtx.sectorKey (aes : Aes) (c : BitlkCtx) (byteOffset : UInt64) : Fin 32 → UInt8 :=
  let es := leBlock byteOffset
  let ks := aes.cryptEcb c.elephant true es
  let ks' := aes.cryptEcb c.elephant true (Function.update es 15 0x80)
  fun i => if i.val < 16 then ks (Fin.ofNat 16 i) else ks' (Fin.ofNat 16 (i - 16))

/-- `elephant`; `none` where the C code would leave an array. -/
def BitlkCtx.elephantLayer (aes : Aes) (c : BitlkCtx) (byteOffset : UInt64) (sec : List UInt8)
    (encrypt : Bool) : Option (List UInt8) := do
  let ks := c.sectorKey aes byteOffset
  let n := c.sectorSize.toNat / 4
  if encrypt then
    let w ← readWords n (xorKey ks sec)
    let w ← diffuserAEncrypt w n
    let w ← diffuserBEncrypt w n
    return writeWords n w
  else
    let w ← readWords n sec
    let w ← diffuserBDecrypt w n
    let w ← diffuserADecrypt w n
    return xorKey ks (writeWords n w)

/-! ### sectors -/

def BitlkCtx.cryptSector (aes : Aes) (c : BitlkCtx) (encrypt : Bool) (sector : UInt64)
    (sec : List UInt8) : Option (ℤ × List UInt8) := do
  if c.mode = .xts then
    return aes.cryptXts (if encrypt then c.xtsEnc else c.xtsDec) encrypt (leBlock sector) sec
  else
    let byteOffset := sector * c.sectorSize.toUInt64
    let iv := aes.cryptEcb c.enc true (leBlock byteOffset)
    let sec ← if encrypt ∧ c.mode = .cbcElephant then c.elephantLayer aes byteOffset sec true
      else some sec
    let (rc, sec) := aes.cryptCbc (if encrypt then c.enc else c.dec) encrypt iv sec
    if rc = 0 ∧ !encrypt ∧ c.mode = .cbcElephant then
      return (rc, ← c.elephantLayer aes byteOffset sec false)
    else return (rc, sec)

/-- The loop over the sectors from number `sector` on; it returns at the first error code. -/
def BitlkCtx.cryptFrom (aes : Aes) (c : BitlkCtx) (encrypt : Bool) (first : UInt64) :
    (count s : ℕ) → List UInt8 → Option (ℤ × List UInt8)
  | 0, _, buf => some (0, buf)
  | count + 1, s, buf => do
    let size := c.sectorSize.toNat
    let (rc, sec) ← c.cryptSector aes encrypt (first + s.toUInt64) (buf.take size)
    if rc ≠ 0 then return (rc, sec ++ buf.drop size)
    let (rc, rest) ← c.cryptFrom aes encrypt first count (s + 1) (buf.drop size)
    return (rc, sec ++ rest)

/-- `bitlk_crypt_sectors`: the return value and the buffer, or `none` for an access outside an
array. -/
def bitlkCryptSectors (aes : Aes) (c : Option BitlkCtx) (encrypt : Bool) (firstSector : UInt64)
    (buf : List UInt8) : Option (ℤ × List UInt8) :=
  match c with
  | none => some (-1, buf)
  | some c =>
    if buf.length % c.sectorSize.toNat ≠ 0 then some (-1, buf)
    else c.cryptFrom aes encrypt firstSector (buf.length / c.sectorSize.toNat) 0 buf

/-! ### one sector, encrypted and decrypted -/

section Undo

variable {aes : Aes} {c : BitlkCtx} {sec : List UInt8}

lemma xorBlock_xorBlock (a b : AesBlock) : xorBlock (xorBlock a b) b = a := by
  funext i
  rw [xorBlock, xorBlock, UInt8.xor_assoc, UInt8.xor_self, UInt8.xor_zero]

lemma rd32_wr32 (v : UInt32) : rd32 (wr32 v) = v := by
  apply UInt32.toBitVec_inj.1
  ext i hi
  simp [rd32, wr32, -UInt32.toUInt32_toUInt8]
  grind

lemma wr32_rd32 (p : Fin 4 → UInt8) : wr32 (rd32 p) = p := by
  funext i
  apply UInt8.toBitVec_inj.1
  ext j hj
  fin_cases i <;> simp [rd32, wr32] <;> grind

lemma xorKey_xorKey (ks : Fin 32 → UInt8) (l : List UInt8) : xorKey ks (xorKey ks l) = l := by
  refine List.ext_getElem (by simp [xorKey]) fun i h1 h2 => ?_
  simp only [xorKey, List.getElem_mapIdx]
  rw [UInt8.xor_assoc, UInt8.xor_self, UInt8.xor_zero]

/-- What `bitlk_ctx_new` has made sure of. -/
structure BitlkCtx.Ready (c : BitlkCtx) : Prop where
  pos : 0 < c.sectorSize.toNat
  le : c.sectorSize.toNat ≤ 4096
  dvd : 512 ∣ c.sectorSize.toNat
  /-- The two schedules of the mode's cipher are those of one key. -/
  keys : match c.mode with
    | .xts => ∃ key tweak, c.xtsEnc = ⟨.enc key, tweak⟩ ∧ c.xtsDec = ⟨.dec key, tweak⟩
    | _ => ∃ key, c.enc = .enc key ∧ c.dec = .dec key

lemma sectorSize_dvd {s : UInt32} (hs : ¬ (s < 512 ∨ s > 4096 ∨ s &&& (s - 1) ≠ 0)) :
    0 < s.toNat ∧ s.toNat ≤ 4096 ∧ 512 ∣ s.toNat := by
  simp only [not_or, not_not, gt_iff_lt, UInt32.not_lt, UInt32.le_iff_toNat_le] at hs
  obtain ⟨hlow, hhigh, hpow⟩ := hs
  have hlow : 512 ≤ s.toNat := hlow
  have hand : s.toNat &&& (s.toNat - 1) = 0 := by
    have h := congrArg UInt32.toNat hpow
    rwa [UInt32.toNat_and,
      UInt32.toNat_sub_of_le _ _ (UInt32.le_iff_toNat_le.2 (Nat.le_trans (by decide) hlow))] at h
  obtain ⟨k, hk⟩ := (Nat.and_sub_one_eq_zero_iff_isPowerOfTwo (by omega)).1 hand
  have h9 : 9 ≤ k := (Nat.pow_le_pow_iff_right (by decide : 1 < 2)).1 (by rw [← hk]; exact hlow)
  exact ⟨by omega, hhigh, hk ▸ pow_dvd_pow 2 h9⟩

variable {key : List UInt8} {n : ℕ} {w : Words}

lemma setkeyEnc_some {ctx : AesContext} (h : setkeyEnc key = some ctx) : ctx = .enc key := by
  unfold setkeyEnc at h
  split at h <;> cases h
  rfl

lemma setkeyDec_some {ctx : AesContext} (h : setkeyDec key = some ctx) : ctx = .dec key := by
  unfold setkeyDec at h
  split at h <;> cases h
  rfl

lemma xtsSetkey_some {e d : XtsContext} (he : xtsSetkeyEnc key = some e)
    (hd : xtsSetkeyDec key = some d) :
    ∃ key1 tweak, e = ⟨.enc key1, tweak⟩ ∧ d = ⟨.dec key1, tweak⟩ := by
  obtain ⟨⟨key1, key2⟩, hk, he⟩ := Option.bind_eq_some_iff.1 he
  obtain ⟨tweak, ht, he⟩ := Option.bind_eq_some_iff.1 he
  obtain ⟨e', he', he⟩ := Option.bind_eq_some_iff.1 he
  unfold xtsSetkeyDec at hd
  rw [hk, Option.bind_eq_bind, Option.bind_some] at hd
  obtain ⟨tweak', ht', hd⟩ := Option.bind_eq_some_iff.1 hd
  obtain ⟨d', hd', hd⟩ := Option.bind_eq_some_iff.1 hd
  refine ⟨key1, tweak, ?_, ?_⟩
  · rw [← Option.some.inj he, setkeyEnc_some he']
  · rw [← Option.some.inj hd, setkeyDec_some hd', Option.some.inj (ht'.symm.trans ht)]

lemma bitlkCtxNew_ready {mode : ℤ} {sectorSize : UInt32}
    (h : bitlkCtxNew mode key sectorSize = some c) : c.Ready ∧ c.sectorSize = sectorSize := by
  unfold bitlkCtxNew at h
  split at h
  · cases h
  rename_i hs
  obtain ⟨hpos, hle, hdvd⟩ := sectorSize_dvd hs
  obtain ⟨m, -, h⟩ := Option.bind_eq_some_iff.1 h
  cases m with
  | cbc =>
    simp only at h
    split at h
    · obtain ⟨e, he, h⟩ := Option.bind_eq_some_iff.1 h
      obtain ⟨d, hd, h⟩ := Option.bind_eq_some_iff.1 h
      cases h
      exact ⟨⟨hpos, hle, hdvd, key, setkeyEnc_some he, setkeyDec_some hd⟩, rfl⟩
    · cases h
  | cbcElephant =>
    simp only at h
    split at h
    · obtain ⟨e, he, h⟩ := Option.bind_eq_some_iff.1 h
      obtain ⟨d, hd, h⟩ := Option.bind_eq_some_iff.1 h
      obtain ⟨l, -, h⟩ := Option.bind_eq_some_iff.1 h
      cases h
      exact ⟨⟨hpos, hle, hdvd, _, setkeyEnc_some he, setkeyDec_some hd⟩, rfl⟩
    · cases h
  | xts =>
    simp only at h
    split at h
    · obtain ⟨e, he, h⟩ := Option.bind_eq_some_iff.1 h
      obtain ⟨d, hd, h⟩ := Option.bind_eq_some_iff.1 h
      cases h
      obtain ⟨key1, tweak, he, hd⟩ := xtsSetkey_some he hd
      exact ⟨⟨hpos, hle, hdvd, key1, tweak, he, hd⟩, rfl⟩
    · cases h

/-! The Elephant layer. -/

lemma readWords_outside {i : ℕ} (h : readWords n sec = some w) (hi : n ≤ i) : w i = 0 := by
  unfold readWords at h
  split at h <;> cases h
  exact List.getD_eq_default _ _ (by simpa using hi)

lemma length_writeWords (n : ℕ) (w : Words) : (writeWords n w).length = n * 4 := by
  rw [writeWords, length_unblocks, List.length_map, List.length_range]

lemma readWords_writeWords (hn : n ≤ 1024) (hw : ∀ i, n ≤ i → w i = 0) :
    readWords n (writeWords n w) = some w := by
  rw [readWords, if_pos hn, writeWords]
  congr 1
  funext i
  rw [blocks_unblocks (by simp), List.map_map]
  by_cases hi : i < n
  · rw [List.getD_eq_getElem _ _ (by simpa using hi)]
    simp [rd32_wr32]
  · rw [List.getD_eq_default _ _ (by simpa using hi), hw i (by omega)]

lemma writeWords_of_read (hsec : sec.length = n * 4) (h : readWords n sec = some w) :
    writeWords n w = sec := by
  unfold readWords at h
  split at h <;> cases h
  have hall : (List.range n).map (fun i => wr32 (((blocks 4 n sec).map rd32).getD i 0)) =
      blocks 4 n sec := by
    refine List.ext_getElem (by simp) fun i h1 h2 => ?_
    simp only [List.getElem_map, List.getElem_range]
    rw [List.getD_eq_getElem _ _ (by simpa using h2), List.getElem_map, wr32_rd32]
  rw [writeWords, hall, unblocks_blocks hsec]

/-- **The Elephant layer is taken off again.** -/
lemma BitlkCtx.Ready.elephantLayer_undo (aes : Aes) (h : c.Ready) (byteOffset : UInt64)
    (hsec : sec.length = c.sectorSize.toNat) :
    ∃ sec', c.elephantLayer aes byteOffset sec true = some sec' ∧ sec'.length = c.sectorSize.toNat ∧
      c.elephantLayer aes byteOffset sec' false = some sec := by
  obtain ⟨b, hb⟩ := h.dvd
  have hle := h.le
  have hpos := h.pos
  have hn : c.sectorSize.toNat / 4 = 4 * (32 * b) := by omega
  unfold elephantLayer
  rw [hn]
  generalize c.sectorKey aes byteOffset = ks
  obtain ⟨w, hw⟩ : ∃ w, readWords (4 * (32 * b)) (xorKey ks sec) = some w := ⟨_, if_pos (by omega)⟩
  obtain ⟨wA, wB, hA, hB, hB', hA', hout⟩ := diffusers_undone (b := 32 * b) w (by omega)
  refine ⟨writeWords (4 * (32 * b)) wB, ?_, ?_, ?_⟩
  · rw [if_pos rfl, hw, Option.bind_eq_bind, Option.bind_some, hA, Option.bind_some, hB]
    rfl
  · rw [length_writeWords]
    omega
  · rw [if_neg (by decide),
      readWords_writeWords (by omega) fun i hi => (hout i hi).trans (readWords_outside hw hi),
      Option.bind_eq_bind, Option.bind_some, hB', Option.bind_some, hA', Option.bind_some,
      writeWords_of_read (by simp only [xorKey, List.length_mapIdx]; omega) hw, xorKey_xorKey]
    rfl

/-! CBC and XTS. -/

lemma Aes.cryptCbc_undo (key : List UInt8) (iv : AesBlock) (hsec : 16 ∣ sec.length) :
    ∃ sec', aes.cryptCbc (.enc key) true iv sec = (0, sec') ∧ sec'.length = sec.length ∧
      aes.cryptCbc (.dec key) false iv sec' = (0, sec) := by
  obtain ⟨k, hk⟩ := hsec
  have hdiv : sec.length / 16 = k := by omega
  let out := cbcEncrypt xorBlock (aes.cipher key) iv (blocks 16 k sec)
  have hout : out.length = k := by rw [length_cbcEncrypt, length_blocks]
  have hlen : (unblocks out).length = sec.length := by rw [length_unblocks, hout, hk, Nat.mul_comm]
  refine ⟨unblocks out, ?_, hlen, ?_⟩
  · rw [cryptCbc, if_neg (by omega), hdiv]
    rfl
  · have hback : cbcDecrypt xorBlock (aes.cryptEcb (.dec key) false) iv out = blocks 16 k sec :=
      cbcDecrypt_cbcEncrypt xorBlock_xorBlock (aes.cipher key).symm_apply_apply iv _
    simp only [cryptCbc]
    rw [hlen, if_neg (by omega), hdiv, blocks_unblocks hout, if_neg (by decide), hback,
      unblocks_blocks (by omega)]

lemma Aes.cryptXts_undo (key : List UInt8) (tweak : AesContext) (dataUnit : AesBlock)
    (hsec : 16 ∣ sec.length) (hpos : 0 < sec.length) (hle : sec.length ≤ 2 ^ 24) :
    ∃ sec', aes.cryptXts ⟨.enc key, tweak⟩ true dataUnit sec = (0, sec') ∧ sec'.length = sec.length ∧
      aes.cryptXts ⟨.dec key, tweak⟩ false dataUnit sec' = (0, sec) := by
  obtain ⟨k, hk⟩ := hsec
  have hdiv : sec.length / 16 = k := by omega
  let t := aes.cryptEcb tweak true dataUnit
  let out := xex xorBlock (aes.cipher key) gf128mulXBle t (blocks 16 k sec)
  have hout : out.length = k := by rw [length_xex, length_blocks]
  have hlen : (unblocks out).length = sec.length := by rw [length_unblocks, hout, hk, Nat.mul_comm]
  refine ⟨unblocks out, ?_, hlen, ?_⟩
  · rw [cryptXts, if_neg (by omega), if_neg (by omega), hdiv]
    rfl
  · have hback : xex xorBlock (aes.cryptEcb (.dec key) false) gf128mulXBle t out = blocks 16 k sec :=
      xex_xex xorBlock_xorBlock (aes.cipher key).symm_apply_apply t _
    simp only [cryptXts]
    rw [hlen, if_neg (by omega), if_neg (by omega), hdiv, blocks_unblocks hout, hback,
      unblocks_blocks (by omega)]

/-- **A sector that was encrypted is decrypted**, in every mode. -/
theorem BitlkCtx.Ready.cryptSector_undo (aes : Aes) (h : c.Ready) (sector : UInt64)
    (hsec : sec.length = c.sectorSize.toNat) :
    ∃ sec', c.cryptSector aes true sector sec = some (0, sec') ∧ sec'.length = c.sectorSize.toNat ∧
      c.cryptSector aes false sector sec' = some (0, sec) := by
  have hkeys := h.keys
  have h16 : 16 ∣ c.sectorSize.toNat := (by decide : 16 ∣ 512).trans h.dvd
  cases hm : c.mode with
  | xts =>
    rw [hm] at hkeys
    obtain ⟨key, tweak, he, hd⟩ := hkeys
    obtain ⟨sec', h1, hlen, h2⟩ := aes.cryptXts_undo key tweak (leBlock sector) (hsec ▸ h16)
      (hsec ▸ h.pos) (hsec ▸ h.le.trans (by decide))
    refine ⟨sec', ?_, hlen.trans hsec, ?_⟩
    · rw [cryptSector, if_pos hm, if_pos rfl, he, h1]
      rfl
    · rw [cryptSector, if_pos hm, if_neg (by decide), hd, h2]
      rfl
  | cbc =>
    rw [hm] at hkeys
    obtain ⟨key, he, hd⟩ := hkeys
    obtain ⟨sec', h1, hlen, h2⟩ := aes.cryptCbc_undo key
      (aes.cryptEcb c.enc true (leBlock (sector * c.sectorSize.toUInt64))) (hsec ▸ h16)
    rw [← he] at h1
    rw [← hd] at h2
    refine ⟨sec', ?_, hlen.trans hsec, ?_⟩
    · simp [cryptSector, hm, h1]
    · simp [cryptSector, hm, h2]
  | cbcElephant =>
    rw [hm] at hkeys
    obtain ⟨key, he, hd⟩ := hkeys
    obtain ⟨mid, hmid, hmlen, hback⟩ := h.elephantLayer_undo aes (sector * c.sectorSize.toUInt64) hsec
    obtain ⟨sec', h1, hlen, h2⟩ := aes.cryptCbc_undo key
      (aes.cryptEcb c.enc true (leBlock (sector * c.sectorSize.toUInt64))) (hmlen ▸ h16)
    rw [← he] at h1
    rw [← hd] at h2
    refine ⟨sec', ?_, hlen.trans hmlen, ?_⟩
    · simp [cryptSector, hm, hmid, h1]
    · simp [cryptSector, hm, h2, hback]

end Undo

/-! ### a buffer of sectors -/

section Buffer

variable {aes : Aes} {c : BitlkCtx}

/-- **A context is a cipher of sectors.** A list of another length than a sector's never gets to
it. -/
def BitlkCtx.Ready.cipher (aes : Aes) (h : c.Ready) : SectorCipher c.sectorSize.toNat where
  crypt encrypt n l :=
    if l.length = c.sectorSize.toNat then
      match c.cryptSector aes encrypt (UInt64.ofInt n) l with
      | some (_, l') => if l'.length = l.length then l' else l
      | none => l
    else l
  length encrypt n l := by
    split
    · split
      · split
        · assumption
        · rfl
      · rfl
    · rfl
  undo n l hl := by
    obtain ⟨l', h1, hlen, h2⟩ := h.cryptSector_undo aes (UInt64.ofInt n) hl
    simp only [hl, h1, hlen, h2, if_true]

lemma BitlkCtx.Ready.cryptSector_eq (h : c.Ready) (encrypt : Bool) (n : ℤ) {l : List UInt8}
    (hl : l.length = c.sectorSize.toNat) :
    c.cryptSector aes encrypt (UInt64.ofInt n) l = some (0, (h.cipher aes).crypt encrypt n l) := by
  have hcrypt (encrypt : Bool) {l l' : List UInt8} (hl : l.length = c.sectorSize.toNat)
      (hlen : l'.length = c.sectorSize.toNat)
      (h1 : c.cryptSector aes encrypt (UInt64.ofInt n) l = some (0, l')) :
      (h.cipher aes).crypt encrypt n l = l' := by
    simp only [cipher, hl, h1, hlen, if_true]
  cases encrypt with
  | true =>
    obtain ⟨l', h1, hlen, -⟩ := h.cryptSector_undo aes (UInt64.ofInt n) hl
    rw [h1, hcrypt true hl hlen h1]
  | false =>
    -- the sector is the ciphertext of its decryption
    have hl' : ((h.cipher aes).crypt false n l).length = c.sectorSize.toNat :=
      ((h.cipher aes).length ..).trans hl
    obtain ⟨l', h1, hlen, h2⟩ := h.cryptSector_undo aes (UInt64.ofInt n) hl'
    have hredo := (h.cipher aes).redo n hl
    rw [hcrypt true hl' hlen h1] at hredo
    rw [← hredo, h2, hredo]

lemma ofInt_natCast (n : ℕ) : UInt64.ofInt n = n.toUInt64 := by
  apply UInt64.toNat_inj.1
  simp [UInt64.ofInt, UInt64.toNat_ofNat']
  omega

lemma BitlkCtx.Ready.cryptFrom_eq (h : c.Ready) (encrypt : Bool) (first : ℤ) {count s : ℕ}
    {buf : List UInt8} (hbuf : count * c.sectorSize.toNat ≤ buf.length) :
    c.cryptFrom aes encrypt (UInt64.ofInt first) count s buf =
      some (0, mapUnits (fun i l => (h.cipher aes).crypt encrypt (first + i) l) c.sectorSize.toNat
        count s buf) := by
  induction count generalizing s buf with
  | zero => rfl
  | succ count ih =>
    rw [Nat.succ_mul] at hbuf
    rw [cryptFrom, ← ofInt_natCast, ← UInt64.ofInt_add,
      h.cryptSector_eq encrypt _ (List.length_take_of_le (by omega))]
    simp only [Option.bind_eq_bind, Option.bind_some, ne_eq, not_true_eq_false, if_false]
    rw [ih (by rw [List.length_drop]; omega)]
    rfl

/-- **`bitlk_crypt_sectors` is the cipher of the context**, sector by sector; a buffer that is not
whole sectors is refused as it is. -/
theorem BitlkCtx.Ready.bitlkCryptSectors_eq (h : c.Ready) (encrypt : Bool) (first : ℤ)
    (buf : List UInt8) : bitlkCryptSectors aes (some c) encrypt (UInt64.ofInt first) buf =
      some (((h.cipher aes).cryptSectors encrypt first buf).elim (-1, buf) (0, ·)) := by
  unfold bitlkCryptSectors SectorCipher.cryptSectors
  simp only
  split
  · rfl
  · rw [h.cryptFrom_eq encrypt first (Nat.div_mul_le_self ..)]
    rfl

lemma BitlkCtx.Ready.bitlkCryptSectors_undo (h : c.Ready) (first : UInt64) {buf : List UInt8}
    (hbuf : c.sectorSize.toNat ∣ buf.length) :
    ∃ out, bitlkCryptSectors aes (some c) true first buf = some (0, out) ∧ out.length = buf.length ∧
      bitlkCryptSectors aes (some c) false first out = some (0, buf) := by
  obtain ⟨n, rfl⟩ : ∃ n : ℤ, first = UInt64.ofInt n := ⟨first.toNat, by rw [ofInt_natCast]; simp⟩
  obtain ⟨out, hout⟩ : ∃ out, (h.cipher aes).cryptSectors true n buf = some out :=
    SectorCipher.cryptSectors_some hbuf
  refine ⟨out, ?_, SectorCipher.cryptSectors_length hout, ?_⟩
  · rw [h.bitlkCryptSectors_eq, hout]
    rfl
  · rw [h.bitlkCryptSectors_eq, SectorCipher.cryptSectors_undo hout]
    rfl

/-- **Every context that is made undoes its own encryption**, whatever the buffer of whole sectors,
and the loops of its diffusers stay inside the words of a sector and are each other's inverses. -/
theorem ctx_sectors_undone (aes : Aes) {mode : ℤ} {key : List UInt8} {sectorSize : UInt32} {c : BitlkCtx}
    (hc : bitlkCtxNew mode key sectorSize = some c) :
    (∀ (first : UInt64) (buf : List UInt8), sectorSize.toNat ∣ buf.length →
      ∃ out, bitlkCryptSectors aes (some c) true first buf = some (0, out) ∧ out.length = buf.length ∧
        bitlkCryptSectors aes (some c) false first out = some (0, buf)) ∧
    ∀ d : Words, let n : ℤ := (sectorSize.toNat / 4 : ℕ)
      (diffuserAEncrypt d n).bind (diffuserADecrypt · n) = some d ∧
      (diffuserADecrypt d n).bind (diffuserAEncrypt · n) = some d ∧
      (diffuserBEncrypt d n).bind (diffuserBDecrypt · n) = some d ∧
      (diffuserBDecrypt d n).bind (diffuserBEncrypt · n) = some d := by
  obtain ⟨hready, rfl⟩ := bitlkCtxNew_ready hc
  refine ⟨fun first buf hbuf => hready.bitlkCryptSectors_undo first hbuf, fun d => ?_⟩
  obtain ⟨b, hb⟩ := hready.dvd
  have hpos := hready.pos
  have hn : c.sectorSize.toNat / 4 = 4 * (32 * b) := by omega
  rw [hn]
  obtain ⟨hA, hA'⟩ := diffuserA_inverse (b := 32 * b) d (by omega)
  obtain ⟨hB, hB'⟩ := diffuserB_inverse (b := 32 * b) d (by omega)
  exact ⟨hA, hA', hB, hB'⟩

def plainAes : Aes := ⟨fun _ => Equiv.refl _, fun _ _ b => b⟩

theorem ctx_sectors_undone_elephant : ∃ c out, bitlkCtxNew 2 (List.replicate 32 0) 512 = some c ∧
    bitlkCryptSectors plainAes (some c) true 7 (List.replicate 1024 1) = some (0, out) ∧
    bitlkCryptSectors plainAes (some c) false 7 out = some (0, List.replicate 1024 1) := by
  obtain ⟨c, hc⟩ : ∃ c, bitlkCtxNew 2 (List.replicate 32 0) 512 = some c := ⟨_, rfl⟩
  obtain ⟨out, h1, -, h2⟩ := (ctx_sectors_undone plainAes hc).1 7 (List.replicate 1024 1)
    (by rw [List.length_replicate]; decide)
  exact ⟨c, out, hc, h1, h2⟩

end Buffer

end OtgMaster.Bitlocker
