import OtgMaster.Luks.Header
import OtgMaster.Platform.Codec
import OtgMaster.Veracrypt.Native

/-!
`LuksUnlocker`: the master key of a keyslot is derived from the password, read from the key material
and merged, and then checked against the digest that the header stores.

The check of LUKS2 compares as many bytes as the stored digest has. So it holds of every key where
the header stores no digest of type `pbkdf2`, or an empty one (`unlock_verified`).
-/

namespace OtgMaster.Luks

open Lib Block Platform Veracrypt

/-! ### Digests and key derivation -/

/-- A character as `equals(ignoreCase = true)` compares it to an ASCII one. -/
def foldCase (c : Char) : Char :=
  if c = 'ſ' then 's' else if c = 'ı' ∨ c = 'İ' then 'i' else if c = 'K' then 'k' else c.toLower

def equalsIgnoreCase (s t : List Char) : Bool := s.map foldCase = t.map foldCase

def startsWithIgnoreCase (s t : List Char) : Bool := t.map foldCase = (s.take t.length).map foldCase

def verifyCipher (cipherName cipherMode : List Char) : E PUnit := do
  failIf (equalsIgnoreCase cipherName "aes".toList = false) ⟨.unsupportedFormat,
    "Cipher '" ++ String.ofList cipherName ++
      "' is not supported. Only AES (aes-xts-plain64) is supported."⟩
  failIf (startsWithIgnoreCase cipherMode "xts-plain64".toList = false) ⟨.unsupportedFormat,
    "Cipher mode '" ++ String.ofList cipherMode ++
      "' is not supported. Only xts-plain64 is supported. " ++
        "Older volumes using aes-cbc-essiv:sha256 require reformatting."⟩

/-- The algorithm of a hash specification, in `pbkdf2AlgFor` and in `hashDiffuse`. -/
def shaFor (hashSpec : List Char) : Sha :=
  let name := hashSpec.map Char.toLower
  if name = "sha1".toList then .sha1
  else if name = "sha256".toList then .sha256
  else if name = "sha512".toList then .sha512
  else .sha256

def xorBytes (dest src : List UInt8) : List UInt8 := List.zipWith (· ^^^ ·) dest src

/-- One block of PBKDF2, for the MAC under the password. -/
def pbkdf2Block (mac : List UInt8 → List UInt8) (salt : List UInt8) (iterations : ℤ) (blockIdx : ℕ) :
    List UInt8 :=
  let u := mac (salt ++ bigEndian 4 blockIdx)
  ((List.range (iterations - 1).toNat).foldl (fun ut _ =>
    let u := mac ut.1
    (u, xorBytes ut.2 u)) (u, u)).2

/-- The loop over the blocks: `n` times, for the bytes that remain. -/
def pbkdf2Blocks (block : ℕ → List UInt8) (hLen : ℕ) : (n remaining blockIdx : ℕ) → List UInt8
  | 0, _, _ => []
  | n + 1, remaining, blockIdx =>
    (block blockIdx).take (min remaining hLen) ++
      pbkdf2Blocks block hLen n (remaining - min remaining hLen) (blockIdx + 1)

def rounds (total step : ℕ) : ℕ := (total + step - 1) / step

section Programs

variable (jdk : Jdk) (native : Native)

/-- `pbkdf2`; an empty password makes no `SecretKeySpec`. -/
def pbkdf2 (alg : Sha) (password salt : List UInt8) (iterations keyLen : ℤ) : E (List UInt8) := do
  require (password ≠ []) "Empty key"
  failIf (keyLen < 0) ⟨.negativeArraySize, s!"{keyLen}"⟩
  return pbkdf2Blocks (pbkdf2Block (jdk.hmac alg password) salt iterations) alg.digestLength
    (rounds keyLen.toNat alg.digestLength) keyLen.toNat 1

/-- `hashDiffuse`: each chunk is replaced by the digest of its number and itself, cut to its
length. -/
def hashDiffuse (alg : Sha) (buf : List UInt8) : List UInt8 :=
  mapUnits (fun chunk unit => (jdk.digest alg (bigEndian 4 chunk ++ unit)).take unit.length)
    alg.digestLength
    (rounds buf.length alg.digestLength) 0 buf

def afMerge (keyMaterial : List UInt8) (stripes keyLen : ℤ) (hashSpec : List Char) : E (List UInt8) := do
  failIf (keyLen < 0) ⟨.negativeArraySize, s!"{keyLen}"⟩
  let buf ← (List.range (i32 (stripes - 1)).toNat).foldlM (fun buf (i : ℕ) => do
    let stripe ← copyOfRange keyMaterial (i32 (i * keyLen)) (i32 ((i + 1) * keyLen))
    return hashDiffuse jdk (shaFor hashSpec) (xorBytes buf stripe)) (List.replicate keyLen.toNat 0)
  let last ← copyOfRange keyMaterial (i32 ((stripes - 1) * keyLen)) (i32 (stripes * keyLen))
  return xorBytes buf last

/-- `readBlocks`, where the arguments may be negative. -/
def readBlocksInt (w : Machine) (start count : ℤ) : E (List UInt8) := do
  require (0 ≤ count) "blockCount must be non-negative"
  failIf (start < 0) ⟨.io, "read before the start of the drive"⟩
  w.readBlocks start.toNat count.toNat

def readBytes (w : Machine) (byteOffset len : ℤ) : E (List UInt8) := do
  let startBlock := byteOffset.tdiv w.blockSize
  let endByte := byteOffset + len
  let endBlock := (endByte + w.blockSize - 1).tdiv w.blockSize
  let data ← readBlocksInt w startBlock (i32 (endBlock - startBlock))
  let offsetInData := byteOffset - startBlock * w.blockSize
  copyOfRange data offsetInData (offsetInData + len)

/-! ### Keyslots -/

def aesOnly : List ℕ := [SingleCipher.aes.nativeId]

def luks1KmBytes (hdr : Luks1) (slot : Luks1Keyslot) : ℤ :=
  let kmSectorCount := (i32 (slot.stripes * hdr.keyBytes + 511)).tdiv 512
  i32 (kmSectorCount * 512)

def luks1KmCount (bs : ℕ) (hdr : Luks1) (slot : Luks1Keyslot) : ℤ :=
  (i32 (luks1KmBytes hdr slot + bs - 1)).tdiv bs

/-- The part of `tryLuks1Keyslot` that reads the key material: `kmBlocks`, and how many of its bytes
are decrypted. -/
def luks1Material (w : Machine) (startBlock : ℕ) (hdr : Luks1) (slot : Luks1Keyslot) :
    E (List UInt8 × ℤ) := do
  let kmBlocks ← readBlocksInt w (startBlock + slot.keyMaterialOffsetSectors)
    (luks1KmCount w.blockSize hdr slot)
  return (kmBlocks, min (luks1KmBytes hdr slot) kmBlocks.length)

/-- `tryLuks1Keyslot`: the merged master key, `none` for `null`. -/
def tryLuks1Keyslot (w : Machine) (startBlock : ℕ) (hdr : Luks1) (slot : Luks1Keyslot)
    (password : List UInt8) : E (Option (List UInt8)) := do
  let slotKey ← pbkdf2 jdk (shaFor hdr.hashSpec) password slot.salt slot.iterations hdr.keyBytes
  let (kmBlocks, length) ← luks1Material w startBlock hdr slot
  match native.cryptSectorsInPlace aesOnly .decrypt slotKey 0 kmBlocks length with
  | none => return none
  | some kmBlocks =>
    let keyMaterial ← copyOfRange kmBlocks 0 (i32 (slot.stripes * hdr.keyBytes))
    let masterKey ← afMerge jdk keyMaterial slot.stripes hdr.keyBytes hdr.hashSpec
    return some masterKey

def slotKeyOf (slot : Luks2Keyslot) (password : List UInt8) : E (List UInt8) :=
  match slot.kdf with
  | .argon2id timeCost memoryCostKiB parallelism salt =>
    match native.argon2id password salt timeCost memoryCostKiB parallelism slot.keySize with
    | .ok (some key) => pure key
    | .ok none => throw ⟨.unsupportedFormat, "Argon2id could not run"⟩
    | .error message => throw ⟨.unsupportedFormat,
        s!"This LUKS2 volume requires {memoryCostKiB.tdiv 1024} MiB to unlock — Argon2id failed: {message}"⟩
  | .pbkdf2 hash iterations salt => pbkdf2 jdk (shaFor hash) password salt iterations slot.keySize

/-- The size of the key material of a LUKS2 keyslot, in whole sectors. -/
def luks2KmBytes (slot : Luks2Keyslot) : ℤ :=
  let kmSectors := (i32 (slot.afStripes * slot.keySize + 511)).tdiv 512
  i32 (kmSectors * 512)

/-- The part of `tryLuks2Keyslot` that reads the key material, all of which is decrypted. -/
def luks2Material (w : Machine) (startBlock : ℕ) (slot : Luks2Keyslot) : E (List UInt8) :=
  let kmAbsoluteByteOffset := i64 (startBlock * w.blockSize + slot.areaOffsetBytes)
  readBytes w kmAbsoluteByteOffset (luks2KmBytes slot)

def tryLuks2Keyslot (w : Machine) (startBlock : ℕ) (slot : Luks2Keyslot) (password : List UInt8) :
    E (Option (List UInt8)) := do
  let slotKey ← slotKeyOf jdk native slot password
  let kmData ← luks2Material w startBlock slot
  match native.cryptSectorsInPlace aesOnly .decrypt slotKey 0 kmData (luks2KmBytes slot) with
  | none => return none
  | some kmData =>
    let keyMaterial ← copyOfRange kmData 0 (i32 (slot.afStripes * slot.keySize))
    let masterKey ← afMerge jdk keyMaterial slot.afStripes slot.keySize slot.afHash
    return some masterKey

/-! ### The device -/

structure LargeSectorDevice where
  payloadStartBlock : ℤ
  payloadBlocks : ℤ
  masterKey : Key
  sectorSize : ℤ
  ivTweak : ℤ
  deriving DecidableEq

inductive Opened where
  | crypto (d : NativeDevice)
  | largeSector (d : LargeSectorDevice)
  deriving DecidableEq

/-- `blockCount ?: (device.blockCount - startBlock)`. -/
def totalBlocks (w : Machine) (startBlock : ℕ) (blockCount : Option ℕ) : ℕ :=
  blockCount.getD (w.blockCount - startBlock)

def makeCryptoDevice (w : Machine) (startBlock : ℕ) (blockCount : Option ℕ) (masterKey : Key)
    (payloadOffsetSectors : ℤ) : E Opened := do
  let payloadOffsetBytes := i64 (payloadOffsetSectors * 512)
  require (payloadOffsetBytes.tmod w.blockSize = 0) <|
    s!"LUKS payload offset {payloadOffsetBytes} B is not a multiple of the device block size {w.blockSize} B"
  let payloadOffsetBlocks := payloadOffsetBytes.tdiv w.blockSize
  return .crypto {
    blockSize := w.blockSize
    masterKey := masterKey
    volumeDataOffset := (startBlock + payloadOffsetBlocks).toNat
    decryptedBlockCount := (totalBlocks w startBlock blockCount - payloadOffsetBlocks).toNat
    cipherNativeIds := aesOnly
    tweakDataOffset := 0 }

def makeLargeSectorDevice (w : Machine) (startBlock : ℕ) (blockCount : Option ℕ) (masterKey : Key)
    (hdr : Luks2) : E Opened := do
  let payloadBlocks := (i64 (hdr.payloadOffsetSectors * 512)).tdiv w.blockSize
  failIf (jdk.newXtsContext masterKey hdr.sectorSize = false) ⟨.io,
    s!"cannot set up aes-xts with {hdr.sectorSize}-byte sectors"⟩
  require (hdr.sectorSize.tmod w.blockSize = 0) <|
    s!"sector size {hdr.sectorSize} is not a multiple of the device block {w.blockSize}"
  return .largeSector {
    payloadStartBlock := startBlock + payloadBlocks
    payloadBlocks := totalBlocks w startBlock blockCount - payloadBlocks
    masterKey, sectorSize := hdr.sectorSize, ivTweak := hdr.ivTweak }

/-! ### Unlocking -/

def wrongPassword : Thrown := ⟨.wrongPassword, "Wrong password or all keyslots exhausted"⟩

/-- The loop over the keyslots of both versions: the first keyslot whose master key is verified
gives the device. -/
def tryKeyslots {σ : Type} (keyOf : σ → E (Option (List UInt8))) (verify : List UInt8 → E Bool)
    (device : List UInt8 → E Opened) : List σ → E Opened
  | [] => throw wrongPassword
  | slot :: slots => do
    match ← keyOf slot with
    | none => tryKeyslots keyOf verify device slots
    | some masterKey =>
      let verified ← verify masterKey
      if verified then device masterKey else tryKeyslots keyOf verify device slots

def matchesLuks1 (hdr : Luks1) (masterKey : List UInt8) : E Bool := do
  let derived ← pbkdf2 jdk (shaFor hdr.hashSpec) masterKey hdr.mkDigestSalt hdr.mkDigestIter 20
  return derived = hdr.mkDigest

def matchesLuks2 (dig : Luks2Digest) (masterKey : List UInt8) : E Bool := do
  let derived ← pbkdf2 jdk (shaFor dig.hash) masterKey dig.salt dig.iterations masterKey.length
  let start ← copyOfRange derived 0 dig.digest.length
  return start = dig.digest

def unlockLuks1 (w : Machine) (startBlock : ℕ) (blockCount : Option ℕ)
    (headerData password : List UInt8) : E Opened := do
  let hdr ← parseLuks1 headerData
  verifyCipher hdr.cipherName hdr.cipherMode
  let activeSlots := hdr.keyslots.filter (·.active)
  failIf (activeSlots.isEmpty = true) ⟨.unsupportedFormat, "No active LUKS1 keyslots"⟩
  tryKeyslots (fun slot => tryLuks1Keyslot jdk native w startBlock hdr slot password)
    (matchesLuks1 jdk hdr)
    (fun masterKey => makeCryptoDevice w startBlock blockCount masterKey hdr.payloadOffsetSectors)
      activeSlots

/-- The device that `unlockLuks2` makes for a master key. -/
def luks2Device (w : Machine) (startBlock : ℕ) (blockCount : Option ℕ) (hdr : Luks2)
    (masterKey : Key) : E Opened :=
  if hdr.sectorSize ≠ 512 then makeLargeSectorDevice jdk w startBlock blockCount masterKey hdr
  else makeCryptoDevice w startBlock blockCount masterKey hdr.payloadOffsetSectors

def unlockLuks2 (w : Machine) (startBlock : ℕ) (blockCount : Option ℕ)
    (headerData password : List UInt8) : E Opened := do
  let hdr ← parseLuks2 jdk headerData
  verifyCipher hdr.cipherName hdr.cipherMode
  failIf (hdr.sectorSize ∉ [512, 1024, 2048, 4096]) ⟨.unsupportedFormat,
    s!"LUKS2 sector size {hdr.sectorSize} is not supported."⟩
  failIf (hdr.keyslots.isEmpty = true) ⟨.unsupportedFormat, "No LUKS2 keyslots found"⟩
  tryKeyslots (fun slot => tryLuks2Keyslot jdk native w startBlock slot password)
    (matchesLuks2 jdk hdr.digest)
    (luks2Device jdk w startBlock blockCount hdr) hdr.keyslots

def readHeader (w : Machine) (startBlock : ℕ) (blockCount : Option ℕ) : E (List UInt8) :=
  w.readBlocks startBlock (min 512 (totalBlocks w startBlock blockCount))

def unlock (w : Machine) (startBlock : ℕ) (blockCount : Option ℕ) (password : List UInt8) :
    E Opened := do
  let headerData ← readHeader w startBlock blockCount
  let version := getVersion headerData
  if version = 1 then unlockLuks1 jdk native w startBlock blockCount headerData password
  else if version = 2 then unlockLuks2 jdk native w startBlock blockCount headerData password
  else throw ⟨.unsupportedFormat, s!"Unknown LUKS version: {version}"⟩

end Programs

/-! ### What is verified -/

section Verified

variable {jdk : Jdk} {native : Native} {w : Machine} {startBlock : ℕ} {blockCount : Option ℕ}
  {headerData password : List UInt8} {opened : Opened}

/-- The merged master key of some keyslot of the header matches a digest that the header stores and
that is not empty. -/
inductive Verified (jdk : Jdk) (native : Native) (w : Machine) (startBlock : ℕ)
    (headerData password : List UInt8) : Prop
  | luks1 {hdr : Luks1} {slot : Luks1Keyslot} {masterKey derived : List UInt8}
      (hparse : parseLuks1 headerData = .ok hdr) (hslot : slot ∈ hdr.keyslots)
        (hactive : slot.active = true)
      (hkey : tryLuks1Keyslot jdk native w startBlock hdr slot password = .ok (some masterKey))
      (hderived : pbkdf2 jdk (shaFor hdr.hashSpec) masterKey hdr.mkDigestSalt hdr.mkDigestIter 20 =
        .ok derived)
      (hdigest : derived = hdr.mkDigest) (hne : hdr.mkDigest ≠ []) :
      Verified jdk native w startBlock headerData password
  | luks2 {hdr : Luks2} {slot : Luks2Keyslot} {masterKey derived : List UInt8}
      (hparse : parseLuks2 jdk headerData = .ok hdr) (hslot : slot ∈ hdr.keyslots)
      (hkey : tryLuks2Keyslot jdk native w startBlock slot password = .ok (some masterKey))
      (hderived : pbkdf2 jdk (shaFor hdr.digest.hash) masterKey hdr.digest.salt hdr.digest.iterations
        masterKey.length = .ok derived)
      (hdigest : hdr.digest.digest <+: derived) (hne : hdr.digest.digest ≠ []) :
      Verified jdk native w startBlock headerData password

/-- The header is one of LUKS1, or it stores a digest of type `pbkdf2` of which the first is not
empty. -/
def DigestStored (jdk : Jdk) (headerData : List UInt8) : Prop :=
  getVersion headerData = 1 ∨ ∃ hdr, parseLuks2 jdk headerData = .ok hdr ∧ hdr.digest.digest ≠ []

/-- What a device was made of: a header of the drive, and the master key of one of its keyslots,
which was verified. -/
inductive OpenedFrom (jdk : Jdk) (native : Native) (w : Machine) (startBlock : ℕ) (blockCount : Option ℕ)
    (headerData password : List UInt8) (opened : Opened) : Prop
  | luks1 {hdr : Luks1} {slot : Luks1Keyslot} {masterKey : List UInt8}
      (hparse : parseLuks1 headerData = .ok hdr) (hslot : slot ∈ hdr.keyslots)
        (hactive : slot.active = true)
      (hkey : tryLuks1Keyslot jdk native w startBlock hdr slot password = .ok (some masterKey))
      (hverify : matchesLuks1 jdk hdr masterKey = .ok true)
      (hdevice : makeCryptoDevice w startBlock blockCount masterKey hdr.payloadOffsetSectors =
        .ok opened) :
      OpenedFrom jdk native w startBlock blockCount headerData password opened
  | luks2 {hdr : Luks2} {slot : Luks2Keyslot} {masterKey : List UInt8}
      (hparse : parseLuks2 jdk headerData = .ok hdr)
        (hsize : hdr.sectorSize ∈ [512, 1024, 2048, 4096]) (hslot : slot ∈ hdr.keyslots)
      (hkey : tryLuks2Keyslot jdk native w startBlock slot password = .ok (some masterKey))
      (hverify : matchesLuks2 jdk hdr.digest masterKey = .ok true)
      (hdevice : luks2Device jdk w startBlock blockCount hdr masterKey = .ok opened) :
      OpenedFrom jdk native w startBlock blockCount headerData password opened

lemma tryKeyslots_ok {σ : Type} {keyOf : σ → E (Option (List UInt8))} {verify : List UInt8 → E Bool}
    {device : List UInt8 → E Opened} {slots : List σ}
    (h : tryKeyslots keyOf verify device slots = .ok opened) :
    ∃ slot ∈ slots, ∃ masterKey, keyOf slot = .ok (some masterKey) ∧ verify masterKey = .ok true ∧
      device masterKey = .ok opened := by
  induction slots with
  | nil => cases h
  | cons slot slots ih =>
    have later : tryKeyslots keyOf verify device slots = .ok opened →
        ∃ s ∈ slot :: slots, ∃ masterKey, keyOf s = .ok (some masterKey) ∧ verify masterKey = .ok true ∧
          device masterKey = .ok opened := by
      intro h
      obtain ⟨s, hs, hrest⟩ := ih h
      exact ⟨s, List.mem_cons_of_mem _ hs, hrest⟩
    rw [tryKeyslots] at h
    obtain ⟨key?, hkey, h⟩ := except_bind_ok h
    cases key? with
    | none => exact later h
    | some masterKey =>
      obtain ⟨verified, hverified, h⟩ := except_bind_ok h
      cases verified with
      | false => exact later h
      | true => exact ⟨slot, List.mem_cons_self, masterKey, hkey, hverified, h⟩

lemma check_bind_ok {α : Type} {c : Prop} [Decidable c] {message : String} {f : PUnit → E α} {b : α}
    (h : (check c message >>= f) = .ok b) : c ∧ f ⟨⟩ = .ok b := by
  obtain ⟨h1, h2⟩ := failIf_bind_ok h
  exact ⟨not_not.1 h1, h2⟩

lemma parseLuks1_ok {hdr : Luks1} (h : parseLuks1 headerData = .ok hdr) :
    getVersion headerData = 1 ∧ hdr.mkDigest ≠ [] := by
  unfold parseLuks1 at h
  obtain ⟨_, h1, h⟩ := except_bind_ok h
  obtain ⟨-, h⟩ := check_bind_ok h
  obtain ⟨hversion, h⟩ := check_bind_ok h
  have hlen := require_ok h1
  cases h
  refine ⟨hversion, List.ne_nil_of_length_pos ?_⟩
  rw [List.length_take, List.length_drop]
  omega

lemma parseLuks2_version {hdr : Luks2} (h : parseLuks2 jdk headerData = .ok hdr) :
    getVersion headerData = 2 := by
  obtain ⟨_, -, h⟩ := except_bind_ok h
  obtain ⟨-, h⟩ := check_bind_ok h
  exact (check_bind_ok h).1

lemma matchesLuks1_ok {hdr : Luks1} {masterKey : List UInt8}
    (h : matchesLuks1 jdk hdr masterKey = .ok true) :
    pbkdf2 jdk (shaFor hdr.hashSpec) masterKey hdr.mkDigestSalt hdr.mkDigestIter 20 =
      .ok hdr.mkDigest := by
  obtain ⟨derived, hderived, h⟩ := except_bind_ok h
  rw [hderived, show derived = hdr.mkDigest by simpa using Except.ok.inj h]

lemma copyOfRange_ok {l r : List UInt8} {n : ℕ} (h : copyOfRange l 0 n = .ok r) : r = l.take n := by
  obtain ⟨-, h⟩ := failIf_bind_ok h
  obtain ⟨-, h⟩ := failIf_bind_ok h
  obtain ⟨-, h⟩ := failIf_bind_ok h
  cases h
  simp

lemma stripe_length {keyMaterial stripe : List UInt8} {a b : ℤ} {n : ℕ} (hn : n < 2 ^ 31)
    (hab : b = a + n) (h : copyOfRange keyMaterial (i32 a) (i32 b) = .ok stripe) :
    stripe.length = n := by
  have hdiff := copyOfRange_length h
  obtain ⟨j, hj, hj1, hj2⟩ := i32_eq a
  obtain ⟨k, hk, hk1, hk2⟩ := i32_eq b
  omega

lemma matchesLuks2_ok {dig : Luks2Digest} {masterKey : List UInt8}
    (h : matchesLuks2 jdk dig masterKey = .ok true) :
    ∃ derived, pbkdf2 jdk (shaFor dig.hash) masterKey dig.salt dig.iterations masterKey.length =
      .ok derived ∧ dig.digest <+: derived := by
  obtain ⟨derived, hderived, h⟩ := except_bind_ok h
  obtain ⟨start, hstart, h⟩ := except_bind_ok h
  have heq : start = dig.digest := by simpa using Except.ok.inj h
  refine ⟨derived, hderived, ?_⟩
  rw [← heq, copyOfRange_ok hstart]
  exact List.take_prefix ..

lemma unlockLuks2_ok
    (h : unlockLuks2 jdk native w startBlock blockCount headerData password = .ok opened) :
    ∃ hdr, parseLuks2 jdk headerData = .ok hdr ∧ hdr.sectorSize ∈ [512, 1024, 2048, 4096] ∧
      ∃ slot ∈ hdr.keyslots,
      ∃ masterKey, tryLuks2Keyslot jdk native w startBlock slot password = .ok (some masterKey) ∧
        matchesLuks2 jdk hdr.digest masterKey = .ok true ∧
        luks2Device jdk w startBlock blockCount hdr masterKey = .ok opened := by
  obtain ⟨hdr, hparse, h⟩ := except_bind_ok h
  obtain ⟨_, -, h⟩ := except_bind_ok h
  obtain ⟨hsize, h⟩ := failIf_bind_ok h
  obtain ⟨-, h⟩ := failIf_bind_ok h
  exact ⟨hdr, hparse, not_not.1 hsize, tryKeyslots_ok h⟩

lemma unlock_openedFrom (hread : readHeader w startBlock blockCount = .ok headerData)
    (h : unlock jdk native w startBlock blockCount password = .ok opened) :
    OpenedFrom jdk native w startBlock blockCount headerData password opened := by
  unfold unlock at h
  rw [except_bind_run hread] at h
  dsimp only at h
  split at h
  · obtain ⟨hdr, hparse, h⟩ := except_bind_ok h
    obtain ⟨_, -, h⟩ := except_bind_ok h
    obtain ⟨-, h⟩ := failIf_bind_ok h
    obtain ⟨slot, hslot, masterKey, hkey, hverify, hdevice⟩ := tryKeyslots_ok h
    obtain ⟨hslot, hactive⟩ := List.mem_filter.1 hslot
    exact .luks1 hparse hslot hactive hkey hverify hdevice
  · split at h
    · obtain ⟨hdr, hparse, hsize, slot, hslot, masterKey, hkey, hverify, hdevice⟩ := unlockLuks2_ok h
      exact .luks2 hparse hsize hslot hkey hverify hdevice
    · cases h

/-- **A device is returned for a verified key exactly if the header stores a digest.** For every
header and every password for which `unlock` returns: the master key of some keyslot matches a
digest that is not empty if and only if the header is of LUKS1 or its first `pbkdf2` digest is not
empty. -/
theorem unlock_verified (hread : readHeader w startBlock blockCount = .ok headerData)
    (h : unlock jdk native w startBlock blockCount password = .ok opened) :
    Verified jdk native w startBlock headerData password ↔ DigestStored jdk headerData := by
  constructor
  · rintro (⟨hparse, -⟩ | ⟨hparse, -, -, -, -, hne⟩)
    · exact Or.inl (parseLuks1_ok hparse).1
    · exact Or.inr ⟨_, hparse, hne⟩
  · intro hstored
    rcases unlock_openedFrom hread h with ⟨hparse, hslot, hactive, hkey, hverify, -⟩ | ⟨hparse, -,
      hslot, hkey, hverify, -⟩
    · exact .luks1 hparse hslot hactive hkey (matchesLuks1_ok hverify) rfl (parseLuks1_ok hparse).2
    · obtain ⟨derived, hderived, hdigest⟩ := matchesLuks2_ok hverify
      rcases hstored with h1 | ⟨hdr', hparse', hne⟩
      · exact absurd (h1.symm.trans (parseLuks2_version hparse)) (by decide)
      · cases hparse.symm.trans hparse'
        exact .luks2 hparse hslot hkey hderived hdigest hne

end Verified

/-! ### A header with one keyslot -/

/-- The JSON object of a header of twelve sectors, with the key material in the sector after it and
the payload behind that. -/
def sampleJson (digests : Fields) : Fields :=
  [("segments",
    .obj [("0", .obj [("type", .str "crypt".toList), ("encryption", .str "aes-xts-plain64".toList),
      ("offset", .str "6656".toList)])]),
    ("keyslots", .obj [("0", .obj [("type", .str "luks2".toList), ("key_size", .int 64),
      ("area", .obj [("offset", .str "6144".toList), ("size", .str "512".toList),
        ("encryption", .str "aes-xts-plain64".toList), ("key_size", .int 64)]),
      ("af", .obj [("stripes", .int 1), ("hash", .str "sha256".toList)]),
      ("kdf", .obj [("type", .str "pbkdf2".toList), ("hash", .str "sha256".toList),
        ("iterations", .int 1), ("salt", .str [])])])]),
    ("digests", .obj digests)]

/-- Libraries with constant digests. -/
def sampleJdk : Jdk where
  toTexts := codec
  digest a _ := List.replicate a.digestLength 0
  hmac a _ _ := List.replicate a.digestLength 0
  newXtsContext _ _ := true
  digest_length _ _ := List.length_replicate
  hmac_length _ _ _ := List.length_replicate

def sampleBinary : Bytes := .ofList (LUKS_MAGIC ++ [0, 2, 0, 0, 0, 0, 0, 0, 0x18, 0])

/-- The binary header, the text of the JSON object and zeros. -/
def sampleDrive (json : Fields) : Machine where
  blockSize := 512
  blockCount := 22
  bytes i :=
    if i < 4096 then sampleBinary i
    else if i < 6144 then (codec.utf8Encode (codec.renderJson json)).getD (i - 4096) 0 else 0
  random _ := 0
  offsets := by decide

def sampleHeader (json : Fields) : List UInt8 := (sampleDrive json).bytes.slice (0 * 512) (22 * 512)

lemma sampleHeader_read (json : Fields) :
    readHeader (sampleDrive json) 0 (some 22) = .ok (sampleHeader json) :=
  Machine.readBlocks_run (w := sampleDrive json) (show 0 + 22 ≤ 22 by decide)

lemma parseLuks2_sample {json : Fields} (hlen : (Codec.encode (.obj json)).length ≤ 2048)
    (hchars : (Codec.encode (.obj json)).all (·.toNat < 256) = true) :
    getVersion (sampleHeader json) = 2 ∧
      parseLuks2 sampleJdk (sampleHeader json) = parseLuks2Json sampleJdk json := by
  have hbinary : ∀ a n, a + n ≤ 4096 →
      ((sampleHeader json).drop a).take n = sampleBinary.slice a n := by
    intro a n h
    rw [sampleHeader, Bytes.take_drop_slice (by omega)]
    exact Bytes.slice_congr fun i hi => (if_pos (by omega)).trans (by rw [Nat.zero_mul, Nat.zero_add])
  have hversion : getVersion (sampleHeader json) = 2 := by
    rw [getVersion, if_neg (by simp [sampleHeader]), hbinary 6 2 (by decide)]
    decide +kernel
  have hmagic : hasLuksMagic (sampleHeader json) = true := by
    rw [hasLuksMagic, ← List.drop_zero (l := sampleHeader json), hbinary 0 _ (by decide)]
    decide +kernel
  have hsize : i64 (beNat (((sampleHeader json).drop 8).take 8)) = (6144 : ℕ) := by
    rw [hbinary 8 8 (by decide)]
    decide +kernel
  refine ⟨hversion, parseLuks2_run (k := 2048 - (Codec.encode (.obj json)).length) hmagic hversion
    hsize (by decide) (by simp [sampleHeader]) ?_ (utf8Decode_append_zeros hchars _)
    (getLast?_encode json) (parseJson_encode json)⟩
  rw [sampleHeader, Bytes.take_drop_slice (by decide)]
  show Bytes.slice _ (0 * 512 + 4096) 2048 = _
  refine List.ext_getElem (by simp [codec, hlen]) fun i hi hi' => ?_
  rw [Bytes.length_slice] at hi
  rw [← List.getD_eq_getElem _ 0, ← List.getD_eq_getElem _ 0, Bytes.slice_getD hi]
  refine (if_neg (by omega)).trans ((if_pos (by omega)).trans ?_)
  rw [show 0 * 512 + 4096 + i - 4096 = i by omega]
  by_cases htext : i < (codec.utf8Encode (codec.renderJson json)).length
  · exact (List.getD_append _ _ _ _ htext).symm
  · rw [List.getD_eq_default _ _ (not_lt.1 htext)]
    refine ((List.getD_append_right _ _ _ _ (not_lt.1 htext)).trans ?_).symm
    rw [List.getD_eq_getElem?_getD, List.getElem?_getD_replicate_default_eq]

lemma exists_ok {α : Type} {x : E α} (h : x.isOk = true) : ∃ a, x = .ok a := by
  cases x with
  | error e => cases h
  | ok a => exact ⟨a, rfl⟩

/-- One digest of type `pbkdf2` with one byte. -/
def sampleDigest : Fields :=
  [("0", .obj [("type", .str "pbkdf2".toList), ("hash", .str "sha256".toList), ("iterations", .int 1),
    ("salt", .str []), ("digest", .str "AA==".toList)])]

lemma sample_parsed (digests : Fields) (h : digests ∈ [[], sampleDigest]) :
    getVersion (sampleHeader (sampleJson digests)) = 2 ∧
      parseLuks2 sampleJdk (sampleHeader (sampleJson digests)) =
        parseLuks2Json sampleJdk (sampleJson digests) := by
  rcases List.mem_pair.1 h with rfl | rfl <;>
    exact parseLuks2_sample (by decide +kernel) (by decide +kernel)

lemma sample_unlock (digests : Fields) (h : digests ∈ [[], sampleDigest]) {password : List UInt8}
    (hp : password ∈ [[1], [2]]) :
    ∃ opened, unlock sampleJdk plainNative (sampleDrive (sampleJson digests)) 0 (some 22) password =
      .ok opened := by
  apply exists_ok
  rw [unlock, except_bind_run (sampleHeader_read _), (sample_parsed _ h).1, if_neg (by decide),
    if_pos rfl, unlockLuks2, (sample_parsed _ h).2]
  rcases List.mem_pair.1 h with rfl | rfl <;> rcases List.mem_pair.1 hp with rfl | rfl <;>
    decide +kernel

/-- **Any password opens a LUKS2 header that stores no digest**: the header below has a keyslot
and no digests at all. `unlock` returns a device for two passwords, and no key is verified for
either. -/
theorem any_password_opens :
    readHeader (sampleDrive (sampleJson [])) 0 (some 22) = .ok (sampleHeader (sampleJson [])) ∧
    ∀ password ∈ [[1], [2]],
      (∃ opened, unlock sampleJdk plainNative (sampleDrive (sampleJson [])) 0 (some 22) password =
        .ok opened) ∧
      ¬Verified sampleJdk plainNative (sampleDrive (sampleJson [])) 0 (sampleHeader (sampleJson []))
        password := by
  obtain ⟨hversion, hjson⟩ := sample_parsed [] (by simp)
  have hempty : (match parseLuks2Json sampleJdk (sampleJson []) with
      | .ok hdr => hdr.digest.digest.isEmpty
      | .error _ => true) = true := by decide +kernel
  refine ⟨sampleHeader_read _, fun password hp => ⟨sample_unlock [] (by simp) hp, ?_⟩⟩
  rintro (⟨hparse, -⟩ | ⟨hparse, -, -, -, -, hne⟩)
  · exact absurd ((parseLuks1_ok hparse).1.symm.trans hversion) (by decide)
  · rw [← hjson, hparse] at hempty
    exact hne (List.isEmpty_iff.1 hempty)

theorem unlock_verified_sample :
    Verified sampleJdk plainNative (sampleDrive (sampleJson sampleDigest)) 0
      (sampleHeader (sampleJson sampleDigest)) [1] := by
  obtain ⟨opened, hopened⟩ := sample_unlock sampleDigest (by simp)
    (show [1] ∈ [[1], [2]] by decide)
  have hstored : (match parseLuks2Json sampleJdk (sampleJson sampleDigest) with
      | .ok hdr => !hdr.digest.digest.isEmpty
      | .error _ => false) = true := by decide +kernel
  refine (unlock_verified (sampleHeader_read _) hopened).2 (Or.inr ?_)
  rw [← (sample_parsed _ (by simp)).2] at hstored
  cases hparse : parseLuks2 sampleJdk (sampleHeader (sampleJson sampleDigest)) with
  | error e => rw [hparse] at hstored; cases hstored
  | ok hdr =>
    rw [hparse] at hstored
    exact ⟨hdr, rfl, by simpa using hstored⟩

end OtgMaster.Luks
