import OtgMaster.Veracrypt.Keyfiles
import OtgMaster.Veracrypt.Native

/-!
A VeraCrypt volume written by `VeraCryptVolumeCreator.create` and opened by
`VeraCryptUnlocker.unlock`.

The two agree on the key, on the ciphers, on where a block of the volume lies and on its tweak
(`unlock_created`). They never agree on where the volume ends: the creator leaves out the backup
header and rounds down, the unlocker takes everything up to the end of the partition, so that the
unlocked device also accepts what lies in the backup header.
-/

namespace OtgMaster.Veracrypt

open Lib Block

/-! ### Ciphers, hashes and the cost of a key -/

inductive VeraCryptCipher where
  | aes
  | serpent
  | twofish
  | aesTwofish
  | aesTwofishSerpent
  | serpentAes
  | serpentTwofishAes
  | twofishSerpent
  deriving DecidableEq

namespace VeraCryptCipher

def entries : List VeraCryptCipher :=
  [aes, serpent, twofish, aesTwofish, aesTwofishSerpent, serpentAes, serpentTwofishAes, twofishSerpent]

def displayName : VeraCryptCipher → String
  | aes => "AES"
  | serpent => "Serpent"
  | twofish => "Twofish"
  | aesTwofish => "AES-Twofish"
  | aesTwofishSerpent => "AES-Twofish-Serpent"
  | serpentAes => "Serpent-AES"
  | serpentTwofishAes => "Serpent-Twofish-AES"
  | twofishSerpent => "Twofish-Serpent"

/-- The cascade in the order of encryption, the reverse of the name. -/
def components : VeraCryptCipher → List SingleCipher
  | aes => [.aes]
  | serpent => [.serpent]
  | twofish => [.twofish]
  | aesTwofish => [.twofish, .aes]
  | aesTwofishSerpent => [.serpent, .twofish, .aes]
  | serpentAes => [.aes, .serpent]
  | serpentTwofishAes => [.aes, .twofish, .serpent]
  | twofishSerpent => [.serpent, .twofish]

/-- Every entry of the enumeration leaves `isSupported` at its default. -/
def isSupported (_ : VeraCryptCipher) : Bool := true

def keySizeBytes (c : VeraCryptCipher) : ℕ := c.components.length * 64

def nativeIds (c : VeraCryptCipher) : List ℕ := c.components.map SingleCipher.nativeId

end VeraCryptCipher

inductive VeraCryptHash where
  | sha512
  | argon2
  | sha256
  | whirlpool
  | streebog
  deriving DecidableEq

namespace VeraCryptHash

def entries : List VeraCryptHash := [sha512, argon2, sha256, whirlpool, streebog]

def displayName : VeraCryptHash → String
  | sha512 => "SHA-512"
  | argon2 => "Argon2"
  | sha256 => "SHA-256"
  | whirlpool => "Whirlpool"
  | streebog => "Streebog"

def kdfNativeId : VeraCryptHash → Option ℕ
  | sha512 => some Native.kdfPbkdf2Sha512
  | argon2 => some Native.kdfArgon2id
  | _ => none

def isSupported (h : VeraCryptHash) : Bool := h.kdfNativeId.isSome

end VeraCryptHash

structure KdfParams where
  iterations : ℤ
  memoryKiB : ℤ
  deriving DecidableEq

namespace KdfParams

def argon2 (pim : ℤ) : KdfParams :=
  let p := if pim = 0 then 12 else pim
  let memoryMiB := min (i32 (64 + (p - 1) * 32)) 1024
  let passes := if p ≤ 31 then 3 + (p - 1) / 3 else i32 (13 + (p - 31))
  ⟨passes, i32 (memoryMiB * 1024)⟩

def forVolume (hash : VeraCryptHash) (pim : Option ℤ) : KdfParams :=
  let p := (pim.map (max · 0)).getD 0
  if hash = .argon2 then argon2 p
  else ⟨if p = 0 then 500000 else i32 (15000 + p * 1000), 0⟩

end KdfParams

/-! ### Creating -/

def HEADER_GROUP_BYTES : ℕ := 131072

def SECTOR : ℕ := 512

def KEY_AREA_BYTES : ℕ := 256

def minPimForShortPassword (hash : VeraCryptHash) : ℤ := if hash = .argon2 then 12 else 485

def SHORT_PASSWORD_CHARS : ℕ := 20

def MAX_PASSWORD_BYTES : ℕ := 128

/-- A typed password: UTF-16 code units. -/
abbrev Password := List UInt16

def pimTooLowForPassword (password : Password) (pim : Option ℤ) (hash : VeraCryptHash) : Bool :=
  !password.isEmpty && decide (password.length < SHORT_PASSWORD_CHARS) &&
    pim.any fun p => decide (1 ≤ p ∧ p < minPimForShortPassword hash)

/-- `passwordProblem`, for the password and its UTF-8 bytes. -/
def passwordProblem (password : Password) (bytes : Key) (pim : Option ℤ) (hasKeyfiles : Bool)
    (hash : VeraCryptHash) : Option String :=
  if password.isEmpty && !hasKeyfiles then some "Enter a password, or add a keyfile."
  else if password.isEmpty then if pim.any (· < 0) then some "The PIM cannot be negative." else none
  else if MAX_PASSWORD_BYTES < bytes.length then
    some s!"VeraCrypt passwords are at most {MAX_PASSWORD_BYTES} bytes."
  else if pim.any (· < 0) then some "The PIM cannot be negative."
  else if pimTooLowForPassword password pim hash then
    some (s!"With a password under {SHORT_PASSWORD_CHARS} characters, VeraCrypt requires a PIM of at " ++
      s!"least {minPimForShortPassword hash}, or none.")
  else none

/-- `dataBytes`: the data area that a partition of `hostSectors` sectors gives, in bytes. -/
def dataBytes (hostSectors : ℕ) : ℤ :=
  max ((i64 (hostSectors * SECTOR - 2 * HEADER_GROUP_BYTES)).tdiv 4096 * 4096) 0

/-- The header fields before their checksum: the first 188 of the 448 bytes. -/
def headerFields (dataBytes : ℤ) (keyArea : List UInt8) : List UInt8 :=
  [0x56, 0x45, 0x52, 0x41] ++ bigEndian 2 5 ++ bigEndian 2 0x010B ++ bigEndian 4 (crc32 keyArea).toNat ++
    List.replicate 16 0 ++ bigEndian 8 0 ++ bigEndian 8 dataBytes ++ bigEndian 8 HEADER_GROUP_BYTES ++
    bigEndian 8 dataBytes ++ bigEndian 4 0 ++ bigEndian 4 SECTOR ++ List.replicate 120 0

def plainHeader (dataBytes : ℤ) (keyArea : List UInt8) : List UInt8 :=
  let fields := headerFields dataBytes keyArea
  fields ++ bigEndian 4 (crc32 fields).toNat ++ keyArea

/-- The exception of `create` and `unlock` for a failing Argon2id. -/
def argon2Failed (kdf : KdfParams) (message : String) : Thrown :=
  ⟨.illegalState, s!"Argon2 could not derive the key ({message}). It needs " ++
    s!"{kdf.memoryKiB.tdiv 1024} MiB of memory at this PIM; close other apps and try again."⟩

section Programs

variable (native : Native) (utf8 : Password → Key)

/-- `VeraCryptNative.encryptHeader` or `decryptHeader` with the exceptions of its caller. -/
def cryptHeaderOrThrow (cipher : VeraCryptCipher) (kdfNativeId : ℕ) (password salt : Key)
    (kdf : KdfParams) (header : List UInt8) (dir : Direction) (isNull : Thrown) : E (List UInt8) :=
  match native.cryptHeader cipher.nativeIds kdfNativeId password salt kdf.iterations kdf.memoryKiB
      header dir with
  | .error message => throw (argon2Failed kdf message)
  | .ok none => throw isNull
  | .ok (some bytes) => pure bytes

/-- `sealed`: a fresh salt and the header encrypted under it. -/
def sealHeader (cipher : VeraCryptCipher) (kdfNativeId : ℕ) (password : Key) (kdf : KdfParams)
    (plain : List UInt8) : M (List UInt8) := do
  let salt ← nextBytes 64
  let enc ← cryptHeaderOrThrow native cipher kdfNativeId password salt kdf plain .encrypt
    ⟨.illegalState, "Header encryption failed"⟩
  return salt ++ enc

def headerGroup (header : List UInt8) : M (List UInt8) := do
  let group ← nextBytes HEADER_GROUP_BYTES
  return header ++ group.drop header.length

def create (partition : Slice) (password : Password) (pim : Option ℤ) (cipher : VeraCryptCipher)
    (hash : VeraCryptHash) (keyfiles : List Keyfile) : M NativeDevice := do
  require (cipher.isSupported = true) s!"{cipher.displayName} is not supported"
  require (hash.isSupported = true) s!"{hash.displayName} is not supported"
  let w ← get
  require (w.blockSize = SECTOR) "VeraCrypt volumes are created on 512-byte sectors only"
  let problem := passwordProblem password (utf8 password) pim (!keyfiles.isEmpty) hash
  throwIf (problem.isSome = true) ⟨.illegalArgument, problem.getD ""⟩
  let dataBytes := dataBytes partition.blockCount
  require (2 ^ 20 ≤ dataBytes) "The partition is too small for a VeraCrypt volume."
  let passwordBytes ← applyKeyfiles (utf8 password) keyfiles false
  let keyArea ← nextBytes KEY_AREA_BYTES
  let plain := plainHeader dataBytes keyArea
  let kdf := KdfParams.forVolume hash pim
  let kdfNativeId ← orThrow hash.kdfNativeId ⟨.illegalState, "kdfNativeId"⟩
  let primary ← sealHeader native cipher kdfNativeId passwordBytes kdf plain
  let backup ← sealHeader native cipher kdfNativeId passwordBytes kdf plain
  let group ← headerGroup primary
  partition.writeBlocks 0 group
  let group ← headerGroup backup
  partition.writeBlocks ((i64 (partition.blockCount * SECTOR - HEADER_GROUP_BYTES)).tdiv SECTOR) group
  return {
    blockSize := w.blockSize
    masterKey := keyArea.take cipher.keySizeBytes
    volumeDataOffset := HEADER_GROUP_BYTES / SECTOR
    decryptedBlockCount := dataBytes.toNat / SECTOR
    cipherNativeIds := cipher.nativeIds
    tweakDataOffset := HEADER_GROUP_BYTES / SECTOR }

/-! ### Unlocking -/

structure VolumeCandidate where
  startBlock : ℕ
  blockCount : Option ℕ

/-- `candidate.blockCount ?: (device.blockCount - candidate.startBlock)`. -/
def VolumeCandidate.blocks (c : VolumeCandidate) (w : Machine) : ℕ :=
  c.blockCount.getD (w.blockCount - c.startBlock)

/-- `VeraCryptUnlocker.unlock`; `contentResolver` says whether one was given. -/
def unlock (w : Machine) (candidate : VolumeCandidate) (password : Password) (pim : Option ℤ)
    (keyfiles : Option (List Keyfile)) (contentResolver : Bool) (cipher : VeraCryptCipher)
    (hash : VeraCryptHash) : E NativeDevice := do
  failIf (cipher.isSupported = false) ⟨.unsupportedAlgorithm,
    s!"{cipher.displayName} is not yet supported. Supported ciphers: " ++
      ", ".intercalate ((VeraCryptCipher.entries.filter (·.isSupported)).map (·.displayName))⟩
  failIf (hash.isSupported = false) ⟨.unsupportedAlgorithm,
    s!"{hash.displayName} is not yet supported. Supported hashes: " ++
      ", ".intercalate ((VeraCryptHash.entries.filter (·.isSupported)).map (·.displayName))⟩
  let keyfiles := if contentResolver then keyfiles.getD [] else []
  let passwordBytes ← applyKeyfiles (utf8 password) keyfiles true
  let kdf := KdfParams.forVolume hash pim
  let headerSector ← w.readBlocks candidate.startBlock 1
  let salt ← copyOfRange headerSector 0 64
  let encryptedHeader ← copyOfRange headerSector 64 512
  let kdfNativeId ← orThrow hash.kdfNativeId ⟨.illegalState, "kdfNativeId"⟩
  let decryptedHeader ← cryptHeaderOrThrow native cipher kdfNativeId passwordBytes salt kdf
    encryptedHeader .decrypt
    ⟨.illegalArgument, "Decryption failed internally"⟩
  failIf (decryptedHeader.take 4 ≠ [0x56, 0x45, 0x52, 0x41]) ⟨.illegalArgument,
    "Wrong password, PIM, keyfile, or cipher/hash selection (header could not be decrypted)."⟩
  let masterKey ← copyOfRange decryptedHeader 192 (192 + cipher.keySizeBytes)
  let dataOffsetSectors := 131072 / w.blockSize
  return {
    blockSize := w.blockSize
    masterKey := masterKey
    volumeDataOffset := candidate.startBlock + dataOffsetSectors
    decryptedBlockCount := candidate.blocks w - dataOffsetSectors
    cipherNativeIds := cipher.nativeIds
    tweakDataOffset := dataOffsetSectors }

end Programs

/-! ### The header on the partition -/

section Header

variable {native : Native} {utf8 : Password → Key}

lemma headerFields_length (data : ℤ) (keyArea : List UInt8) :
    (headerFields data keyArea).length = 188 := by
  simp [headerFields, bigEndian_length]

lemma plainHeader_length (data : ℤ) {keyArea : List UInt8} (h : keyArea.length = KEY_AREA_BYTES) :
    (plainHeader data keyArea).length = Native.headerEncryptedSize := by
  simp [plainHeader, headerFields_length, bigEndian_length, h, KEY_AREA_BYTES,
    Native.headerEncryptedSize]

lemma plainHeader_magic (data : ℤ) (keyArea : List UInt8) :
    (plainHeader data keyArea).take 4 = [0x56, 0x45, 0x52, 0x41] := by
  simp [plainHeader, headerFields]

lemma plainHeader_keyArea (data : ℤ) (keyArea : List UInt8) :
    (plainHeader data keyArea).drop 192 = keyArea :=
  List.drop_left' (by simp [headerFields_length, bigEndian_length])

lemma keySizeBytes_le (c : VeraCryptCipher) : c.keySizeBytes ≤ 192 := by cases c <;> decide

lemma cryptHeaderOrThrow_ok {cipher : VeraCryptCipher} {id : ℕ} {password salt : Key} {kdf : KdfParams}
    {header out : List UInt8} {dir : Direction} {e : Thrown} :
    cryptHeaderOrThrow native cipher id password salt kdf header dir e = .ok out ↔
      native.cryptHeader cipher.nativeIds id password salt kdf.iterations kdf.memoryKiB header dir =
        .ok (some out) := by
  unfold cryptHeaderOrThrow
  cases native.cryptHeader cipher.nativeIds id password salt kdf.iterations kdf.memoryKiB header dir with
  | error m => simp [throw, throwThe, MonadExceptOf.throw]
  | ok r => cases r <;> simp [throw, throwThe, MonadExceptOf.throw, pure, Except.pure]

/-- The header of a volume: a salt, and `plain` encrypted under the key of the password and the
salt. -/
structure SealedHeader (native : Native) (cipher : VeraCryptCipher) (id : ℕ) (password : Key)
    (kdf : KdfParams) (plain header : List UInt8) : Prop where
  length : header.length = SECTOR
  opens : native.cryptHeader cipher.nativeIds id password (header.take 64) kdf.iterations kdf.memoryKiB
    (header.drop 64) .decrypt = .ok (some plain)

variable {cipher : VeraCryptCipher} {id : ℕ} {password : Key} {kdf : KdfParams}
  {plain header : List UInt8} {w w' : Machine}

lemma sealHeader_ok (hplain : plain.length = Native.headerEncryptedSize)
    (h : sealHeader native cipher id password kdf plain w = .ok header w') :
    SealedHeader native cipher id password kdf plain header ∧ w' = w.drawn 64 := by
  unfold sealHeader at h
  rw [bind_run (nextBytes_run 64)] at h
  obtain ⟨enc, h1, h2⟩ := lift_bind_ok h
  have henc := cryptHeaderOrThrow_ok.1 h1
  cases h2
  obtain ⟨hlen, hdec⟩ := native.cryptHeader_undo hplain henc
  have hsalt : ((List.range 64).map w.random).length = 64 := by simp
  refine ⟨⟨?_, ?_⟩, rfl⟩
  · rw [List.length_append, hsalt, hlen]; rfl
  · rw [List.take_left' hsalt, List.drop_left' hsalt]
    exact hdec

lemma sealHeader_run {enc : List UInt8}
    (h : native.cryptHeader cipher.nativeIds id password ((List.range 64).map w.random) kdf.iterations
      kdf.memoryKiB plain .encrypt = .ok (some enc)) :
    ∃ header, sealHeader native cipher id password kdf plain w = .ok header (w.drawn 64) := by
  unfold sealHeader
  rw [bind_run (nextBytes_run 64), lift_bind_run (cryptHeaderOrThrow_ok.2 h)]
  exact ⟨_, rfl⟩

lemma headerGroup_run (header : List UInt8) (w : Machine) :
    ∃ group, headerGroup header w = .ok group (w.drawn HEADER_GROUP_BYTES) ∧
      (header.length ≤ HEADER_GROUP_BYTES → group.length = HEADER_GROUP_BYTES) ∧
      group.take header.length = header := by
  unfold headerGroup
  rw [bind_run (nextBytes_run _)]
  refine ⟨_, rfl, fun h => ?_, List.take_left' rfl⟩
  rw [List.length_append, List.length_drop, List.length_map, List.length_range]
  omega

lemma unlock_run {candidate : VolumeCandidate} {typed : Password} {pim : Option ℤ}
    {keyfiles : List Keyfile} {hash : VeraCryptHash} {data : ℤ} {keyArea : List UInt8}
    (hsize : w.blockSize = SECTOR) (hfits : candidate.startBlock + 1 ≤ w.blockCount)
    (hid : hash.kdfNativeId = some id) (hkey : keyArea.length = KEY_AREA_BYTES)
    (hsealed : SealedHeader native cipher id (pooled (utf8 typed) keyfiles)
      (KdfParams.forVolume hash pim) (plainHeader data keyArea)
        (w.bytes.slice (candidate.startBlock * SECTOR) SECTOR)) :
    unlock native utf8 w candidate typed pim (some keyfiles) true cipher hash = .ok {
      blockSize := SECTOR
      masterKey := keyArea.take cipher.keySizeBytes
      volumeDataOffset := candidate.startBlock + HEADER_GROUP_BYTES / SECTOR
      decryptedBlockCount := candidate.blocks w - HEADER_GROUP_BYTES / SECTOR
      cipherNativeIds := cipher.nativeIds
      tweakDataOffset := HEADER_GROUP_BYTES / SECTOR } := by
  have hread := Machine.readBlocks_run hfits
  rw [hsize, Nat.one_mul] at hread
  obtain ⟨header, hheader⟩ : ∃ header, w.bytes.slice (candidate.startBlock * SECTOR) SECTOR =
    header := ⟨_, rfl⟩
  rw [hheader] at hread hsealed
  have hlen : header.length = 512 := hsealed.length
  have hplain : (plainHeader data keyArea).length = 448 := plainHeader_length data hkey
  have hks := keySizeBytes_le cipher
  have hsalt : copyOfRange header 0 64 = .ok (header.take 64) :=
    copyOfRange_run (m := 0) (n := 64) (by omega) (by omega)
  have henc : copyOfRange header 64 512 = .ok (header.drop 64) := by
    rw [← List.take_of_length_le (l := header.drop 64) (i := 512 - 64) (by rw [List.length_drop]; omega)]
    exact copyOfRange_run (m := 64) (n := 512) (by omega) (by omega)
  have hmaster : copyOfRange (plainHeader data keyArea) 192 (192 + cipher.keySizeBytes) =
      .ok (keyArea.take cipher.keySizeBytes) := by
    have h := copyOfRange_run (l := plainHeader data keyArea) (m := 192) (n := 192 + cipher.keySizeBytes)
      (by omega) (by omega)
    rw [plainHeader_keyArea, Nat.add_sub_cancel_left] at h
    exact_mod_cast h
  unfold unlock
  rw [if_pos rfl, Option.getD_some, failIf_bind_run (by simp [VeraCryptCipher.isSupported]),
    failIf_bind_run (by simp [VeraCryptHash.isSupported, hid]), except_bind_run (applyKeyfiles_skip ..),
    except_bind_run hread, except_bind_run hsalt, except_bind_run henc, hid, except_bind_run orThrow_run,
    except_bind_run (cryptHeaderOrThrow_ok.2 hsealed.opens),
    failIf_bind_run (by rw [plainHeader_magic]; simp),
    except_bind_run hmaster, hsize]
  rfl

end Header

/-! ### What `create` leaves behind -/

section Created

variable {native : Native} {utf8 : Password → Key} {partition : Slice} {typed : Password}
  {pim : Option ℤ} {cipher : VeraCryptCipher} {hash : VeraCryptHash} {keyfiles : List Keyfile}
  {created : NativeDevice} {w w' : Machine}

/-- The size of an accepted data area: that of the partition without the header groups, up to a
wrap, in whole 4 KiB. -/
lemma dataBytes_eq {n : ℕ} (h : 2 ^ 20 ≤ dataBytes n) :
    ∃ v k : ℤ, v = n * 512 - 262144 - 2 ^ 64 * k ∧ 2 ^ 20 ≤ v ∧ v < 2 ^ 63 ∧
    dataBytes n = v / 4096 * 4096 := by
  unfold dataBytes at h ⊢
  obtain ⟨k, hk, -, hlt⟩ := i64_eq (n * SECTOR - 2 * HEADER_GROUP_BYTES)
  obtain ⟨v, hv⟩ : ∃ v, i64 (n * SECTOR - 2 * HEADER_GROUP_BYTES) = v := ⟨_, rfl⟩
  rw [hv] at h hk hlt ⊢
  simp only [SECTOR, HEADER_GROUP_BYTES] at hk
  rcases le_or_gt v 0 with hneg | hpos
  · rw [tdiv_of_nonpos hneg] at h
    omega
  · rw [Int.tdiv_eq_ediv_of_nonneg hpos.le] at h ⊢
    exact ⟨v, k, by omega, by omega, hlt, by omega⟩

/-- The data area and both header groups fit into the partition, also where its size in bytes
wraps. -/
lemma dataBytes_le {n : ℕ} (h : 2 ^ 20 ≤ dataBytes n) :
    2048 ≤ (dataBytes n).toNat / SECTOR ∧ (dataBytes n).toNat / SECTOR + 512 ≤ n := by
  obtain ⟨v, k, hv, hge, hlt, heq⟩ := dataBytes_eq h
  rw [heq]
  simp only [SECTOR]
  omega

lemma backup_start {n : ℕ} (h : 2 ^ 20 ≤ dataBytes n)
    (h0 : 0 ≤ (i64 (n * SECTOR - HEADER_GROUP_BYTES)).tdiv SECTOR) :
    256 ≤ (i64 (n * SECTOR - HEADER_GROUP_BYTES)).tdiv SECTOR := by
  obtain ⟨v, k, hv, hge, hlt, -⟩ := dataBytes_eq h
  obtain ⟨k', hk', hge', hlt'⟩ := i64_eq (n * SECTOR - HEADER_GROUP_BYTES)
  obtain ⟨u, hu⟩ : ∃ u, i64 (n * SECTOR - HEADER_GROUP_BYTES) = u := ⟨_, rfl⟩
  rw [hu] at h0 hk' hge' hlt' ⊢
  simp only [SECTOR, HEADER_GROUP_BYTES] at h0 hk' ⊢
  rcases le_or_gt u 0 with hneg | hpos
  · rw [tdiv_of_nonpos hneg] at h0 ⊢
    omega
  · rw [Int.tdiv_eq_ediv_of_nonneg hpos.le]
    omega

lemma backup_start_eq {n : ℕ} (h : 256 ≤ n) (hlong : n * SECTOR < 2 ^ 63) :
    (i64 (n * SECTOR - HEADER_GROUP_BYTES)).tdiv SECTOR = (n - 256 : ℕ) := by
  obtain ⟨k, hk, hge, hlt⟩ := i64_eq (n * SECTOR - HEADER_GROUP_BYTES)
  obtain ⟨u, hu⟩ : ∃ u, i64 (n * SECTOR - HEADER_GROUP_BYTES) = u := ⟨_, rfl⟩
  rw [hu] at hk hge hlt ⊢
  simp only [SECTOR, HEADER_GROUP_BYTES] at hk hlong ⊢
  rw [Int.tdiv_eq_ediv_of_nonneg (by omega)]
  omega

lemma first_sector {first k n : ℕ} {group group' : List UInt8} (hsize : w.blockSize = SECTOR)
    (hlen : SECTOR ≤ group.length) (hk : 1 ≤ k) :
    (((w.written first group).drawn n).written (first + k) group').bytes.slice (first * SECTOR) SECTOR =
      group.take SECTOR := by
  have hbehind :
      first * SECTOR + SECTOR ≤ (first + k) * ((w.written first group).drawn n).blockSize := by
    show first * SECTOR + SECTOR ≤ (first + k) * w.blockSize
    rw [hsize, ← Nat.succ_mul]
    exact Nat.mul_le_mul_right _ (by omega)
  have hread : (w.written first group).bytes.slice (first * w.blockSize) SECTOR = group.take SECTOR :=
    Machine.slice_written hlen
  rw [hsize] at hread
  exact (Machine.slice_written_outside (Or.inl hbehind)).trans hread

lemma headerSectors : HEADER_GROUP_BYTES / SECTOR = 256 := rfl

def createdDevice (partition : Slice) (cipher : VeraCryptCipher) (keyArea : List UInt8) :
    NativeDevice where
  blockSize := SECTOR
  masterKey := keyArea.take cipher.keySizeBytes
  volumeDataOffset := HEADER_GROUP_BYTES / SECTOR
  decryptedBlockCount := (dataBytes partition.blockCount).toNat / SECTOR
  cipherNativeIds := cipher.nativeIds
  tweakDataOffset := HEADER_GROUP_BYTES / SECTOR

/-- **What a run of `create` that returns leaves behind**: the device it returns, and a header on
the first sector of the partition that holds the same key area. -/
lemma create_ok (h : create native utf8 partition typed pim cipher hash keyfiles w = .ok created w') :
    2 ^ 20 ≤ dataBytes partition.blockCount ∧ w'.blockSize = SECTOR ∧ w'.blockCount = w.blockCount ∧
      partition.firstBlock + 1 ≤ w'.blockCount ∧
      ∃ keyArea id, keyArea.length = KEY_AREA_BYTES ∧ hash.kdfNativeId = some id ∧
        created = createdDevice partition cipher keyArea ∧
        SealedHeader native cipher id (pooled (utf8 typed) keyfiles) (KdfParams.forVolume hash pim)
          (plainHeader (dataBytes partition.blockCount) keyArea)
          (w'.bytes.slice (partition.firstBlock * SECTOR) SECTOR) := by
  unfold create at h
  obtain ⟨-, h⟩ := require_bind_ok h
  obtain ⟨-, h⟩ := require_bind_ok h
  rw [get_bind_run] at h
  obtain ⟨hsize, h⟩ := require_bind_ok h
  obtain ⟨-, h⟩ := throwIf_bind_ok h
  obtain ⟨hdata, h⟩ := require_bind_ok h
  obtain ⟨_, h1, h⟩ := lift_bind_ok h
  cases applyKeyfiles_ok h1
  rw [bind_run (nextBytes_run _)] at h
  obtain ⟨id, hid, h⟩ := lift_bind_ok h
  have hid := orThrow_ok hid
  obtain ⟨keyArea, hkeyArea⟩ : ∃ keyArea, (List.range KEY_AREA_BYTES).map w.random = keyArea := ⟨_, rfl⟩
  have hkey : keyArea.length = KEY_AREA_BYTES := by rw [← hkeyArea]; simp
  rw [hkeyArea] at h
  have hplain := plainHeader_length (dataBytes partition.blockCount) hkey
  obtain ⟨primary, w2, h2, h⟩ := bind_ok h
  obtain ⟨hprimary, rfl⟩ := sealHeader_ok hplain h2
  obtain ⟨backup, w3, h3, h⟩ := bind_ok h
  obtain ⟨hbackup, rfl⟩ := sealHeader_ok hplain h3
  -- the machine after the draws: only its random bytes are not those of the start
  obtain ⟨u, hu, husize, hucount⟩ : ∃ u, ((w.drawn KEY_AREA_BYTES).drawn 64).drawn 64 = u ∧
      u.blockSize = SECTOR ∧ u.blockCount = w.blockCount := ⟨_, rfl, hsize, rfl⟩
  rw [hu] at h
  obtain ⟨group, hgroup, hlen, htake⟩ := headerGroup_run primary u
  have hglen := hlen (by rw [hprimary.length]; decide)
  rw [bind_run hgroup] at h
  obtain ⟨_, w4, h4, h⟩ := bind_ok h
  obtain ⟨-, -, hfits, rfl⟩ := Slice.writeBlocks_ok h4
  obtain ⟨group', hgroup', -, -⟩ := headerGroup_run backup
    ((u.drawn HEADER_GROUP_BYTES).written (partition.firstBlock + (0 : ℤ).toNat) group)
  rw [bind_run hgroup'] at h
  obtain ⟨_, w5, h5, h⟩ := bind_ok h
  obtain ⟨hstart, -, -, rfl⟩ := Slice.writeBlocks_ok h5
  cases h
  have hfar := backup_start hdata hstart
  obtain ⟨k, hk⟩ :
    ∃ k, ((i64 (partition.blockCount * SECTOR - HEADER_GROUP_BYTES)).tdiv SECTOR).toNat = k :=
      ⟨_, rfl⟩
  have hhead :
    ((((u.drawn HEADER_GROUP_BYTES).written partition.firstBlock group).drawn
      HEADER_GROUP_BYTES).written (partition.firstBlock + k) group').bytes.slice
          (partition.firstBlock * SECTOR) SECTOR = primary := by
    rw [first_sector (w := u.drawn HEADER_GROUP_BYTES) husize (by rw [hglen]; decide) (by omega),
      ← hprimary.length, htake]
  have hfits' : partition.firstBlock + 0 + group.length / u.blockSize ≤ u.blockCount := hfits
  rw [husize, hglen] at hfits'
  refine ⟨hdata, husize, hucount, ?_, keyArea, id, hkey, hid, ?_, ?_⟩
  · exact Nat.le_trans (Nat.add_le_add_left (by decide) _) hfits'
  · unfold createdDevice
    rw [hsize]
  · rw [hk]
    exact hhead.symm ▸ hprimary

lemma writeGroup_run (partition : Slice) (start : ℕ) {header : List UInt8} (hsize : w.blockSize = SECTOR)
    (hlen : header.length ≤ HEADER_GROUP_BYTES) (hstart : start + 256 ≤ partition.blockCount)
    (hdrive : partition.firstBlock + partition.blockCount ≤ w.blockCount) :
    ∃ w', w'.blockSize = SECTOR ∧ w'.blockCount = w.blockCount ∧ ∀ {α : Type} (f : M α),
      (headerGroup header >>= fun group => partition.writeBlocks start group >>= fun _ => f) w =
        f w' := by
  obtain ⟨group, hgroup, hglen, -⟩ := headerGroup_run header w
  have hsize' : (w.drawn HEADER_GROUP_BYTES).blockSize = SECTOR := hsize
  have hwrite : partition.writeBlocks start group (w.drawn HEADER_GROUP_BYTES) =
      .ok ⟨⟩ ((w.drawn HEADER_GROUP_BYTES).written (partition.firstBlock + start) group) := by
    refine Slice.writeBlocks_run ?_ ?_ hdrive
    · rw [hglen hlen, hsize']; rfl
    · rw [hglen hlen, hsize']; exact hstart
  refine ⟨(w.drawn HEADER_GROUP_BYTES).written (partition.firstBlock + start) group, hsize, rfl,
    fun f => ?_⟩
  rw [bind_run hgroup, bind_run hwrite]

lemma create_run {id : ℕ} (hsize : w.blockSize = SECTOR) (hid : hash.kdfNativeId = some id)
    (hpassword : passwordProblem typed (utf8 typed) pim (!keyfiles.isEmpty) hash = none)
    (hdata : 2 ^ 20 ≤ dataBytes partition.blockCount) (hlong : partition.blockCount * SECTOR < 2 ^ 63)
    (hdrive : partition.firstBlock + partition.blockCount ≤ w.blockCount)
    {key : Key} (hkey : applyKeyfiles (utf8 typed) keyfiles false = .ok key)
    (hencrypts : ∀ password salt header, header.length = Native.headerEncryptedSize →
      ∃ enc, native.cryptHeader cipher.nativeIds id password salt
      (KdfParams.forVolume hash pim).iterations
        (KdfParams.forVolume hash pim).memoryKiB header .encrypt = .ok (some enc)) :
    ∃ created w', create native utf8 partition typed pim cipher hash keyfiles w = .ok created w' := by
  obtain ⟨hge, hle⟩ := dataBytes_le hdata
  obtain ⟨keyArea, hkeyArea⟩ : ∃ keyArea, (List.range KEY_AREA_BYTES).map w.random = keyArea := ⟨_, rfl⟩
  have hplain := plainHeader_length (dataBytes partition.blockCount)
    (show keyArea.length = KEY_AREA_BYTES by rw [← hkeyArea]; simp)
  obtain ⟨_, henc⟩ := hencrypts key ((List.range 64).map (w.drawn KEY_AREA_BYTES).random) _ hplain
  obtain ⟨primary, hprimary⟩ := sealHeader_run henc
  obtain ⟨_, henc'⟩ :=
    hencrypts key ((List.range 64).map ((w.drawn KEY_AREA_BYTES).drawn 64).random) _ hplain
  obtain ⟨backup, hbackup⟩ := sealHeader_run henc'
  have hplen := (sealHeader_ok hplain hprimary).1.length
  have hblen := (sealHeader_ok hplain hbackup).1.length
  obtain ⟨w1, hsize1, hcount1, hrun1⟩ := writeGroup_run partition 0
    (w := ((w.drawn KEY_AREA_BYTES).drawn 64).drawn 64) hsize (by rw [hplen]; decide) (by omega) hdrive
  obtain ⟨w2, -, -, hrun2⟩ := writeGroup_run partition (partition.blockCount - 256) hsize1
    (by rw [hblen]; decide) (by omega) (by rw [hcount1]; exact hdrive)
  unfold create
  rw [require_bind_run (by rfl), require_bind_run (by simp [VeraCryptHash.isSupported, hid]),
    get_bind_run, require_bind_run hsize, throwIf_bind_run (by simp [hpassword]),
    require_bind_run hdata, lift_bind_run hkey, bind_run (nextBytes_run _), hid,
    lift_bind_run orThrow_run, hkeyArea, bind_run hprimary, bind_run hbackup]
  rw [Nat.cast_zero] at hrun1
  rw [hrun1, backup_start_eq (by omega) hlong, hrun2]
  exact ⟨_, _, rfl⟩

end Created

/-! ### The created and the unlocked volume -/

/-- The blocks of a partition that hold its headers: its first and its last 131072 bytes. -/
def InHeaders (partition : Slice) (block : ℤ) : Prop :=
  (partition.firstBlock ≤ block ∧ block < partition.firstBlock + 256) ∨
    (partition.firstBlock + partition.blockCount - 256 ≤ block ∧
      block < partition.firstBlock + partition.blockCount)

/-- The device accepts a read or a write of `count` blocks from `start` on that goes to a header of
the partition. -/
def TouchesHeaders (d : NativeDevice) (partition : Slice) (start count : ℤ) : Prop :=
  d.inRange start count = true ∧ ∃ i, 0 ≤ i ∧ i < count ∧
  InHeaders partition (d.physicalStartBlock start + i)

section Touches

variable {partition : Slice} {d : NativeDevice} {start count : ℤ}

/-- A device whose data begin behind the header group accepts an access to the backup header just if
it is larger than the data area: a `Long` that has wrapped is far from both headers. -/
lemma touchesHeaders_iff (hlong : (partition.firstBlock + partition.blockCount) * SECTOR < 2 ^ 63)
    (hoffset : d.volumeDataOffset = partition.firstBlock + 256)
    (hcount : d.decryptedBlockCount + 256 ≤ partition.blockCount) (hstart : start < 2 ^ 63)
    (hint : count < 2 ^ 31) :
    TouchesHeaders d partition start count ↔ 0 ≤ start ∧ 0 < count ∧
      partition.blockCount < start + count + 512 ∧ start + count ≤ d.decryptedBlockCount := by
  simp only [TouchesHeaders, NativeDevice.inRange, NativeDevice.physicalStartBlock, InHeaders,
    hoffset, decide_eq_true_eq]
  simp only [SECTOR] at hlong
  constructor
  · rintro ⟨⟨h0, -, hin⟩, i, hi0, hi, hplace⟩
    obtain ⟨k, hk, hlo, hhi⟩ := i64_eq (start + count)
    obtain ⟨l, hl, hlo', hhi'⟩ := i64_eq (start + (partition.firstBlock + 256 : ℕ))
    rcases hplace with h | h
    · omega
    · refine ⟨h0, by omega, ?_, ?_⟩ <;> omega
  · rintro ⟨h0, hpos, hend, hin⟩
    rw [i64_of_lt (by omega) (by omega), i64_of_lt (by omega) (by omega)]
    exact ⟨⟨h0, hpos.le, hin⟩, count - 1, by omega, by omega, Or.inr ⟨by omega, by omega⟩⟩

end Touches

section Unlocked

variable {native : Native} {utf8 : Password → Key} {partition : Slice} {typed : Password}
  {pim : Option ℤ} {cipher : VeraCryptCipher} {hash : VeraCryptHash}
  {keyfiles keyfiles' : List Keyfile} {candidate : VolumeCandidate} {created : NativeDevice}
  {w w' : Machine}

/-- **The unlocked volume is never the created one.** Whenever `create` has returned, unlocking the
partition with the same credentials (the keyfiles in any order) gives a device with the same key,
mapping and tweaks, and 256 blocks more or still more. The created device accepts no access to a
header. The unlocked one accepts every access that ends in the backup header, and so always its last
block. -/
theorem unlock_created
    (h : create native utf8 partition typed pim cipher hash keyfiles w = .ok created w')
    (hlong : (partition.firstBlock + partition.blockCount) * SECTOR < 2 ^ 63)
    (hkeyfiles : keyfiles.Perm keyfiles') (hstart : candidate.startBlock = partition.firstBlock)
    (hblocks : candidate.blocks w' = partition.blockCount) :
    ∃ unlocked, unlock native utf8 w' candidate typed pim (some keyfiles') true cipher hash =
      .ok unlocked ∧ SameVolume partition.firstBlock created unlocked ∧
      created.decryptedBlockCount + 256 ≤ unlocked.decryptedBlockCount ∧
      (∀ start count, start < 2 ^ 63 → count < 2 ^ 31 →
        ¬TouchesHeaders created ⟨0, partition.blockCount⟩ start count ∧
        (TouchesHeaders unlocked partition start count ↔ 0 ≤ start ∧ 0 < count ∧
          partition.blockCount < start + count + 512 ∧ start + count + 256 ≤ partition.blockCount)) ∧
      TouchesHeaders unlocked partition (partition.blockCount - 257) 1 := by
  obtain ⟨hdata, hsize, -, hfits, keyArea, id, hkey, hid, rfl, hsealed⟩ := create_ok h
  obtain ⟨hge, hle⟩ := dataBytes_le hdata
  rw [pooled_perm hkeyfiles] at hsealed
  rw [← hstart] at hfits hsealed
  -- the device of `unlock`: the data area reaches up to the end of the partition
  obtain ⟨unlocked, hunlocked, hunlock⟩ : ∃ unlocked, unlocked =
    { (createdDevice partition cipher keyArea).onDrive
      partition.firstBlock with decryptedBlockCount := partition.blockCount - HEADER_GROUP_BYTES /
        SECTOR } ∧
      unlock native utf8 w' candidate typed pim (some keyfiles') true cipher hash = .ok unlocked := by
    refine ⟨_, rfl, ?_⟩
    rw [unlock_run hsize hfits hid hkey hsealed, hstart, hblocks]
    rfl
  have hsame : SameVolume partition.firstBlock (createdDevice partition cipher keyArea) unlocked := by
    rw [hunlocked]
    exact ⟨rfl, rfl, rfl, NativeDevice.physicalStartBlock_add rfl, fun _ => rfl⟩
  have htouches {start count : ℤ} (hs : start < 2 ^ 63) (hc : count < 2 ^ 31) :
      TouchesHeaders unlocked partition start count ↔ 0 ≤ start ∧ 0 < count ∧
        partition.blockCount < start + count + 512 ∧ start + count + 256 ≤ partition.blockCount := by
    have hcount : unlocked.decryptedBlockCount = partition.blockCount - 256 := by
      rw [hunlocked, headerSectors]
    have hoffset : unlocked.volumeDataOffset = partition.firstBlock + 256 := by
      rw [hunlocked]
      exact congrArg (partition.firstBlock + ·) headerSectors
    rw [touchesHeaders_iff hlong hoffset (by omega) hs hc, hcount]
    omega
  have hspared {start count : ℤ} (hs : start < 2 ^ 63) (hc : count < 2 ^ 31) :
      ¬TouchesHeaders (createdDevice partition cipher keyArea)
          ⟨0, partition.blockCount⟩ start count := by
    have hcount : (createdDevice partition cipher keyArea).decryptedBlockCount + 512 ≤
      partition.blockCount := hle
    have hlong' : (0 + partition.blockCount) * SECTOR < 2 ^ 63 :=
      Nat.lt_of_le_of_lt (Nat.mul_le_mul_right _ (Nat.add_le_add_right (Nat.zero_le _) _)) hlong
    have hoffset : (createdDevice partition cipher keyArea).volumeDataOffset = 0 + 256 := headerSectors
    intro htouch
    have := ((@touchesHeaders_iff ⟨0, partition.blockCount⟩ _ start count) hlong' hoffset
      (by dsimp only; omega) hs hc).1 htouch
    dsimp only at this
    omega
  refine ⟨unlocked, hunlock, hsame, ?_, fun start count hs hc => ⟨hspared hs hc, htouches hs hc⟩, ?_⟩
  · rw [hunlocked, headerSectors]
    show (dataBytes partition.blockCount).toNat / SECTOR + 256 ≤ partition.blockCount - 256
    omega
  · simp only [SECTOR] at hlong
    exact (htouches (by omega) (by omega)).2 ⟨by omega, by omega, by omega, by omega⟩

end Unlocked

/-! ### A volume of 2560 sectors -/

def sampleUtf8 : Password → Key := List.map fun c => UInt8.ofNat c.toNat

/-- A drive of 2560 sectors, one partition over all of it, and a password. -/
def sampleMachine : Machine := ⟨SECTOR, 2560, fun _ => 0, fun _ => 7, by decide⟩

def sampleSlice : Slice := ⟨0, 2560⟩

lemma sample_created : ∃ created w',
    create plainNative sampleUtf8 sampleSlice [0x70] none .aes .sha512 [] sampleMachine =
      .ok created w' := by
  refine create_run rfl rfl (by decide) (by decide) (by decide) (by decide) rfl ?_
  intro password salt header hlen
  refine ⟨header.take Native.headerEncryptedSize, ?_⟩
  unfold Native.cryptHeader
  rw [if_neg (by rw [hlen]; decide)]
  rfl

/-- **The unlocked device reaches into the backup header.** A partition of 2560 sectors gives a
volume of 2048 blocks when it is created and of 2304 when it is unlocked. The access to block 2303,
which the created device refuses, goes to sector 2559 of the partition, the last one of the backup
header. -/
theorem unlocked_past_end : ∃ created unlocked w',
    create plainNative sampleUtf8 sampleSlice [0x70] none .aes .sha512 [] sampleMachine =
      .ok created w' ∧
      unlock plainNative sampleUtf8 w' ⟨0, some 2560⟩ [0x70] none (some []) true .aes .sha512 =
        .ok unlocked ∧
      created.decryptedBlockCount = 2048 ∧ unlocked.decryptedBlockCount = 2304 ∧
      created.inRange 2303 1 = false ∧ unlocked.inRange 2303 1 = true ∧
      unlocked.physicalStartBlock 2303 = 2559 := by
  obtain ⟨created, w', h⟩ := sample_created
  obtain ⟨-, hsize, -, hfits, keyArea, id, hkey, hid, rfl, hsealed⟩ := create_ok h
  have hdata : (dataBytes sampleSlice.blockCount).toNat / SECTOR = 2048 := by decide
  refine ⟨_, _, w', h, unlock_run hsize hfits hid hkey hsealed, hdata, ?_⟩
  simp only [NativeDevice.inRange, NativeDevice.physicalStartBlock, VolumeCandidate.blocks,
    createdDevice, hdata, headerSectors, Option.getD_some, true_and, decide_eq_false_iff_not]
  exact ⟨by decide, decide_eq_true (by decide), by decide⟩

theorem unlock_created_sample : ∃ created unlocked w',
    create plainNative sampleUtf8 sampleSlice [0x70] none .aes .sha512 [] sampleMachine =
      .ok created w' ∧
      unlock plainNative sampleUtf8 w' ⟨0, none⟩ [0x70] none (some []) true .aes .sha512 = .ok unlocked ∧
      SameVolume 0 created unlocked ∧ ¬TouchesHeaders created sampleSlice 2303 1 ∧
      TouchesHeaders unlocked sampleSlice 2303 1 := by
  obtain ⟨created, w', h⟩ := sample_created
  have hcount := (create_ok h).2.2.1
  have hblocks : (VolumeCandidate.mk 0 none).blocks w' = sampleSlice.blockCount := by
    show w'.blockCount - 0 = 2560
    rw [hcount]
    rfl
  obtain ⟨unlocked, hunlock, hsame, -, htouches, hlast⟩ :=
    unlock_created h (by decide) (List.Perm.refl []) rfl hblocks
  exact ⟨created, unlocked, w', h, hunlock, hsame, (htouches 2303 1 (by decide) (by decide)).1, hlast⟩

end OtgMaster.Veracrypt
