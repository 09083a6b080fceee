import OtgMaster.Bitlocker.BlockDevice
import OtgMaster.Luks.Unlocker
import OtgMaster.Veracrypt.Volume

/-!
The three block devices that the unlockers make over a partition of the drive, as programs on the
drive: `NativeDecryptedBlockDevice` for VeraCrypt and LUKS, `LargeSectorXtsDevice` for LUKS2 with
sectors larger than 512 bytes, and `BitLockerBlockDevice`. The offsets come from the headers as
`Long`s, and may be negative.

`MadeFrom` says with which values each is made; that the unlockers make no others is `luks_made` and
`veracrypt_made`.
-/

namespace OtgMaster.Unlocked

open Lib Block Veracrypt Luks Bitlocker

/-! ### VeraCrypt and LUKS -/

structure NativeDecryptedBlockDevice where
  masterKey : Key
  volumeDataOffset : ℤ
  decryptedBlockCount : ℤ
  cipherNativeIds : List ℕ
  tweakDataOffset : ℤ

namespace NativeDecryptedBlockDevice

variable (native : Native) (d : NativeDecryptedBlockDevice)

def firstTweak (bs : ℕ) (startBlock : ℤ) : ℕ :=
  u64 (d.tweakDataOffset * (bs / 512 : ℕ) + startBlock * (bs / 512 : ℕ))

def readBlocks (startBlock blockCount : ℤ) : D (List UInt8) := do
  let bs := (← get).drive.blockSize
  requireInRange d.decryptedBlockCount startBlock blockCount "read"
  let physicalStartBlock := i64 (startBlock + d.volumeDataOffset)
  let encryptedData ← readDrive physicalStartBlock blockCount
  orThrow (native.cryptSectorsInPlace d.cipherNativeIds .decrypt d.masterKey
    (d.firstTweak bs startBlock) encryptedData encryptedData.length)
      ⟨.illegalState, s!"Decryption failed at physical sector {physicalStartBlock} (rc=-1)"⟩

def writeBlocks (startBlock : ℤ) (data : List UInt8) : D PUnit := do
  let bs := (← get).drive.blockSize
  requireInRange d.decryptedBlockCount startBlock (data.length / bs : ℕ) "write"
  let physicalStartBlock := i64 (startBlock + d.volumeDataOffset)
  let encryptedData ← orThrow (native.cryptSectorsInPlace d.cipherNativeIds .encrypt d.masterKey
    (d.firstTweak bs startBlock) data data.length)
    ⟨.illegalState, s!"Encryption failed at physical sector {physicalStartBlock} (rc=-1)"⟩
  writeDrive physicalStartBlock encryptedData

def toDevice (bs : ℕ) : NativeDevice :=
  ⟨bs, d.masterKey, d.volumeDataOffset.toNat, d.decryptedBlockCount.toNat, d.cipherNativeIds,
    d.tweakDataOffset.toNat⟩

end NativeDecryptedBlockDevice

/-! ### LUKS2 with large sectors -/

structure LargeSectorXtsDevice where
  payloadStartBlock : ℤ
  payloadBlocks : ℤ
  sectorSize : ℕ
  ivTweak : ℤ
  cipher : SectorCipher sectorSize

namespace LargeSectorXtsDevice

variable (d : LargeSectorXtsDevice)

def blockCount (bs : ℕ) : ℤ :=
  i64 (d.payloadBlocks.tdiv (d.sectorSize / bs : ℕ) * (d.sectorSize / bs : ℕ))

def readWhole (bs : ℕ) (fromByte toByte : ℤ) : D (List UInt8) := do
  let data ← readDrive (i64 (d.payloadStartBlock + fromByte.tdiv bs)) (i32 ((toByte - fromByte).tdiv bs))
  orThrow (d.cipher.cryptSectors false (d.ivTweak + fromByte.tdiv d.sectorSize) data)
    ⟨.io, s!"LUKS2 decryption failed at byte {fromByte} (rc=-1)"⟩

def readBlocks (startBlock blockCount : ℤ) : D (List UInt8) := do
  let bs := (← get).drive.blockSize
  requireInRange (d.blockCount bs) startBlock blockCount "read"
  let fromByte := i64 (startBlock * bs)
  let toByte := i64 (fromByte + blockCount * bs)
  let aFrom := floorTo d.sectorSize fromByte
  let aTo := ceilTo d.sectorSize toByte
  let plain ← d.readWhole bs aFrom aTo
  if aFrom = fromByte ∧ aTo = toByte then return plain
  else copyOfRange plain (i32 (fromByte - aFrom)) (i32 (toByte - aFrom))

def writeBlocks (startBlock : ℤ) (data : List UInt8) : D PUnit := do
  let bs := (← get).drive.blockSize
  requireInRange (d.blockCount bs) startBlock (data.length / bs : ℕ) "write"
  let fromByte := i64 (startBlock * bs)
  let toByte := i64 (fromByte + data.length)
  let aFrom := floorTo d.sectorSize fromByte
  let aTo := ceilTo d.sectorSize toByte
  let buf ← if aFrom = fromByte ∧ aTo = toByte then pure data
    else do
      let whole ← d.readWhole bs aFrom aTo
      arraycopy data whole (i32 (fromByte - aFrom))
  let buf ← orThrow (d.cipher.cryptSectors true (d.ivTweak + aFrom.tdiv d.sectorSize) buf)
    ⟨.io, s!"LUKS2 encryption failed at byte {aFrom} (rc=-1)"⟩
  writeDrive (i64 (d.payloadStartBlock + aFrom.tdiv bs)) buf

end LargeSectorXtsDevice

/-! ### The volumes that the unlockers make -/

inductive Volume where
  | native (library : Native) (d : NativeDecryptedBlockDevice)
  | largeSector (d : LargeSectorXtsDevice)
  | bitlocker (d : BitLockerBlockDevice)

/-- A request served by a volume, its answer left out. -/
def Volume.serve : Volume → Request → D PUnit
  | .native library d, .read start count => do let _ ← d.readBlocks library start count
  | .native library d, .write start data => d.writeBlocks library start data
  | .largeSector d, .read start count => do let _ ← d.readBlocks start count
  | .largeSector d, .write start data => d.writeBlocks start data
  | .bitlocker d, .read start count => do let _ ← d.readBlocks start count
  | .bitlocker d, .write start data => d.writeBlocks start data

/-- The blocks of the drive before the payload of a LUKS volume. -/
def payloadOffsetBlocks (bs : ℕ) (payloadOffsetSectors : ℤ) : ℤ :=
  (i64 (payloadOffsetSectors * 512)).tdiv bs

/-- The device of a volume whose data starts `offset` blocks into the partition. -/
def decryptedAt (p : Slice) (offset : ℤ) (masterKey : Key) (ids : List ℕ) (tweakDataOffset : ℤ) :
    NativeDecryptedBlockDevice where
  masterKey := masterKey
  volumeDataOffset := i64 (p.firstBlock + offset)
  decryptedBlockCount := i64 (p.blockCount - offset)
  cipherNativeIds := ids
  tweakDataOffset := tweakDataOffset

/-- The volumes that the unlockers make from the partition `p` of a drive of blocks of `bs`
bytes. -/
inductive MadeFrom (bs : ℕ) (p : Slice) : Volume → Prop
  | veracrypt (library : Native) (masterKey : Key) (ids : List ℕ) :
      MadeFrom bs p (.native library (decryptedAt p (131072 / bs : ℕ) masterKey ids (131072 / bs : ℕ)))
  | luks (library : Native) (masterKey : Key) (payloadOffsetSectors : ℤ)
      (hblocks : (i64 (payloadOffsetSectors * 512)).tmod bs = 0) :
      MadeFrom bs p
        (.native library
          (decryptedAt p (payloadOffsetBlocks bs payloadOffsetSectors) masterKey aesOnly 0))
  | largeSector (payloadOffsetSectors ivTweak : ℤ)
      {sectorSize : ℕ} (hsize : sectorSize ∈ [1024, 2048, 4096]) (hblocks : sectorSize % bs = 0)
        (cipher : SectorCipher sectorSize) :
      MadeFrom bs p (.largeSector ⟨i64 (p.firstBlock + payloadOffsetBlocks bs payloadOffsetSectors),
        i64 (p.blockCount - payloadOffsetBlocks bs payloadOffsetSectors), sectorSize, ivTweak, cipher⟩)
  | bitlocker (d : BitLockerBlockDevice) (hstart : d.startBlock = p.firstBlock)
      (hcount : d.partitionBlocks = p.blockCount) (hoffset : d.header.volumeHeaderOffset < 2 ^ 63) :
      MadeFrom bs p (.bitlocker d)

inductive Shows (bs : ℕ) : Opened → Volume → Prop
  | crypto (library : Native) (d : NativeDecryptedBlockDevice) :
    Shows bs (.crypto (d.toDevice bs)) (.native library d)
  | largeSector (d : LargeSectorXtsDevice) (masterKey : Key) :
      Shows bs (.largeSector ⟨d.payloadStartBlock, d.payloadBlocks, masterKey, d.sectorSize,
        d.ivTweak⟩) (.largeSector d)

section Made

variable {w : Machine} {startBlock : ℕ} {blockCount : Option ℕ}

lemma payloadOffsetBlocks_bounds {bs : ℕ} (hbs : 512 ≤ bs) (n : ℤ) :
    -2 ^ 54 ≤ payloadOffsetBlocks bs n ∧ payloadOffsetBlocks bs n ≤ 2 ^ 54 := by
  obtain ⟨-, -, hlo, hhi⟩ := i64_eq (n * 512)
  have habs : (payloadOffsetBlocks bs n).natAbs ≤ 2 ^ 63 / 512 := by
    unfold payloadOffsetBlocks
    rw [Int.natAbs_tdiv, Int.natAbs_natCast]
    exact (Nat.div_le_div_left hbs (by decide)).trans (Nat.div_le_div_right (by omega))
  omega

lemma place_of_payload (hbs : 512 ≤ w.blockSize) {p : Slice}
    (hp : p.firstBlock + p.blockCount ≤ w.blockCount) (n : ℤ) :
    i64 (p.firstBlock + payloadOffsetBlocks w.blockSize n) = p.firstBlock +
      payloadOffsetBlocks w.blockSize n ∧
      i64 (p.blockCount - payloadOffsetBlocks w.blockSize n) =
        p.blockCount - payloadOffsetBlocks w.blockSize n := by
  obtain ⟨hlo, hhi⟩ := payloadOffsetBlocks_bounds hbs n
  have hblocks : w.blockCount * 512 < 2 ^ 63 := Nat.lt_of_le_of_lt (Nat.mul_le_mul_left _ hbs) w.offsets
  exact ⟨i64_of_range (by omega) (by omega), i64_of_range (by omega) (by omega)⟩

lemma makeCryptoDevice_shows (native : Native) {masterKey : Key} {n : ℤ} {opened : Opened}
    (hbs : 512 ≤ w.blockSize) (hp : startBlock + totalBlocks w startBlock blockCount ≤ w.blockCount)
    (h : makeCryptoDevice w startBlock blockCount masterKey n = .ok opened) :
    (i64 (n * 512)).tmod w.blockSize = 0 ∧
      Shows w.blockSize opened
        (.native native
          (decryptedAt ⟨startBlock, totalBlocks w startBlock blockCount⟩
            (payloadOffsetBlocks w.blockSize n) masterKey aesOnly 0)) := by
  obtain ⟨_, hblocks, h⟩ := except_bind_ok h
  cases h
  obtain ⟨hstart, hcount⟩ :=
    place_of_payload hbs (p := ⟨startBlock, totalBlocks w startBlock blockCount⟩) hp n
  have hshows :=
    @Shows.crypto w.blockSize native
      (decryptedAt ⟨startBlock, totalBlocks w startBlock blockCount⟩
        (payloadOffsetBlocks w.blockSize n) masterKey aesOnly 0)
  unfold NativeDecryptedBlockDevice.toDevice decryptedAt at hshows
  rw [hstart, hcount] at hshows
  refine ⟨require_ok hblocks, ?_⟩
  unfold decryptedAt
  rw [hstart, hcount]
  exact hshows

lemma makeLargeSectorDevice_shows {jdk : Jdk} {masterKey : Key} {hdr : Luks2} {opened : Opened}
    (xts : ∀ n, SectorCipher n) (hbs : 512 ≤ w.blockSize)
    (hp : startBlock + totalBlocks w startBlock blockCount ≤ w.blockCount) (hsize : 0 ≤ hdr.sectorSize)
    (h : makeLargeSectorDevice jdk w startBlock blockCount masterKey hdr = .ok opened) :
    hdr.sectorSize.toNat % w.blockSize = 0 ∧
      Shows w.blockSize opened
        (.largeSector ⟨i64 (startBlock + payloadOffsetBlocks w.blockSize hdr.payloadOffsetSectors),
          i64 (totalBlocks w startBlock blockCount - payloadOffsetBlocks w.blockSize
            hdr.payloadOffsetSectors),
        hdr.sectorSize.toNat, hdr.ivTweak, xts hdr.sectorSize.toNat⟩) := by
  obtain ⟨-, h⟩ := failIf_bind_ok h
  obtain ⟨_, hblocks, h⟩ := except_bind_ok h
  have hblocks := require_ok hblocks
  cases h
  obtain ⟨sectorSize, hnat⟩ := Int.eq_ofNat_of_zero_le hsize
  rw [hnat] at hblocks ⊢
  obtain ⟨hstart, hcount⟩ :=
    place_of_payload hbs (p := ⟨startBlock, totalBlocks w startBlock blockCount⟩) hp
    hdr.payloadOffsetSectors
  have hshows := @Shows.largeSector w.blockSize ⟨i64 (startBlock + payloadOffsetBlocks w.blockSize
    hdr.payloadOffsetSectors), i64 (totalBlocks w startBlock blockCount - payloadOffsetBlocks w.blockSize
    hdr.payloadOffsetSectors), sectorSize, hdr.ivTweak, xts sectorSize⟩ masterKey
  constructor
  · rw [← Int.ofNat_tmod] at hblocks
    exact Int.ofNat_eq_zero.1 hblocks
  · dsimp only at hstart hcount hshows
    rw [hstart, hcount] at hshows
    rw [hstart, hcount]
    exact hshows

/-- What `LuksUnlocker` returns is made as `MadeFrom` says. -/
theorem luks_made {jdk : Jdk} {native : Native} {password : List UInt8} {opened : Opened}
    (xts : ∀ n, SectorCipher n) (hbs : 512 ≤ w.blockSize)
    (hp : startBlock + totalBlocks w startBlock blockCount ≤ w.blockCount)
    (h : Luks.unlock jdk native w startBlock blockCount password = .ok opened) :
    ∃ v, MadeFrom w.blockSize ⟨startBlock, totalBlocks w startBlock blockCount⟩ v ∧
    Shows w.blockSize opened v := by
  obtain ⟨headerData, hread, -⟩ := except_bind_ok h
  rcases unlock_openedFrom hread h with ⟨-, -, -, -, -, hdevice⟩ | ⟨-, hsize, -, -, -, hdevice⟩
  · obtain ⟨hblocks, hshows⟩ := makeCryptoDevice_shows native hbs hp hdevice
    exact ⟨_, .luks native _ _ hblocks, hshows⟩
  · simp only [List.mem_cons, List.not_mem_nil, or_false] at hsize
    unfold luks2Device at hdevice
    split at hdevice
    · obtain ⟨hblocks, hshows⟩ := makeLargeSectorDevice_shows xts hbs hp (by omega) hdevice
      exact ⟨_, .largeSector _ _ (by simp; omega) hblocks _, hshows⟩
    · obtain ⟨hblocks, hshows⟩ := makeCryptoDevice_shows native hbs hp hdevice
      exact ⟨_, .luks native _ _ hblocks, hshows⟩

/-- What `VeraCryptUnlocker` returns is made as `MadeFrom` says. -/
theorem veracrypt_made {native : Native} {utf8 : Password → Key} {candidate : VolumeCandidate}
    {typed : Password} {pim : Option ℤ} {keyfiles : Option (List Keyfile)} {resolver : Bool}
    {cipher : VeraCryptCipher} {hash : VeraCryptHash} {device : NativeDevice}
    (hp : candidate.startBlock + candidate.blocks w ≤ w.blockCount) (hbs : 512 ≤ w.blockSize)
    (h : Veracrypt.unlock native utf8 w candidate typed pim keyfiles resolver cipher hash =
      .ok device) :
    ∃ d, MadeFrom w.blockSize ⟨candidate.startBlock, candidate.blocks w⟩ (.native native d) ∧
      device = d.toDevice w.blockSize := by
  unfold Veracrypt.unlock at h
  obtain ⟨-, h⟩ := failIf_bind_ok h
  obtain ⟨-, h⟩ := failIf_bind_ok h
  obtain ⟨_, -, h⟩ := except_bind_ok h
  obtain ⟨_, -, h⟩ := except_bind_ok h
  obtain ⟨_, -, h⟩ := except_bind_ok h
  obtain ⟨_, -, h⟩ := except_bind_ok h
  obtain ⟨_, -, h⟩ := except_bind_ok h
  obtain ⟨_, -, h⟩ := except_bind_ok h
  obtain ⟨-, h⟩ := failIf_bind_ok h
  obtain ⟨masterKey, -, h⟩ := except_bind_ok h
  cases h
  refine ⟨_, .veracrypt native masterKey cipher.nativeIds, ?_⟩
  have hblocks : w.blockCount * 512 < 2 ^ 63 := Nat.lt_of_le_of_lt (Nat.mul_le_mul_left _ hbs) w.offsets
  have hoffset : 131072 / w.blockSize ≤ 131072 := Nat.div_le_self ..
  unfold NativeDecryptedBlockDevice.toDevice decryptedAt
  dsimp only
  generalize 131072 / w.blockSize = offset at *
  rw [i64_of_range (by omega) (by omega), i64_of_range (by omega) (by omega), Int.toNat_natCast,
    ← Int.natCast_add, Int.toNat_natCast, Int.toNat_sub]

end Made

end OtgMaster.Unlocked
