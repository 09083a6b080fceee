import OtgMaster.Block.CachedDevice
import OtgMaster.Block.Drive

/-!
`NativeDecryptedBlockDevice`: a decrypted volume as a block device over the drive it lies on. A
block of the volume is a block of the drive further on, and it is encrypted under the master key
with a tweak counted from the start of the volume.
-/

namespace OtgMaster.Veracrypt

open Block

abbrev Key := List UInt8

inductive Direction where
  | decrypt
  | encrypt
  deriving DecidableEq

/-- `VeraCryptNative.cryptSectorsInPlace` on blocks of type `β`: the ids of the ciphers, the
direction, the key, the first tweak and the data; `none` for an error code. -/
abbrev CryptSectors (β : Type) := List ℕ → Direction → Key → ℕ → List β → Option (List β)

/-- The parameters of a `NativeDecryptedBlockDevice`; `blockSize` is that of the device below. -/
structure NativeDevice where
  blockSize : ℕ
  masterKey : Key
  volumeDataOffset : ℕ
  decryptedBlockCount : ℕ
  cipherNativeIds : List ℕ
  tweakDataOffset : ℕ
  deriving DecidableEq

namespace NativeDevice

variable {β : Type} (d : NativeDevice)

/-- `requireInRange`, whose sum is a `Long`. -/
def inRange (start blocks : ℤ) : Bool :=
  0 ≤ start ∧ 0 ≤ blocks ∧ i64 (start + blocks) ≤ d.decryptedBlockCount

def physicalStartBlock (start : ℤ) : ℤ := i64 (start + d.volumeDataOffset)

def firstTweak (start : ℤ) : ℕ :=
  u64 (d.tweakDataOffset * (d.blockSize / 512 : ℕ) + start * (d.blockSize / 512 : ℕ))

/-- The crypt call of `readBlocks` or `writeBlocks` at block `start`, under the key `key`. -/
def crypt (crypt : CryptSectors β) (dir : Direction) (key : Key) (start : ℤ) (data : List β) :
    Option (List β) :=
  crypt d.cipherNativeIds dir key (d.firstTweak start) data

def encryptedAt (drive : ℕ → β) (start count : ℕ) : List β :=
  (List.range count).map fun i => drive ((d.physicalStartBlock start).toNat + i)

/-- The device of a partition as a device of the drive, on which the partition starts at block
`first`. -/
def onDrive (first : ℕ) : NativeDevice := { d with volumeDataOffset := first + d.volumeDataOffset }

variable {d} in
lemma physicalStartBlock_add {d' : NativeDevice} {first : ℕ}
    (h : d'.volumeDataOffset = first + d.volumeDataOffset) (block : ℤ) :
    d'.physicalStartBlock block = i64 (first + d.physicalStartBlock block) := by
  simp only [physicalStartBlock, h, i64, Int.add_bmod_bmod, Nat.cast_add]
  rw [add_left_comm]

end NativeDevice

/-- The same key, the same place of every block and the same tweak: `created` is over the partition
that starts at block `first` of the drive, `unlocked` over the drive. -/
structure SameVolume (first : ℕ) (created unlocked : NativeDevice) : Prop where
  blockSize : unlocked.blockSize = created.blockSize
  masterKey : unlocked.masterKey = created.masterKey
  cipherNativeIds : unlocked.cipherNativeIds = created.cipherNativeIds
  place : ∀ block, unlocked.physicalStartBlock block = i64 (first + created.physicalStartBlock block)
  tweak : ∀ block, unlocked.firstTweak block = created.firstTweak block

lemma sameVolume_onDrive (first : ℕ) (d : NativeDevice) : SameVolume first d (d.onDrive first) :=
  ⟨rfl, rfl, rfl, NativeDevice.physicalStartBlock_add rfl, fun _ => rfl⟩

end OtgMaster.Veracrypt
