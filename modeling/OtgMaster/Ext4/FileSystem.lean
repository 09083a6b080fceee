import OtgMaster.Block.Drive
import OtgMaster.Lib.Bytes
import OtgMaster.Lib.Prog

/-!
`Ext4FileSystem` and `Ext4Crc`: the geometry read from the superblock at mount, the state every
operation of the driver works on, and the device traffic of the driver itself: blocks, inodes and
the superblock.

The device is a function from byte addresses to bytes. Every call of `device.writeBlocks` is one
step: `devWrite` records the device as that call leaves it in `images`, so that the state a cut
would leave behind is always one of the recorded ones. Where the source reads the sectors around a
field, changes the field and writes the sectors back, the bytes that change are the field's alone,
and the model writes these. For bytes to stand for sectors the size of a sector has to divide the
block size, which is taken for granted.
-/

namespace OtgMaster.Ext4

open Lib Bytes
open Block (i32 i64)

/-! ### Exceptions -/

inductive Ex where
  | io (message : String)
  | notReplayable (message : String)
  | unsupported (message : String)
  | illegalArgument (message : String)
  | illegalState (message : String)
  | arithmetic
  | indexOutOfBounds
  | stackOverflow
  | outOfMemory
  deriving DecidableEq

/-! ### The CRC32c running state -/

namespace Ext4Crc

/-- One of the eight steps that build an entry of `TABLE`. -/
def tableStep (c : UInt32) : UInt32 :=
  if c &&& 1 ≠ 0 then (c >>> 1) ^^^ 0x82F63B78 else c >>> 1

def table (i : UInt32) : UInt32 :=
  tableStep (tableStep (tableStep (tableStep (tableStep (tableStep (tableStep (tableStep i)))))))

def step (crc : UInt32) (b : UInt8) : UInt32 :=
  (crc >>> 8) ^^^ table ((crc ^^^ b.toUInt32) &&& 0xFF)

/-- `Ext4Crc.update`: the running state after the bytes of `data`. -/
def update (state : UInt32) (data : List UInt8) : UInt32 := data.foldl step state

def seed : UInt32 := 0xFFFFFFFF

end Ext4Crc

/-! ### The mounted volume -/

/-- The values `Ext4FileSystem` is built with: what `create` reads from the superblock, and the
size of the device underneath. -/
structure Ext4FileSystem where
  /-- 0 stands for a block size of 0 or less, with which no block is read. -/
  blockSize : ℕ
  inodesPerGroup : ℤ
  blocksPerGroup : ℤ
  inodeSize : ℕ
  groupDescSize : ℕ
  bgdTableBlock : ℕ
  totalBlocks : ℤ
  totalInodes : ℕ
  csumSeed : UInt32
  hasMetadataCsum : Bool
  mountedReadOnly : Bool
  hasExtents : Bool
  /-- The bytes of the device: `device.blockSize * device.blockCount`. -/
  deviceSize : ℕ
  /-- How many nested calls of a tree walk fit on the stack. -/
  stackFrames : ℕ
  deriving DecidableEq

/-- An `Ext4File` object: a handle with its own copy of the inode. -/
structure Ext4File where
  inodeNum : ℕ
  entryName : String
  parent : Option ℕ
  isDir : Bool
  currentSize : ℤ
  inode : Bytes
  dirty : Bool

/-- What the operations read and change: the device, the driver's own variables, the objects that
stand for files, and the clock (`System.currentTimeMillis() / 1000`). -/
structure St where
  dev : Bytes
  /-- The device as each write so far has left it, the latest first. -/
  images : List Bytes
  readOnlyReason : Option String
  markedDirty : Bool
  streamGoal : ℤ
  now : ℕ
  files : ℕ → Ext4File
  nextFile : ℕ

def St.write (s : St) (dev : Bytes) : St := { s with dev := dev, images := dev :: s.images }

section Write

variable (s : St) (dev : Bytes)

end Write

abbrev M := EStateM Ex St

/-! ### Device traffic -/

/-- `device.readBlocks`, for the `n` bytes from `a` on. -/
def devRead (fs : Ext4FileSystem) (a n : ℕ) : M Bytes := do
  let s ← get
  if a + n ≤ fs.deviceSize then pure (s.dev.window a n)
  else throw (.illegalArgument s!"read of {n} bytes at {a} exceeds device ({fs.deviceSize} bytes)")

/-- `device.writeBlocks`, for the `n` bytes from `a` on. -/
def devWrite (fs : Ext4FileSystem) (a n : ℕ) (v : Bytes) : M Unit := do
  throwIf (fs.deviceSize < a + n) (.illegalArgument
    s!"write of {n} bytes at {a} exceeds device ({fs.deviceSize} bytes)")
  modify fun s => s.write (s.dev.patch a n v)

def getShort (size : ℕ) (b : Bytes) (o : ℕ) : M ℕ :=
  if o + 2 ≤ size then pure (b.le16 o) else throw .indexOutOfBounds

def getInt (size : ℕ) (b : Bytes) (o : ℕ) : M ℕ :=
  if o + 4 ≤ size then pure (b.le32 o) else throw .indexOutOfBounds

section Fs

variable (fs : Ext4FileSystem)

def readBlock (blockNum : ℕ) : M Bytes := devRead fs (blockNum * fs.blockSize) fs.blockSize

def checkWritable : M Unit := do
  match (← get).readOnlyReason with
  | some why => throw (.io s!"ext4 volume is read-only: {why}")
  | none => pure ()

def writeBlocksUnchecked (startBlock n : ℕ) (data : Bytes) : M Unit := do
  throwIf (n = 0) (.illegalArgument
    s!"writeBlocks: 0 bytes is not a whole number of {fs.blockSize}-byte blocks")
  throwIf (fs.totalBlocks < startBlock + n) (.illegalArgument
    s!"writeBlocks: {n} blocks at {startBlock} run past the volume ({fs.totalBlocks} blocks)")
  devWrite fs (startBlock * fs.blockSize) (n * fs.blockSize) data

/-! ### The superblock -/

/-- Superblock offset from filesystem start, in bytes. -/
def sbOffsetBytes : ℕ := 1024

def readSuperblockBytes : M Bytes := devRead fs sbOffsetBytes 1024

/-- The superblock with `s_checksum` (at 1020) refreshed, where the volume has checksums. -/
def sealSuperblock (sb : Bytes) : Bytes :=
  if fs.hasMetadataCsum then sb.put32 1020 (Ext4Crc.update Ext4Crc.seed (sb.slice 0 1020)).toNat
  else sb

def writeSuperblockBytes (sb : Bytes) (recovering : Bool) : M Unit := do
  if recovering then pure () else checkWritable
  devWrite fs sbOffsetBytes 1024 (sealSuperblock fs sb)

def SB_FREE_BLOCKS_HI : ℕ := 0x158

/-! ### Group descriptors -/

/-- Where the descriptor of group `g` starts; with a negative number of inodes in a group, before
the others. -/
def bgdByteOff (g : ℤ) : ℤ := fs.bgdTableBlock * fs.blockSize + g * fs.groupDescSize

def readBgdInt (g : ℤ) (fieldOffset : ℕ) : M ℕ := do
  throwIf (fs.blockSize = 0) .arithmetic
  let bgdBlockNum := (bgdByteOff fs g).tdiv fs.blockSize
  let bgdOffInBlock := (bgdByteOff fs g).tmod fs.blockSize
  throwIf (bgdBlockNum < 0) (.illegalArgument s!"read of block {bgdBlockNum}")
  let data ← readBlock fs bgdBlockNum.toNat
  throwIf (bgdOffInBlock + fieldOffset < 0) .indexOutOfBounds
  getInt fs.blockSize data (bgdOffInBlock + fieldOffset).toNat

/-- The upper half of a descriptor field: 0 where the descriptors are too short to have one. -/
def readBgdHi (g : ℤ) (hiOff : ℕ) : M ℕ :=
  if hiOff + 4 ≤ fs.groupDescSize then readBgdInt fs g hiOff else pure 0

def readBgd64 (g : ℤ) (loOff hiOff : ℕ) : M ℕ := do
  let lo ← readBgdInt fs g loOff
  let hi ← readBgdHi fs g hiOff
  pure (hi * 2 ^ 32 + lo)

def freeCountHi (d : Bytes) (o : ℕ) : M ℕ :=
  if 64 ≤ fs.groupDescSize then getShort fs.blockSize d o else pure 0

def freeCount (d : Bytes) (o lo hi : ℕ) : M ℕ := do
  let l ← getShort fs.blockSize d (o + lo)
  let h ← freeCountHi fs d (o + hi)
  pure (h * 2 ^ 16 + l)

def sumFreeTotals : List ℕ → M (ℕ × ℕ)
  | [] => pure (0, 0)
  | g :: gs => do
    let d ← readBlock fs ((bgdByteOff fs g).toNat / fs.blockSize)
    let o := (bgdByteOff fs g).toNat % fs.blockSize
    let freeBlocks ← freeCount fs d o 12 0x2C
    let freeInodes ← freeCount fs d o 14 0x2E
    let rest ← sumFreeTotals gs
    pure (freeBlocks + rest.1, freeInodes + rest.2)

def numGroups : ℤ := i32 ((fs.totalBlocks + fs.blocksPerGroup - 1).tdiv fs.blocksPerGroup)

def recountFreeTotals (sb : Bytes) : M Bytes := do
  throwIf (fs.blocksPerGroup = 0) .arithmetic
  let free ← sumFreeTotals fs (List.range (numGroups fs).toNat)
  pure (((sb.put32 12 (free.1 % 2 ^ 32)).put32 SB_FREE_BLOCKS_HI (free.1 / 2 ^ 32)).put32 16 free.2)

/-! ### Inodes -/

def groupIdx (inodeNum : ℕ) : ℤ := (inodeNum - 1 : ℤ).tdiv fs.inodesPerGroup

def inodeTableBlock (inodeNum : ℕ) : M ℕ := do
  throwIf (fs.inodesPerGroup = 0) .arithmetic
  readBgd64 fs (groupIdx fs inodeNum) 8 40

/-- Where the inode `inodeNum` starts, its table being at `itBlock`: a `Long`, which wraps. -/
def inodeByteOffset (itBlock inodeNum : ℕ) : ℤ :=
  i64 (itBlock * fs.blockSize + (inodeNum - 1 : ℤ).tmod fs.inodesPerGroup * fs.inodeSize)

def readInode (inodeNum : ℕ) : M Bytes := do
  let itBlock ← inodeTableBlock fs inodeNum
  let offset := inodeByteOffset fs itBlock inodeNum
  throwIf (offset < 0) (.illegalArgument s!"read of {fs.inodeSize} bytes at {offset}")
  devRead fs offset.toNat fs.inodeSize

def S_IFDIR : ℕ := 0x4000

def inodeIsDir (inode : Bytes) : Bool := inode.le16 0 &&& 0xF000 = S_IFDIR

def inodeLength (inode : Bytes) : ℤ :=
  i64 ((if inodeIsDir inode then 0 else inode.le32 108) * 2 ^ 32 + inode.le32 4 : ℤ)

/-- The end of the fields that `forInode` reads: `i_mtime`, and in a file `i_size_high`. -/
def inodeFieldsEnd (inode : Bytes) : ℕ := if inodeIsDir inode then 20 else 112

/-- The reads of `forInode` from the array of an inode. -/
def checkInode (inode : Bytes) : M Unit :=
  throwIf (fs.inodeSize < inodeFieldsEnd inode) .indexOutOfBounds

end Fs

/-! ### Mounting -/

def EXT4_SUPER_MAGIC : ℕ := 0xEF53
/-- `s_feature_incompat` bit for a journal that needs replaying. -/
def INCOMPAT_RECOVER : ℕ := 0x4
def INCOMPAT_EXTENTS : ℕ := 0x40
def MOUNTED_READ_ONLY : String := "it was mounted read-only"
def NO_EXTENTS : String := "it is ext2/ext3 (no extents), which this app reads but cannot " ++
  "yet write without creating files Linux would report as damaged."
def NEEDS_RECOVERY : String := "its journal needs recovery because it was not unmounted cleanly. " ++
  "Repair it from the drive's card, or check it on a computer (e2fsck)."

/-- The geometry in the superblock `sb` of a device of `deviceSize` bytes. -/
def geometryOf (sb : Bytes) (deviceSize stackFrames : ℕ) (readOnly : Bool) : Ext4FileSystem :=
  let blockSize := (i32 (1024 <<< (sb.le32 24 % 32) : ℕ)).toNat
  let featIncompat := sb.le32 96
  let featROCompat := sb.le32 100
  let is64bit := featIncompat &&& 0x80 ≠ 0
  let hasMetadataCsum := featROCompat &&& 0x400 ≠ 0
  let totalBlocks : ℕ := (if is64bit then sb.le32 336 else 0) * 2 ^ 32 + sb.le32 4
  { blockSize := blockSize
    inodesPerGroup := i32 (sb.le32 40)
    blocksPerGroup := i32 (sb.le32 32)
    inodeSize := sb.le16 88
    groupDescSize := if is64bit then (if sb.le16 254 < 32 then 32 else sb.le16 254) else 32
    bgdTableBlock := if blockSize = 1024 then 2 else 1
    totalBlocks := i64 totalBlocks
    totalInodes := sb.le32 0
    csumSeed :=
      if ¬hasMetadataCsum then Ext4Crc.seed
      else if featIncompat &&& 0x2000 ≠ 0 then UInt32.ofNat (sb.le32 624)
      else Ext4Crc.update Ext4Crc.seed (sb.slice 104 16)
    hasMetadataCsum := hasMetadataCsum
    mountedReadOnly := readOnly
    hasExtents := featIncompat &&& INCOMPAT_EXTENTS ≠ 0
    deviceSize := deviceSize
    stackFrames := stackFrames }

/-- Why a volume with superblock `sb` must not be written, if it must not. -/
def readOnlyReasonOf (sb : Bytes) (readOnly : Bool) : Option String :=
  if sb.le32 96 &&& INCOMPAT_RECOVER ≠ 0 then some NEEDS_RECOVERY
  else if sb.le32 96 &&& INCOMPAT_EXTENTS = 0 then some NO_EXTENTS
  else if readOnly then some MOUNTED_READ_ONLY
  else none

def freshState (dev : Bytes) (now : ℕ) (readOnlyReason : Option String) : St where
  dev := dev
  images := []
  readOnlyReason := readOnlyReason
  markedDirty := false
  streamGoal := -1
  now := now
  files := fun _ => ⟨0, "", none, false, 0, zeros, false⟩
  nextFile := 0

/-- `Ext4FileSystem.create`: the volume and its first state, or the message of the refusal. -/
def create (dev : Bytes) (deviceSize stackFrames now : ℕ) (readOnly : Bool) :
    Except String (Ext4FileSystem × St) :=
  let sb := dev.window sbOffsetBytes 1024
  if deviceSize < 2048 then .error "Device too small to contain an ext superblock"
  else if sb.le16 56 ≠ EXT4_SUPER_MAGIC then .error "Not an ext2/3/4 volume"
  else .ok (geometryOf sb deviceSize stackFrames readOnly,
    freshState dev now (readOnlyReasonOf sb readOnly))

section Specs

variable {fs : Ext4FileSystem} {s : St} {E : Ex → St → Prop}

variable {a n : ℕ} {t : St}

lemma devRead_ok (h : a + n ≤ fs.deviceSize) :
    devRead fs a n s = .ok (s.dev.window a n) s := by
  show (if a + n ≤ fs.deviceSize then (pure (s.dev.window a n) : M Bytes) else _) s = _
  rw [if_pos h]; rfl

lemma devRead_error (h : ¬a + n ≤ fs.deviceSize) :
    devRead fs a n s = .error
      (.illegalArgument s!"read of {n} bytes at {a} exceeds device ({fs.deviceSize} bytes)") s := by
  show (if a + n ≤ fs.deviceSize then (pure (s.dev.window a n) : M Bytes) else _) s = _
  rw [if_neg h]; rfl

lemma readBlock_run {b : ℕ} (h : b * fs.blockSize + fs.blockSize ≤ fs.deviceSize) :
    readBlock fs b s = .ok (s.dev.window (b * fs.blockSize) fs.blockSize) s := devRead_ok h

lemma readBlock_error {b : ℕ} (h : ¬b * fs.blockSize + fs.blockSize ≤ fs.deviceSize) :
    ∃ e, ∀ s : St, readBlock fs b s = .error e s := ⟨_, fun _ => devRead_error h⟩

/-- The field at `o` of the descriptor of group `g` can be read: its block is on the device, and the
field in the block. -/
structure DescField (fs : Ext4FileSystem) (g : ℤ) (o : ℕ) : Prop where
  block_pos : fs.blockSize ≠ 0
  block_nonneg : 0 ≤ (bgdByteOff fs g).tdiv fs.blockSize
  on_device : ((bgdByteOff fs g).tdiv fs.blockSize).toNat * fs.blockSize + fs.blockSize ≤ fs.deviceSize
  field_nonneg : 0 ≤ (bgdByteOff fs g).tmod fs.blockSize + o
  in_block : (bgdByteOff fs g).tmod fs.blockSize + o + 4 ≤ fs.blockSize

lemma DescField.place {g : ℤ} {o : ℕ} (h : DescField fs g o) :
    ((bgdByteOff fs g).tdiv fs.blockSize).toNat * fs.blockSize +
      ((bgdByteOff fs g).tmod fs.blockSize + o).toNat = (bgdByteOff fs g + o).toNat := by
  obtain ⟨b, hb⟩ := Int.eq_ofNat_of_zero_le h.block_nonneg
  have hsum := Int.tdiv_mul_add_tmod (bgdByteOff fs g) fs.blockSize
  have hnonneg := h.field_nonneg
  rw [hb] at hsum ⊢
  rw [Int.toNat_natCast]
  rw [← Int.natCast_mul] at hsum
  omega

lemma readBgdInt_cases (fs : Ext4FileSystem) (g : ℤ) (o : ℕ) :
    (DescField fs g o ∧ ∀ s : St, readBgdInt fs g o s = .ok (s.dev.le32 (bgdByteOff fs g + o).toNat) s) ∨
      (¬DescField fs g o ∧ ∃ e, ∀ s : St, readBgdInt fs g o s = .error e s) := by
  by_cases h0 : fs.blockSize = 0
  · exact Or.inr ⟨fun h => h.block_pos h0, _, fun s => throwIf_bind_error h0⟩
  by_cases h1 : (bgdByteOff fs g).tdiv fs.blockSize < 0
  · refine Or.inr ⟨fun h => absurd h.block_nonneg (not_le.2 h1),
      .illegalArgument s!"read of block {(bgdByteOff fs g).tdiv fs.blockSize}", fun s => ?_⟩
    rw [readBgdInt, throwIf_bind_run h0]
    exact throwIf_bind_error h1
  by_cases h2 : ((bgdByteOff fs g).tdiv fs.blockSize).toNat * fs.blockSize + fs.blockSize ≤ fs.deviceSize
  · by_cases h3 : (bgdByteOff fs g).tmod fs.blockSize + o < 0
    · refine Or.inr ⟨fun h => absurd h.field_nonneg (not_le.2 h3), .indexOutOfBounds, fun s => ?_⟩
      rw [readBgdInt, throwIf_bind_run h0, throwIf_bind_run h1, bind_run (readBlock_run h2)]
      exact throwIf_bind_error h3
    · by_cases h4 : ((bgdByteOff fs g).tmod fs.blockSize + o).toNat + 4 ≤ fs.blockSize
      · have hd : DescField fs g o := ⟨h0, not_lt.1 h1, h2, not_lt.1 h3, by omega⟩
        refine Or.inl ⟨hd, fun s => ?_⟩
        rw [readBgdInt, throwIf_bind_run h0, throwIf_bind_run h1, bind_run (readBlock_run h2),
          throwIf_bind_run h3, getInt, if_pos h4, le32_window h4, hd.place]
        rfl
      · refine Or.inr ⟨fun h => h4 (by have := h.in_block; omega), .indexOutOfBounds, fun s => ?_⟩
        rw [readBgdInt, throwIf_bind_run h0, throwIf_bind_run h1, bind_run (readBlock_run h2),
          throwIf_bind_run h3, getInt, if_neg h4]
        rfl
  · refine Or.inr ⟨fun h => h2 h.on_device, (readBlock_error h2).choose, fun s => ?_⟩
    rw [readBgdInt, throwIf_bind_run h0, throwIf_bind_run h1]
    exact bind_error ((readBlock_error h2).choose_spec s)

/-- The bytes that finding and reading inode `n` looks at: the place of its table in its group's
descriptor, and its slot in the table. -/
inductive InodeByte (fs : Ext4FileSystem) (n : ℕ) (s : St) : ℕ → Prop
  | tableLo {k : ℕ} (hk : k < 4) :
      InodeByte fs n s ((bgdByteOff fs (groupIdx fs n) + 8).toNat + k)
  | tableHi {k : ℕ} (hwide : 40 + 4 ≤ fs.groupDescSize) (hk : k < 4) :
      InodeByte fs n s ((bgdByteOff fs (groupIdx fs n) + 40).toNat + k)
  | slot {it i : ℕ} (hit : inodeTableBlock fs n s = .ok it s) (hi : i < fs.inodeSize) :
      InodeByte fs n s ((inodeByteOffset fs it n).toNat + i)

/-- What finding and reading inode `n` looks at is the same in `t` as in `s`. -/
def SameInode (fs : Ext4FileSystem) (n : ℕ) (s t : St) : Prop :=
  ∀ a, InodeByte fs n s a → s.dev a = t.dev a

lemma SameInode.refl (n : ℕ) : SameInode fs n s s := fun _ _ => rfl

end Specs

end OtgMaster.Ext4
