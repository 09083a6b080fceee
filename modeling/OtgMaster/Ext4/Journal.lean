import OtgMaster.Ext4.Lookup

/-!
`Ext4Journal`: the replay of the volume's own jbd2 journal.

Three passes over the log, as in the source: the scan collects the committed transactions, the
second pass collects the revoke records and checks everything that is going to be written, and the
third writes the logged blocks to their places, oldest transaction first. After that the journal is
marked empty and the volume no longer in need of recovery. The structures of jbd2 are big-endian.
-/

namespace OtgMaster.Ext4.Ext4Journal

open Lib Bytes
open Block (i64)

/-! ### Constants -/

def JBD2_MAGIC : ℕ := 0xC03B3998
def DESCRIPTOR_BLOCK : ℕ := 1
def COMMIT_BLOCK : ℕ := 2
def SUPERBLOCK_V1 : ℕ := 3
def SUPERBLOCK_V2 : ℕ := 4
def REVOKE_BLOCK : ℕ := 5
def INCOMPAT_64BIT : ℕ := 0x2
def INCOMPAT_CSUM_V2 : ℕ := 0x8
def INCOMPAT_CSUM_V3 : ℕ := 0x10
def INCOMPAT_FAST_COMMIT : ℕ := 0x20
def UNKNOWN_INCOMPAT : ℕ := 0xFFFFFFE0
def FLAG_ESCAPE : ℕ := 0x1
def FLAG_SAME_UUID : ℕ := 0x2
def FLAG_LAST_TAG : ℕ := 0x8
def CHECKSUM_TYPE_CRC32C : ℕ := 4
def SB_JOURNAL_INUM : ℕ := 0xE0
def SB_JOURNAL_DEV : ℕ := 0xE4
/-- The most elements a `MutableList` can hold; past it `add` ends in an `OutOfMemoryError`. -/
def MAX_LIST : ℕ := 2147483647

/-! ### Data -/

/-- One logged block: where it goes, where it sits in the log, and its tag's checksum. -/
structure Tag where
  fsBlock : ℕ
  logBlock : ℕ
  flags : ℕ
  csum : ℕ
  deriving DecidableEq

structure Transaction where
  sequence : ℕ
  tags : List Tag
  revoked : List ℕ
  deriving DecidableEq

structure Result where
  transactions : ℕ
  blocksReplayed : ℕ
  blocksRevoked : ℕ
  deriving DecidableEq

/-- What the journal superblock says about the log, with the journal's own inode. -/
structure Log where
  inum : ℕ
  inode : Bytes
  maxLen : ℕ
  first : ℕ
  firstSequence : ℕ
  start : ℕ
  is64 : Bool
  csum2 : Bool
  csum3 : Bool
  seed : UInt32

namespace Log

variable (j : Log)

def hasCsum : Bool := j.csum2 || j.csum3

def next (b : ℕ) : ℕ := if j.maxLen ≤ b + 1 then b + 1 - (j.maxLen - j.first) else b + 1

def tagBytes : ℕ :=
  if j.csum3 then 16 else 12 + (if j.csum2 then 2 else 0) - (if j.is64 then 0 else 4)

def tailBytes : ℕ := if j.hasCsum then 4 else 0

end Log

/-! ### Sequence numbers -/

/-- The `Int` with the bits of `v`, as messages print it. -/
def int32 (v : ℕ) : ℤ := if v < 2 ^ 31 then v else v - 2 ^ 32

/-- `a - b > 0`, for sequence numbers held in an `Int`. -/
def seqAfter (a b : ℕ) : Bool :=
  0 < (a + 2 ^ 32 - b) % 2 ^ 32 ∧ (a + 2 ^ 32 - b) % 2 ^ 32 < 2 ^ 31

def seqGe (a b : ℕ) : Bool := (a + 2 ^ 32 - b) % 2 ^ 32 < 2 ^ 31

/-- `v` in hexadecimal, as `Int.toString(16)` prints it. -/
def hexInt (v : ℤ) : String := if v < 0 then "-" ++ hex v.natAbs else hex v.natAbs

section Recover

variable (fs : Ext4FileSystem)

/-! ### Reading the log -/

section Read

variable (j : Log)

def phys (logBlock : ℕ) : M ℕ := do
  match ← physicalBlock fs j.inum j.inode logBlock with
  | some p => pure p
  | none => throw (.notReplayable s!"journal block {logBlock} is not mapped")

def read (logBlock : ℕ) : M Bytes := do
  let p ← phys fs j logBlock
  readBlock fs p

/-- `blockCsumOk`: the checksum in the last four bytes of a descriptor or revoke block. -/
def blockCsumOk (buf : Bytes) : Bool :=
  (Ext4Crc.update j.seed ((buf.putBe32 (fs.blockSize - 4) 0).slice 0 fs.blockSize)).toNat =
    buf.be32 (fs.blockSize - 4)

/-- `commitCsumOk`: the checksum of a commit block, at offset 16. -/
def commitCsumOk (buf : Bytes) : Bool :=
  (Ext4Crc.update j.seed ((buf.putBe32 16 0).slice 0 fs.blockSize)).toNat = buf.be32 16

def tagAt (h : Bytes) (off dataBlock : ℕ) : Tag :=
  let hi := if j.is64 then h.be32 (off + 8) else 0
  if j.csum3 then ⟨hi * 2 ^ 32 + h.be32 off, dataBlock, h.be32 (off + 4), h.be32 (off + 12)⟩
  else ⟨hi * 2 ^ 32 + h.be32 off, dataBlock, h.be16 (off + 6), h.be16 (off + 4)⟩

/-- The tags of a descriptor block from `off` on, and the log block after their data. A tag takes
at least 8 bytes, so `fuel` only has to cover the block. -/
def readTags (h : Bytes) : ℕ → ℕ → ℕ → List Tag × ℕ
  | 0, _, dataBlock => ([], dataBlock)
  | fuel + 1, off, dataBlock =>
    if off + j.tagBytes ≤ fs.blockSize - j.tailBytes then
      let tag := tagAt j h off dataBlock
      if tag.flags &&& FLAG_LAST_TAG ≠ 0 then ([tag], j.next dataBlock)
      else
        let off' := off + j.tagBytes + (if tag.flags &&& FLAG_SAME_UUID = 0 then 16 else 0)
        let rest := readTags h fuel off' (j.next dataBlock)
        (tag :: rest.1, rest.2)
    else ([], dataBlock)

def readRevoked (h : Bytes) (used : ℕ) : ℕ → ℕ → List ℕ
  | 0, _ => []
  | fuel + 1, off =>
    if off + (if j.is64 then 8 else 4) ≤ used then
      (if j.is64 then h.be64 off else h.be32 off) ::
        readRevoked h used fuel (off + (if j.is64 then 8 else 4))
    else []

/-! ### Pass 1: scan -/

structure Scan where
  committed : List Transaction
  block : ℕ
  sequence : ℕ
  current : Transaction

/-- One turn of the scan; `none` where the log ends. -/
def scanStep (st : Scan) : M (Option Scan) := do
  let buf ← read fs j st.block
  if buf.be32 0 ≠ JBD2_MAGIC ∨ buf.be32 8 ≠ st.sequence then pure none
  else if buf.be32 4 = DESCRIPTOR_BLOCK then do
    throwIf (j.hasCsum ∧ !blockCsumOk fs j buf)
      (.notReplayable s!"descriptor block at journal block {st.block} fails its checksum")
    let tags := readTags fs j buf fs.blockSize 12 (j.next st.block)
    pure (some { st with
      block := tags.2
      current := { st.current with tags := st.current.tags ++ tags.1 } })
  else if buf.be32 4 = COMMIT_BLOCK then
    if j.hasCsum ∧ !commitCsumOk fs j buf then pure none
    else do
      throwIf (MAX_LIST ≤ st.committed.length) .outOfMemory
      let sequence := (st.sequence + 1) % 2 ^ 32
      pure (some ⟨st.committed ++ [st.current], j.next st.block, sequence, ⟨sequence, [], []⟩⟩)
  else if buf.be32 4 = REVOKE_BLOCK then do
    throwIf (j.hasCsum ∧ !blockCsumOk fs j buf)
      (.notReplayable s!"revoke block at journal block {st.block} fails its checksum")
    let used := buf.be32 12
    -- `used` is an `Int`: from 2^31 on it is negative, so below 16
    throwIf (used < 16 ∨ 2 ^ 31 ≤ used ∨ fs.blockSize - j.tailBytes < used)
      (.notReplayable s!"revoke block at journal block {st.block} is malformed")
    pure (some { st with
      block := j.next st.block
      current := { st.current with
        revoked := st.current.revoked ++ readRevoked j buf used fs.blockSize 16 } })
  else pure none

def scan : ℕ → Scan → M Scan
  | 0, st => pure st
  | fuel + 1, st => do
    match ← scanStep fs j st with
    | none => pure st
    | some st' => scan fuel st'

/-! ### Pass 2: revoke, and check everything before writing anything -/

/-- Record that transaction `seq` revokes block `b`, unless a later one is on record. -/
def recordRevoke (seq : ℕ) (upTo : ℕ → Option ℕ) (b : ℕ) : ℕ → Option ℕ :=
  match upTo b with
  | none => fun b' => if b' = b then some seq else upTo b'
  | some prev =>
    if seqAfter seq prev then fun b' => if b' = b then some seq else upTo b' else upTo

def revokedUpTo (committed : List Transaction) : ℕ → Option ℕ :=
  committed.foldl (fun upTo t => t.revoked.foldl (recordRevoke t.sequence) upTo) fun _ => none

def isRevoked (upTo : ℕ → Option ℕ) (b seq : ℕ) : Bool :=
  match upTo b with
  | some last => seqGe last seq
  | none => false

def checkTag (upTo : ℕ → Option ℕ) (seq : ℕ) (revokedCount : ℕ) (tag : Tag) : M ℕ :=
  if isRevoked upTo tag.fsBlock seq then pure (revokedCount + 1)
  else do
    throwIf (fs.totalBlocks ≤ tag.fsBlock) (.notReplayable
      s!"journal transaction {int32 seq} logs block {i64 tag.fsBlock}, outside the volume")
    if j.hasCsum then do
      let data ← read fs j tag.logBlock
      let crc := (Ext4Crc.update (Ext4Crc.update j.seed ((zeros.putBe32 0 seq).slice 0 4))
        (data.slice 0 fs.blockSize)).toNat
      throwIf ((if j.csum3 then crc else crc % 2 ^ 16) ≠ tag.csum) (.notReplayable
        s!"logged copy of block {i64 tag.fsBlock} in transaction {int32 seq} fails its checksum")
      pure revokedCount
    else pure revokedCount

def checkAll (upTo : ℕ → Option ℕ) (committed : List Transaction) : M ℕ :=
  committed.foldlM (fun n t => t.tags.foldlM (checkTag fs j upTo t.sequence) n) 0

/-! ### Pass 3: replay -/

def unescape (tag : Tag) (data : Bytes) : Bytes :=
  if tag.flags &&& FLAG_ESCAPE ≠ 0 then data.putBe32 0 JBD2_MAGIC else data

def replayTag (upTo : ℕ → Option ℕ) (seq : ℕ) (replayed : ℕ) (tag : Tag) : M ℕ :=
  if isRevoked upTo tag.fsBlock seq then pure replayed
  else do
    let data ← read fs j tag.logBlock
    writeBlocksUnchecked fs tag.fsBlock 1 (unescape tag data)
    pure (replayed + 1)

def replayAll (upTo : ℕ → Option ℕ) (committed : List Transaction) : M ℕ :=
  committed.foldlM (fun n t => t.tags.foldlM (replayTag fs j upTo t.sequence) n) 0

/-! ### The end of the replay -/

def clearNeedsRecovery : M Unit := do
  let sb ← readSuperblockBytes fs
  let sb := sb.put32 96 (sb.le32 96 &&& (2 ^ 32 - 1 - INCOMPAT_RECOVER))
  let sb ← recountFreeTotals fs sb
  writeSuperblockBytes fs sb true

/-- The journal superblock of an empty log whose next transaction is past `sequence`. -/
def emptied (jsb : Bytes) (sequence : ℕ) : Bytes :=
  let jn := (jsb.putBe32 0x18 (sequence + 1)).putBe32 0x1C 0
  if j.hasCsum then
    (jn.putBe32 0xFC 0).putBe32 0xFC
      (Ext4Crc.update Ext4Crc.seed ((jn.putBe32 0xFC 0).slice 0 1024)).toNat
  else jn

end Read

/-! ### The journal superblock -/

/-- The log that the journal superblock `jsb` describes, its checksum seed left out. -/
def logOf (journalInum : ℕ) (inode jsb : Bytes) : Log :=
  let incompat := if jsb.be32 4 = SUPERBLOCK_V2 then jsb.be32 0x28 else 0
  { inum := journalInum
    inode := inode
    maxLen := jsb.be32 0x10
    first := jsb.be32 0x14
    firstSequence := jsb.be32 0x18
    start := jsb.be32 0x1C
    is64 := incompat &&& INCOMPAT_64BIT ≠ 0
    csum2 := incompat &&& INCOMPAT_CSUM_V2 ≠ 0
    csum3 := incompat &&& INCOMPAT_CSUM_V3 ≠ 0
    seed := 0 }

def parseSuperblock (journalInum : ℕ) (inode jsb : Bytes) : M Log := do
  throwIf (jsb.be32 0 ≠ JBD2_MAGIC) (.notReplayable "no journal superblock")
  throwIf (jsb.be32 4 ≠ SUPERBLOCK_V1 ∧ jsb.be32 4 ≠ SUPERBLOCK_V2)
    (.notReplayable s!"unknown journal superblock type {int32 (jsb.be32 4)}")
  throwIf (jsb.be32 0xC ≠ fs.blockSize) (.notReplayable
    s!"journal block size {int32 (jsb.be32 12)} is not the volume's {fs.blockSize}")
  let incompat := if jsb.be32 4 = SUPERBLOCK_V2 then jsb.be32 0x28 else 0
  let what := if incompat &&& INCOMPAT_FAST_COMMIT ≠ 0 then "fast commit"
    else s!"feature 0x{hexInt (int32 (incompat &&& UNKNOWN_INCOMPAT))}"
  throwIf (incompat &&& UNKNOWN_INCOMPAT ≠ 0)
    (.notReplayable s!"the journal uses {what}, which this app does not replay")
  let j := logOf journalInum inode jsb
  let journalBlocks := (i64 (inodeLength inode + fs.blockSize - 1)).tdiv fs.blockSize
  throwIf (j.first < 1 ∨ j.maxLen ≤ j.first ∨ journalBlocks < j.maxLen) (.notReplayable
    s!"journal geometry first={j.first} maxlen={j.maxLen} does not fit its inode")
  if j.hasCsum then do
    throwIf ((jsb 0x50).toNat ≠ CHECKSUM_TYPE_CRC32C)
      (.notReplayable s!"journal checksum type {(jsb 80).toInt8} is not crc32c")
    throwIf ((Ext4Crc.update Ext4Crc.seed ((jsb.putBe32 0xFC 0).slice 0 1024)).toNat ≠ jsb.be32 0xFC)
      (.notReplayable "the journal superblock fails its checksum")
    pure { j with seed := Ext4Crc.update Ext4Crc.seed (jsb.slice 0x30 16) }
  else pure j

def openLog : M Log := do
  let sb ← readSuperblockBytes fs
  let journalInum := sb.le32 SB_JOURNAL_INUM
  throwIf (journalInum = 0 ∨ sb.le32 SB_JOURNAL_DEV ≠ 0)
    (.notReplayable "the journal is on another device")
  let inode ← readInode fs journalInum
  checkInode fs inode
  let jsb ← read fs (logOf journalInum inode zeros) 0
  parseSuperblock fs journalInum inode jsb

/-- The passes over a log that is not empty. -/
def replayLog (j : Log) : M Result := do
  throwIf (j.start < j.first ∨ j.maxLen ≤ j.start) (.notReplayable
    s!"journal start {j.start} is outside the log ({j.first}..{j.maxLen})")
  let sc ← scan fs j (j.maxLen + 1) ⟨[], j.start, j.firstSequence, ⟨j.firstSequence, [], []⟩⟩
  let upTo := revokedUpTo sc.committed
  let revokedCount ← checkAll fs j upTo sc.committed
  let replayed ← replayAll fs j upTo sc.committed
  let jsbNow ← read fs j 0
  let p ← phys fs j 0
  writeBlocksUnchecked fs p 1 (emptied j jsbNow sc.sequence)
  clearNeedsRecovery fs
  pure ⟨sc.committed.length, replayed, revokedCount⟩

def recover : M Result := do
  let j ← openLog fs
  if j.start = 0 then do
    -- an empty log: the flag outlived the journal's own record of it
    clearNeedsRecovery fs
    pure ⟨0, 0, 0⟩
  else replayLog fs j

end Recover

end OtgMaster.Ext4.Ext4Journal
