import OtgMaster.Ext4.FileSystem

/-!
From a logical block of a file to a block of the volume: the two walks over an extent tree, one for
readers (`extentSearch`) and one for the write path (`extentMap`), and the block map of ext2/3.

A node of an extent tree is a header (magic, number of entries, room, depth) followed by 12-byte
entries; the root sits in the inode at offset 40. The walks read the node's numbers as the source
does, through a `ByteBuffer` that throws when a field would lie past the end of its array. The
recursion of the source is unbounded: what ends it on a tree that points back at itself is the
stack, and `stackFrames` of the volume stands for it.
-/

namespace OtgMaster.Ext4

open Lib Bytes

def EXT4_EXTENTS_FL : ℕ := 0x00080000
def EXTENT_MAGIC : ℕ := 0xF30A
/-- Max blocks in an initialised extent; above this `ee_len` flags it uninitialised. -/
def MAX_INIT_EXTENT_LEN : ℕ := 32768
def LONG_MAX : ℕ := 9223372036854775807

/-! ### Fields of an array of a given size -/

section Fields

variable {size o : ℕ} {b : Bytes}

lemma getShort_eq (h : o + 2 ≤ size) : getShort size b o = pure (b.le16 o) := if_pos h

lemma getInt_eq (h : o + 4 ≤ size) : getInt size b o = pure (b.le32 o) := if_pos h

end Fields

def hex (n : ℕ) : String := String.ofList (Nat.toDigits 16 n)

def badMagic (magic inodeNum : ℕ) : Ex :=
  .io s!"Bad extent header magic 0x{hex magic} in inode {inodeNum}"

/-! ### The write path's walk -/

/-- What lies behind a logical block and how far it continues unchanged; `phys` is `none` for a
hole. -/
structure Mapping where
  phys : Option ℕ
  length : ℕ
  uninitialised : Bool
  deriving DecidableEq

def trailingHole (target limit : ℕ) : Mapping :=
  ⟨none, if limit = LONG_MAX then LONG_MAX else limit - target, false⟩

/-- The loop of `extentMap` over the entries of a leaf, from entry `i` on, `n` of them left. -/
def leafMap (size : ℕ) (data : Bytes) (offset target limit : ℕ) : ℕ → ℕ → M Mapping
  | _, 0 => pure (trailingHole target limit)
  | i, n + 1 => do
    let e := offset + 12 + i * 12
    let eBlock ← getInt size data e
    let eLen ← getShort size data (e + 4)
    let uninit := MAX_INIT_EXTENT_LEN < eLen
    let count := if uninit then eLen - MAX_INIT_EXTENT_LEN else eLen
    if target < eBlock then pure ⟨none, min eBlock limit - target, false⟩
    else if target < eBlock + count then do
      let startHi ← getShort size data (e + 6)
      let startLo ← getInt size data (e + 8)
      pure ⟨some (startHi * 2 ^ 32 + startLo + (target - eBlock)), eBlock + count - target, uninit⟩
    else leafMap size data offset target limit (i + 1) n

/-- The loop of `extentMap` over the entries of an index node: the last entry whose key is not
above `target`, and the key that ended the search. -/
def findChild (size : ℕ) (data : Bytes) (offset target : ℕ) :
    ℕ → ℕ → Option ℕ → M (Option ℕ × Option ℕ)
  | _, 0, child => pure (child, none)
  | i, n + 1, child => do
    let ixBlock ← getInt size data (offset + 12 + i * 12)
    if target < ixBlock then pure (child, some ixBlock)
    else findChild size data offset target (i + 1) n (some i)

/-- What bounds a hole below the index entry at `ix`: the next entry's key, or the bound above. -/
def childLimit (size : ℕ) (data : Bytes) (ix child entries limit : ℕ) : M ℕ :=
  if child + 1 < entries then do
    let next ← getInt size data (ix + 12)
    pure (min next limit)
  else pure limit

section Walks

variable (fs : Ext4FileSystem) (inodeNum : ℕ)

/-- `extentMap` over the node at `offset` in `data`; `limit` bounds a trailing hole. -/
def extentMap : ℕ → ℕ → Bytes → ℕ → ℕ → ℕ → M Mapping
  | 0, _, _, _, _, _ => throw .stackOverflow
  | frames + 1, size, data, offset, target, limit => do
    let magic ← getShort size data offset
    throwIf (magic ≠ EXTENT_MAGIC) (badMagic magic inodeNum)
    let entries ← getShort size data (offset + 2)
    let depth ← getShort size data (offset + 6)
    if depth = 0 then leafMap size data offset target limit 0 entries
    else
      match ← findChild size data offset target 0 entries none with
      | (none, some ixBlock) => pure ⟨none, min ixBlock limit - target, false⟩
      | (none, none) => pure (trailingHole target limit)
      | (some child, _) => do
        let ix := offset + 12 + child * 12
        let childLimit ← childLimit size data ix child entries limit
        let leafLo ← getInt size data (ix + 4)
        let leafHi ← getShort size data (ix + 8)
        let block ← readBlock fs (leafHi * 2 ^ 32 + leafLo)
        extentMap frames fs.blockSize block 0 target childLimit

/-! ### The reader's walk -/

/-- The loop of `extentSearch` over the entries of a leaf. The source adds before it combines the
two halves of the start, so the sum's carry is merged into the high half, not added to it. -/
def leafSearch (size : ℕ) (data : Bytes) (offset target : ℕ) (mappedOnly : Bool) :
    ℕ → ℕ → M (Option ℕ)
  | _, 0 => pure none
  | i, n + 1 => do
    let e := offset + 12 + i * 12
    let eBlock ← getInt size data e
    let eLen ← getShort size data (e + 4)
    let uninitialised := MAX_INIT_EXTENT_LEN < eLen
    let count := if uninitialised then eLen - MAX_INIT_EXTENT_LEN else eLen
    if eBlock ≤ target ∧ target < eBlock + count then
      if uninitialised ∧ !mappedOnly then pure none
      else do
        let startHi ← getShort size data (e + 6)
        let startLo ← getInt size data (e + 8)
        pure (some ((startHi * 2 ^ 32) ||| (startLo + (target - eBlock))))
    else leafSearch size data offset target mappedOnly (i + 1) n

def childSearch (size : ℕ) (data : Bytes) (offset target : ℕ) : ℕ → ℕ → Option ℕ → M (Option ℕ)
  | _, 0, childPhys => pure childPhys
  | i, n + 1, childPhys => do
    let ix := offset + 12 + i * 12
    let ixBlock ← getInt size data ix
    if target < ixBlock then pure childPhys
    else do
      let leafLo ← getInt size data (ix + 4)
      let leafHi ← getShort size data (ix + 8)
      childSearch size data offset target (i + 1) n (some (leafHi * 2 ^ 32 + leafLo))

def extentSearch : ℕ → ℕ → Bytes → ℕ → ℕ → Bool → M (Option ℕ)
  | 0, _, _, _, _, _ => throw .stackOverflow
  | frames + 1, size, data, offset, target, mappedOnly => do
    let magic ← getShort size data offset
    throwIf (magic ≠ EXTENT_MAGIC) (badMagic magic inodeNum)
    let entries ← getShort size data (offset + 2)
    let depth ← getShort size data (offset + 6)
    if depth = 0 then leafSearch size data offset target mappedOnly 0 entries
    else
      match ← childSearch size data offset target 0 entries none with
      | none => pure none
      | some childPhys => do
        let childData ← readBlock fs childPhys
        extentSearch frames fs.blockSize childData 0 target mappedOnly

/-! ### The block map -/

/-- A block pointer of the block map: 0 is a hole. -/
def pointer (p : ℕ) : Option ℕ := if p = 0 then none else some p

/-- Follow the block pointers of one indirect block after another, at the given indices. -/
def followPointers : ℕ → List ℕ → M (Option ℕ)
  | ptr, [] => pure (pointer ptr)
  | ptr, idx :: rest =>
    if ptr = 0 then pure none
    else do
      let data ← readBlock fs ptr
      let next ← getInt fs.blockSize data (idx * 4)
      followPointers next rest

/-- The slot of `i_block` behind a logical block, and the index to follow in each indirect block
after it. -/
def mapSlots (logical : ℕ) : ℕ × List ℕ :=
  let pointersPerBlock := fs.blockSize / 4
  if logical < 12 then (logical, [])
  else if logical < 12 + pointersPerBlock then (12, [logical - 12])
  else if logical < 12 + pointersPerBlock + pointersPerBlock * pointersPerBlock then
    let offset1 := logical - 12 - pointersPerBlock
    (13, [offset1 / pointersPerBlock, offset1 % pointersPerBlock])
  else
    let offset1 := logical - 12 - pointersPerBlock - pointersPerBlock * pointersPerBlock
    (14, [offset1 / (pointersPerBlock * pointersPerBlock),
      offset1 / pointersPerBlock % pointersPerBlock, offset1 % pointersPerBlock])

def blockMapLookup (inode : Bytes) (logical : ℕ) : M (Option ℕ) := do
  let ptr ← getInt fs.inodeSize inode (40 + (mapSlots fs logical).1 * 4)
  followPointers fs ptr (mapSlots fs logical).2

/-! ### Either layout -/

def resolveBlock (inode : Bytes) (logicalBlock : ℕ) (mappedOnly : Bool) : M (Option ℕ) := do
  let flags ← getInt fs.inodeSize inode 32
  if flags &&& EXT4_EXTENTS_FL ≠ 0 then
    extentSearch fs inodeNum fs.stackFrames fs.inodeSize inode 40 logicalBlock mappedOnly
  else blockMapLookup fs inode logicalBlock

def physicalBlock (inode : Bytes) (logical : ℕ) : M (Option ℕ) :=
  resolveBlock fs inodeNum inode logical true

end Walks

/-! ### What a lookup reads -/

section Paths

variable (fs : Ext4FileSystem) (s : St)

/-- The index and leaf blocks that `extentSearch` reads below the node at `offset` in `data`. -/
def searchPath : ℕ → ℕ → Bytes → ℕ → ℕ → List ℕ
  | 0, _, _, _, _ => []
  | frames + 1, size, data, offset, target =>
    if data.le16 (offset + 6) = 0 then []
    else
      match childSearch size data offset target 0 (data.le16 (offset + 2)) none s with
      | .ok (some c) _ =>
        c :: searchPath frames fs.blockSize (s.dev.window (c * fs.blockSize) fs.blockSize) 0 target
      | _ => []

def pointerPath : ℕ → List ℕ → List ℕ
  | _, [] => []
  | ptr, idx :: rest =>
    if ptr = 0 then []
    else ptr :: pointerPath ((s.dev.window (ptr * fs.blockSize) fs.blockSize).le32 (idx * 4)) rest

/-- The blocks that finding `logicalBlock` reads on its way. -/
def lookupPath (inode : Bytes) (logicalBlock : ℕ) : List ℕ :=
  if inode.le32 32 &&& EXT4_EXTENTS_FL ≠ 0 then
    searchPath fs s fs.stackFrames fs.inodeSize inode 40 logicalBlock
  else pointerPath fs s (inode.le32 (40 + (mapSlots fs logicalBlock).1 * 4))
    (mapSlots fs logicalBlock).2

variable {fs} {s} {t : St}

lemma readBlock_val {b : ℕ} {buf : Bytes} {s' : St} (h : readBlock fs b s = .ok buf s') :
    buf = s.dev.window (b * fs.blockSize) fs.blockSize := by
  unfold readBlock at h
  by_cases hin : b * fs.blockSize + fs.blockSize ≤ fs.deviceSize
  · rw [devRead_ok hin] at h
    cases h; rfl
  · rw [devRead_error hin] at h
    cases h

def SameBlock (fs : Ext4FileSystem) (s t : St) (b : ℕ) : Prop :=
  ∀ i < fs.blockSize, s.dev (b * fs.blockSize + i) = t.dev (b * fs.blockSize + i)

end Paths

end OtgMaster.Ext4
