import OtgMaster.Bitlocker.BlockDevice

/-!
`BitLockerHeader.parse`: the first sector of a BitLocker volume and the three copies of its
metadata. Whoever writes the drive chooses every byte of them, checksums included.

The entries of a copy follow one another, each led by its size, and an entry for a volume master key
holds such a list again. Both lists are read by one loop (`walk`), which ends because every entry it
steps over has eight bytes or more.
-/

namespace OtgMaster.Bitlocker

open Lib Block

/-! ### byte buffers -/

/-- A byte array of `size` bytes, with the little-endian `ByteBuffer` around it. -/
structure Buffer where
  size : ℕ
  bytes : Bytes

namespace Buffer

def check (b : Buffer) (i n : ℕ) : E PUnit := failIf (b.size < i + n) ⟨.indexOutOfBounds, s!"{i}"⟩

def getShort (b : Buffer) (i : ℕ) : E ℕ := do
  b.check i 2
  return b.bytes.le16 i

def getInt (b : Buffer) (i : ℕ) : E ℤ := do
  b.check i 4
  return i32 (b.bytes.le32 i)

def getLong (b : Buffer) (i : ℕ) : E ℤ := do
  b.check i 8
  return i64 (b.bytes.le64 i)

def copyOfRange (b : Buffer) (fromIndex toIndex : ℕ) : E (List UInt8) := do
  failIf (b.size < toIndex) ⟨.indexOutOfBounds, s!"toIndex ({toIndex}) is greater than size ({b.size})."⟩
  failIf (toIndex < fromIndex) ⟨.illegalArgument, s!"{fromIndex} > {toIndex}"⟩
  return b.bytes.slice fromIndex (toIndex - fromIndex)

/-- `String(a, i, text.length, US_ASCII) == text`. -/
def isText (b : Buffer) (i : ℕ) (text : String) : E Bool := do
  failIf (b.size < i + text.length) ⟨.indexOutOfBounds, s!"{i}"⟩
  return b.bytes.slice i text.length = text.toList.map fun c => UInt8.ofNat c.toNat

end Buffer

/-! ### the header -/

structure SealedKey where
  nonce : List UInt8
  tag : List UInt8
  data : List UInt8
deriving DecidableEq

inductive Protection where
  | clearKey
  | tpm
  | startupKey
  | tpmPin
  | recoveryPassword
  | smartCard
  | password
  | unknown
deriving DecidableEq

structure Vmk where
  protection : Protection
  salt : Option (List UInt8) := none
  sealed : Option SealedKey := none
  clearKey : Option (List UInt8) := none
deriving DecidableEq

/-- What `parse` returns. The fields that the block device reads, and those that decide whether the
volume can be opened, are in `header`. -/
structure Parsed where
  header : BitLockerHeader
  togo : Bool
  volumeSize : ℤ
  vmks : List Vmk
  fvek : SealedKey
  validation : SealedKey
  metadataSha256 : List UInt8

def FVE_SIGNATURE : String := "-FVE-FS-"

def TOGO_SIGNATURE : String := "MSWIN4.1"

def GUID_NORMAL : List UInt8 :=
  [0x3b, 0xd6, 0x67, 0x49, 0x29, 0x2e, 0xd8, 0x4a, 0x83, 0x99, 0xf6, 0xa3, 0x39, 0xe3, 0xd0, 0x01]

/-! ### entries -/

/-- The loop over entries from `p` on: each is led by its size, zero ends the list, and one that
does not fit is an error. `act` is what the loop does with an entry, given its place and size. -/
def walk {σ : Type} (area : Buffer) (stop : ℤ) (overrun : String) (act : ℕ → ℕ → σ → E σ) (p : ℕ)
    (s : σ) : E σ :=
  if (p : ℤ) + 8 ≤ stop then
    match area.getShort p with
    | .error e => .error e
    | .ok n =>
      if n = 0 then .ok s
      else if _h : n < 8 ∨ stop < p + n then .error ⟨.io, overrun⟩
      else
        match act p n s with
        | .error e => .error e
        | .ok s => walk area stop overrun act (p + n) s
  else .ok s
termination_by (stop - p).toNat
decreasing_by omega

def sealedKey (area : Buffer) (a b : ℕ) : E SealedKey := do
  let nonce ← area.copyOfRange a (a + 12)
  let tag ← area.copyOfRange (a + 12) (a + 28)
  let data ← area.copyOfRange (a + 28) b
  return ⟨nonce, tag, data⟩

def Protection.ofCode : ℕ → Protection
  | 0x0000 => .clearKey
  | 0x0100 => .tpm
  | 0x0200 => .startupKey
  | 0x0500 => .tpmPin
  | 0x0800 => .recoveryPassword
  | 0x1000 => .smartCard
  | 0x2000 => .password
  | _ => .unknown

def vmkEntry (area : Buffer) (p n : ℕ) (v : Vmk) : E Vmk := do
  match ← area.getShort (p + 4) with
  | 0x0003 =>
    if 8 + 4 + 16 ≤ n then return { v with salt := some (← area.copyOfRange (p + 12) (p + 28)) }
    else return v
  | 0x0005 =>
    if 8 + 28 ≤ n then return { v with sealed := some (← sealedKey area (p + 8) (p + n)) }
    else return v
  | 0x0001 =>
    if 12 < n then return { v with clearKey := some (← area.copyOfRange (p + 12) (p + n)) }
    else return v
  | _ => return v

def parseVmk (area : Buffer) (pos size : ℕ) : E Vmk := do
  let code ← area.getShort (pos + 8 + 26)
  walk area (pos + size : ℕ) "VMK entry overruns its parent" (vmkEntry area) (pos + 8 + 28)
    { protection := Protection.ofCode code }

/-- What the loop over the entries of a copy has found. -/
structure Found where
  vmks : List Vmk := []
  fvek : Option SealedKey := none
  headerOffset : ℤ := -1
  headerSize : ℤ := -1

def blockEntry (area : Buffer) (pos size : ℕ) (f : Found) : E Found := do
  let type ← area.getShort (pos + 2)
  let value ← area.getShort (pos + 4)
  if type = 0x0002 ∧ 8 + 28 ≤ size then
    return { f with vmks := f.vmks ++ [← parseVmk area pos size] }
  else if type = 0x0003 ∧ f.fvek = none ∧ value = 0x0005 then
    return { f with fvek := some (← sealedKey area (pos + 8) (pos + size)) }
  else if type = 0x000F ∧ 8 + 16 ≤ size then
    return { f with headerOffset := ← area.getLong (pos + 8), headerSize := ← area.getLong (pos + 16) }
  else return f

/-! ### one copy -/

structure FirstSector where
  togo : Bool
  sectorSize : ℕ
  guidNormal : Bool
  offsets : List ℤ
  sectorSize_eq : sectorSize = 512 ∨ sectorSize = 4096

def parseBlock (sha256 : List UInt8 → List UInt8) (area : Buffer) (fveSize : ℕ)
    (first : FirstSector) : E Parsed := do
  let currState ← area.getShort 12
  let nextState ← area.getShort 14
  let volumeSize ← area.getLong 16
  let o0 ← area.getLong 32
  let o1 ← area.getLong (32 + 8)
  let o2 ← area.getLong (32 + 16)
  let metadataSize ← area.getInt 64
  let encryption ← area.getShort 100
  failIf (metadataSize < 48 + 4 ∨ (fveSize : ℤ) < i32 (64 + metadataSize)) ⟨.io, "bad FVE metadata size"⟩
  let found ← walk area (i32 (64 + metadataSize)) "FVE metadata entry overruns the block"
    (blockEntry area) 112 {}
  let nestedSize ← area.getShort (fveSize + 8)
  let nestedType ← area.getShort (fveSize + 12)
  failIf (nestedSize ≠ 8 + 72 ∨ nestedType ≠ 5) ⟨.io, "unrecognised FVE validation block"⟩
  let nonce ← area.copyOfRange (fveSize + 16) (fveSize + 28)
  let tag ← area.copyOfRange (fveSize + 28) (fveSize + 44)
  let data ← area.copyOfRange (fveSize + 44) (fveSize + 88)
  let block ← area.copyOfRange 0 fveSize
  return {
    header := {
      sectorSize := first.sectorSize
      metadataOffsets := [o0, o1, o2]
      volumeHeaderOffset := found.headerOffset
      volumeHeaderSize := found.headerSize
      guidNormal := first.guidNormal
      currState, nextState
      fvek := found.fvek.isSome
      encryption
      sectorSize_eq := first.sectorSize_eq
      threeCopies := rfl }
    togo := first.togo
    volumeSize
    vmks := found.vmks
    fvek := found.fvek.getD ⟨List.replicate 12 0, List.replicate 16 0, []⟩
    validation := ⟨nonce, tag, data⟩
    metadataSha256 := sha256 block }

/-! ### the volume -/

/-- The first sector, once its signature, version and sector size have been accepted. -/
def firstSector (s0 : Buffer) : E FirstSector := do
  let fve ← s0.isText 3 FVE_SIGNATURE
  let togo ← s0.isText 3 TOGO_SIGNATURE
  failIf (¬fve ∧ ¬togo) ⟨.io, "not a BitLocker volume"⟩
  failIf (s0.bytes 0 = 0xEB ∧ s0.bytes 1 = 0x52)
    ⟨.io, "BitLocker version 1 (Windows Vista) volumes are not supported"⟩
  let stored ← s0.getShort 11
  let sectorSize := if stored = 0 then 512 else stored
  if h : sectorSize = 512 ∨ sectorSize = 4096 then
    let sbOff := if togo then 424 else 160
    let guid ← s0.copyOfRange sbOff (sbOff + 16)
    let o0 ← s0.getLong (sbOff + 16)
    let o1 ← s0.getLong (sbOff + 16 + 8)
    let o2 ← s0.getLong (sbOff + 16 + 16)
    return ⟨togo, sectorSize, guid = GUID_NORMAL, [o0, o1, o2], h⟩
  else throw ⟨.io, s!"unsupported BitLocker sector size {sectorSize}"⟩

/-- Why copy `i` at `off` is not used, or else its `fveSize`. -/
def checkCopy (crc32 : List UInt8 → ℤ) (area : Buffer) (i : ℕ) (off : ℤ) : E (String ⊕ ℕ) := do
  let signed ← area.isText 0 FVE_SIGNATURE
  let version ← area.getShort 10
  if ¬signed ∨ version ≠ 2 then return .inl s!"FVE metadata copy {i} has no valid signature"
  let size ← area.getShort 8
  let fveSize : ℕ := size * 2 ^ 4
  if fveSize < 112 ∨ METADATA_AREA_SIZE < fveSize + 16 + 72 then
    return .inl s!"FVE metadata copy {i} has an implausible size"
  let stored ← area.getInt (fveSize + 4)
  if stored ≠ crc32 (area.bytes.slice 0 fveSize) then
    return .inl s!"FVE metadata copy {i} fails its CRC-32"
  let own ← area.getLong (32 + 8 * i)
  if own ≠ off then return .inl s!"FVE metadata copy {i} is not where it says it is"
  return .inr fveSize

/-- An `Error` of the JVM, which `catch (e: Exception)` lets through. -/
def isError (e : Exception) : Bool := e = .outOfMemory || e = .stackOverflow

def parseCopies (crc32 : List UInt8 → ℤ) (sha256 : List UInt8 → List UInt8) (read : ℤ → ℤ → E Bytes)
    (first : FirstSector) : List (ℕ × ℤ) → String → E Parsed
  | [], lastProblem => throw ⟨.io, lastProblem⟩
  | (i, off) :: rest, lastProblem =>
    if off ≤ 0 then parseCopies crc32 sha256 read first rest lastProblem
    else
      match read off METADATA_AREA_SIZE with
      | .error e =>
        if isError e.kind then .error e
        else parseCopies crc32 sha256 read first rest s!"FVE metadata copy {i} unreadable: {e.message}"
      | .ok bytes => do
        let area : Buffer := ⟨METADATA_AREA_SIZE.toNat, bytes⟩
        match ← checkCopy crc32 area i off with
        | .inl problem => parseCopies crc32 sha256 read first rest problem
        | .inr fveSize => parseBlock sha256 area fveSize first

/-- `BitLockerHeader.parse`. `read` returns as many bytes as it is asked for, from a byte offset in
the volume. -/
def parse (crc32 : List UInt8 → ℤ) (sha256 : List UInt8 → List UInt8) (read : ℤ → ℤ → E Bytes) :
    E Parsed := do
  let s0 ← read 0 512
  let first ← firstSector ⟨512, s0⟩
  parseCopies crc32 sha256 read
    first ((List.range 3).zip first.offsets) "no FVE metadata copy is readable"

end OtgMaster.Bitlocker
