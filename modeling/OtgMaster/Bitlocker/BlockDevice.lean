import OtgMaster.Block.Sectors
import Mathlib.Data.List.Sort

/-!
`BitLockerBlockDevice`: the plaintext of an unlocked BitLocker volume as a block device over the
drive.

The first bytes of the volume lie elsewhere, at `volumeHeaderOffset`; the three metadata areas and
the place those bytes were moved to read as zeros and refuse writes; everything else is encrypted in
place. A request is widened to whole encryption sectors and split into runs with one mapping each
(`runs`). Such a split terminates, and it covers the range once, in order (`runs_cover`).
-/

namespace OtgMaster.Bitlocker

open Lib Block

/-! ### The header -/

def METADATA_AREA_SIZE : ℤ := 64 * 1024

def STATE_NORMAL : ℕ := 4

/-- The fields of a `BitLockerHeader` that the block device and the check before it read. -/
structure BitLockerHeader where
  sectorSize : ℕ
  metadataOffsets : List ℤ
  volumeHeaderOffset : ℤ
  volumeHeaderSize : ℤ
  guidNormal : Bool
  currState : ℕ
  nextState : ℕ
  fvek : Bool
  encryption : ℕ
  /-- `parse` throws on any other size. -/
  sectorSize_eq : sectorSize = 512 ∨ sectorSize = 4096
  threeCopies : metadataOffsets.length = 3

namespace BitLockerHeader

def unsupportedReason (h : BitLockerHeader) : Option String :=
  if ¬h.guidNormal then some "it is mid-way through Windows' encrypt-on-write conversion"
  else if h.currState ≠ STATE_NORMAL ∨ h.nextState ≠ STATE_NORMAL then
    some s!"encryption or decryption is in progress (state {h.currState} → {h.nextState}). Let Windows finish it first."
  else if ¬h.fvek then some "it has no FVEK entry"
  else if h.volumeHeaderOffset < 0 ∨ h.volumeHeaderSize ≤ 0 then some "it has no volume header entry"
  else if h.volumeHeaderSize.tmod h.sectorSize ≠ 0 ∨ h.volumeHeaderOffset.tmod h.sectorSize ≠ 0 ∨
      h.metadataOffsets.any fun o => o.tmod h.sectorSize ≠ 0 then
    some "its metadata is not sector-aligned"
  else if ¬(0x8000 ≤ h.encryption ∧ h.encryption ≤ 0x8005) then
    some s!"it uses an unknown cipher (0x{String.ofList (Nat.toDigits 16 h.encryption)})"
  else none

/-! ### Splitting a range into runs -/

structure LongRange where
  first : ℤ
  last : ℤ
  deriving DecidableEq

def LongRange.until (lo hi : ℤ) : LongRange := if hi ≤ -2 ^ 63 then ⟨1, 0⟩ else ⟨lo, hi - 1⟩

def LongRange.contains (r : LongRange) (p : ℤ) : Bool := r.first ≤ p && p ≤ r.last

/-- The byte ranges that read as zeros and refuse writes, sorted. -/
def holes (h : BitLockerHeader) : List LongRange :=
  (h.metadataOffsets.map (fun o => LongRange.until o (i64 (o + METADATA_AREA_SIZE))) ++
    [LongRange.until h.volumeHeaderOffset
      (i64 (h.volumeHeaderOffset + h.volumeHeaderSize))]).insertionSort
      fun a b => a.first ≤ b.first

/-- One stretch of plaintext with a single mapping: zeros, or ciphertext at `+delta`. -/
structure Run where
  start : ℤ
  stop : ℤ
  zero : Bool
  delta : ℤ
  deriving DecidableEq

def nextStop (h : BitLockerHeader) (p hi : ℤ) : ℤ :=
  match ((h.holes.map (·.first)).filter (p < ·)).min? with
  | some nextHole => min hi nextHole
  | none => hi

lemma lt_nextStop (h : BitLockerHeader) {p hi : ℤ} (hp : p < hi) : p < h.nextStop p hi := by
  unfold nextStop
  split
  · rename_i nextHole hmin
    have hmem := List.min?_mem hmin
    have : p < nextHole := by simpa using (List.mem_filter.1 hmem).2
    omega
  · exact hp

def runs (h : BitLockerHeader) (p hi : ℤ) : List Run :=
  if hlt : p < hi then
    if hhdr : p < h.volumeHeaderSize then
      have : p < min hi h.volumeHeaderSize := by omega
      ⟨p, min hi h.volumeHeaderSize, false, h.volumeHeaderOffset⟩ ::
        h.runs (min hi h.volumeHeaderSize) hi
    else
      match hfind : h.holes.find? (·.contains p) with
      | some hole =>
        have : p < min hi (hole.last + 1) := by
          have := List.find?_some hfind
          simp only [LongRange.contains, Bool.and_eq_true, decide_eq_true_eq] at this
          omega
        ⟨p, min hi (hole.last + 1), true, 0⟩ :: h.runs (min hi (hole.last + 1)) hi
      | none =>
        have := h.lt_nextStop hlt
        ⟨p, h.nextStop p hi, false, 0⟩ :: h.runs (h.nextStop p hi) hi
  else []
termination_by (hi - p).toNat
decreasing_by all_goals omega

/-- How far from its place in the plaintext a byte lies on the partition; `none` in a hole. -/
def shift (h : BitLockerHeader) (p : ℤ) : Option ℤ :=
  if p < h.volumeHeaderSize then some h.volumeHeaderOffset
  else if h.holes.any (·.contains p) then none
  else some 0

end BitLockerHeader

open BitLockerHeader

/-- The runs follow one another from `lo` to `hi`, none is empty, and each has the mapping of its
bytes. -/
def Cover (h : BitLockerHeader) : ℤ → ℤ → List Run → Prop
  | lo, hi, [] => lo = hi
  | lo, hi, r :: rs => r.start = lo ∧ r.start < r.stop ∧
    (∀ p, r.start ≤ p → p < r.stop → h.shift p = if r.zero then none else some r.delta) ∧
    Cover h r.stop hi rs

lemma Cover.le {h : BitLockerHeader} {hi : ℤ} : ∀ {rs : List Run} {lo : ℤ}, Cover h lo hi rs → lo ≤ hi
  | [], _, hc => le_of_eq hc
  | _ :: _, _, hc => by
    have := Cover.le hc.2.2.2
    have := hc.1
    have := hc.2.1
    omega

section Runs

variable {h : BitLockerHeader} {p q hi : ℤ}

lemma not_contains_of_lt_nextStop (hnone : h.holes.find? (·.contains p) = none) (hp : p ≤ q)
    (hq : q < h.nextStop p hi) : h.holes.any (·.contains q) = false := by
  rw [List.any_eq_false]
  intro hole hmem hc
  have hout := List.find?_eq_none.1 hnone hole hmem
  simp only [LongRange.contains, Bool.and_eq_true, decide_eq_true_eq] at hc hout
  have hbefore : p < hole.first := by omega
  have hin : hole.first ∈ (h.holes.map (·.first)).filter (p < ·) :=
    List.mem_filter.2 ⟨List.mem_map.2 ⟨hole, hmem, rfl⟩, by simpa using hbefore⟩
  unfold nextStop at hq
  split at hq
  · rename_i nextHole hmin
    have := (List.min?_eq_some_iff.1 hmin).2 _ hin
    omega
  · rename_i hmin
    rw [List.min?_eq_none_iff.1 hmin] at hin
    cases hin

lemma runs_header (hlt : p < hi) (hhdr : p < h.volumeHeaderSize) : h.runs p hi =
    ⟨p, min hi h.volumeHeaderSize, false, h.volumeHeaderOffset⟩ ::
      h.runs (min hi h.volumeHeaderSize) hi := by
  rw [runs, dif_pos hlt, dif_pos hhdr]

lemma runs_hole {hole : LongRange} (hlt : p < hi) (hhdr : ¬p < h.volumeHeaderSize)
    (hfind : h.holes.find? (·.contains p) = some hole) :
    h.runs p hi = ⟨p, min hi (hole.last + 1), true, 0⟩ :: h.runs (min hi (hole.last + 1)) hi := by
  rw [runs, dif_pos hlt, dif_neg hhdr]
  split
  · rename_i hole' hfind'
    rw [hfind] at hfind'
    cases hfind'
    rfl
  · rename_i hnone
    rw [hfind] at hnone
    cases hnone

lemma runs_free (hlt : p < hi) (hhdr : ¬p < h.volumeHeaderSize)
    (hnone : h.holes.find? (·.contains p) = none) :
    h.runs p hi = ⟨p, h.nextStop p hi, false, 0⟩ :: h.runs (h.nextStop p hi) hi := by
  rw [runs, dif_pos hlt, dif_neg hhdr]
  split
  · rename_i hole hfind
    rw [hnone] at hfind
    cases hfind
  · rfl

lemma runs_nil (hlt : ¬p < hi) : h.runs p hi = [] := by
  rw [runs, dif_neg hlt]

/-- **A range is split exactly**: the runs cover it once, in order. -/
theorem runs_cover (h : BitLockerHeader) (p hi : ℤ) (hp : p ≤ hi) : Cover h p hi (h.runs p hi) := by
  induction p using BitLockerHeader.runs.induct h hi with
  | case1 p hlt hhdr hprogress ih =>
    rw [runs_header hlt hhdr]
    refine ⟨rfl, hprogress, fun q h1 h2 => ?_, ih (by omega)⟩
    exact if_pos (by dsimp only at h2; omega)
  | case2 p hlt hhdr hole hfind hprogress ih =>
    rw [runs_hole hlt hhdr hfind]
    refine ⟨rfl, hprogress, fun q h1 h2 => ?_, ih (by omega)⟩
    dsimp only at h1 h2
    have hc := List.find?_some hfind
    have hin : h.holes.any (·.contains q) = true := by
      refine List.any_eq_true.2 ⟨hole, List.mem_of_find?_eq_some hfind, ?_⟩
      simp only [LongRange.contains, Bool.and_eq_true, decide_eq_true_eq] at hc ⊢
      omega
    rw [shift, if_neg (by omega), if_pos hin]
    rfl
  | case3 p hlt hhdr hnone hprogress ih =>
    have hle : h.nextStop p hi ≤ hi := by
      unfold nextStop
      split <;> omega
    rw [runs_free hlt hhdr hnone]
    refine ⟨rfl, hprogress, fun q h1 h2 => ?_, ih hle⟩
    dsimp only at h1 h2
    rw [shift, if_neg (by omega), not_contains_of_lt_nextStop hnone h1 h2]
  | case4 p hlt =>
    rw [runs_nil hlt]
    exact le_antisymm hp (not_lt.1 hlt)

end Runs

/-! ### The device -/

/-- A `BitLockerBlockDevice` as `BitLockerUnlocker.unlock` makes it. -/
structure BitLockerBlockDevice where
  startBlock : ℕ
  partitionBlocks : ℕ
  header : BitLockerHeader
  supported : header.unsupportedReason = none
  cipher : SectorCipher header.sectorSize

namespace BitLockerBlockDevice

variable (d : BitLockerBlockDevice)

abbrev es : ℕ := d.header.sectorSize

def readRun (bs : ℕ) (fromByte : ℤ) (out : List UInt8) (r : Run) : D (List UInt8) := do
  if r.zero then return out
  else
    let phys := i64 (r.start + r.delta)
    let data ← readDrive (i64 (d.startBlock + phys.tdiv bs)) (i32 ((r.stop - r.start).tdiv bs))
    let data ← orThrow (d.cipher.cryptSectors false (phys.tdiv d.es) data)
      ⟨.io, s!"BitLocker decryption failed at byte {phys} (rc=-1)"⟩
    arraycopy data out (i32 (r.start - fromByte))

def readPlain (bs : ℕ) (fromByte toByte : ℤ) : D (List UInt8) := do
  let n := i32 (toByte - fromByte)
  throwIf (n < 0) ⟨.negativeArraySize, s!"{n}"⟩
  (d.header.runs fromByte toByte).foldlM (d.readRun bs fromByte) (List.replicate n.toNat 0)

def readBlocks (startBlock blockCount : ℤ) : D (List UInt8) := do
  let bs := (← get).drive.blockSize
  requireInRange d.partitionBlocks startBlock blockCount "read"
  let fromByte := i64 (startBlock * bs)
  let toByte := i64 (fromByte + blockCount * bs)
  let aFrom := floorTo d.es fromByte
  let aTo := ceilTo d.es toByte
  let plain ← d.readPlain bs aFrom aTo
  if aFrom = fromByte ∧ aTo = toByte then return plain
  else copyOfRange plain (i32 (fromByte - aFrom)) (i32 (toByte - aFrom))

def writeRun (bs : ℕ) (aFrom : ℤ) (plain : List UInt8) (r : Run) : D PUnit := do
  throwIf (r.zero = true)
    ⟨.io, s!"refusing a write into BitLocker's own metadata at byte {r.start}: the filesystem " ++
      "should never address it, and writing it would destroy the keys"⟩
  let phys := i64 (r.start + r.delta)
  let chunk ← copyOfRange plain (i32 (r.start - aFrom)) (i32 (r.stop - aFrom))
  let chunk ← orThrow (d.cipher.cryptSectors true (phys.tdiv d.es) chunk)
    ⟨.io, s!"BitLocker encryption failed at byte {phys} (rc=-1)"⟩
  writeDrive (i64 (d.startBlock + phys.tdiv bs)) chunk

def writeBlocks (startBlock : ℤ) (data : List UInt8) : D PUnit := do
  let bs := (← get).drive.blockSize
  requireInRange d.partitionBlocks startBlock (data.length / bs : ℕ) "write"
  let fromByte := i64 (startBlock * bs)
  let toByte := i64 (fromByte + data.length)
  let aFrom := floorTo d.es fromByte
  let aTo := ceilTo d.es toByte
  let plain ← if aFrom = fromByte ∧ aTo = toByte then pure data
    else do
      let whole ← d.readPlain bs aFrom aTo
      arraycopy data whole (i32 (fromByte - aFrom))
  (d.header.runs aFrom aTo).forM (d.writeRun bs aFrom plain)

end BitLockerBlockDevice

end OtgMaster.Bitlocker
