import OtgMaster.Format.Support
import OtgMaster.Lib.Bits

/-!
`ExFatFormatter`: the layout of an empty exFAT volume, and its boot regions, FAT, allocation bitmap,
up-case table and root directory.
-/

namespace OtgMaster.Format.ExFat

open Lib Bytes Block

/-! ### The layout -/

def BOOT_REGION_SECTORS : ℕ := 12

def FIRST_CLUSTER : ℤ := 2

structure Layout where
  bytesPerSector : ℕ
  totalSectors : ℤ
  sectorsPerCluster : ℤ
  fatOffset : ℤ
  fatLength : ℤ
  clusterHeapOffset : ℤ
  clusterCount : ℤ

namespace Layout

variable (l : Layout)

def clusterBytes : ℤ := l.sectorsPerCluster * l.bytesPerSector

def clusterSector (cluster : ℤ) : ℤ :=
  l.clusterHeapOffset + (cluster - FIRST_CLUSTER) * l.sectorsPerCluster

end Layout

def defaultClusterBytes (totalBytes : ℤ) : ℤ :=
  if totalBytes ≤ 256 * 2 ^ 20 then 4096
  else if totalBytes ≤ 32 * 2 ^ 30 then 32768
  else 131072

def bitCount (v : ℤ) : ℕ := (List.range 32).countP fun i => (low 4 v).testBit i

def alignUp (v a : ℤ) : ℤ := (i64 (v + a - 1)).tdiv a * a

def clustersFor (totalSectors spc fatOffset fat : ℤ) : ℤ :=
  min ((i64 (totalSectors - alignUp (fatOffset + fat) spc)).tdiv spc) 0xFFFFFFF5

def covers (bytesPerSector : ℕ) (totalSectors spc fatOffset fat : ℤ) : Bool :=
  clustersFor totalSectors spc fatOffset fat + 2 ≤ (i64 (fat * bytesPerSector)).tdiv 4

section AlignUp

variable {v a : ℤ}

lemma alignUp_of_nonneg (hv : 0 ≤ v) (ha : 0 < a) (hlt : v + a ≤ 2 ^ 63) :
    alignUp v a = (v + a - 1) / a * a := by
  unfold alignUp
  rw [i64_of_lt (by omega) (by omega), tdiv_of_nonneg (by omega)]

lemma alignUp_le (hv : 0 ≤ v) (ha : 0 < a) : alignUp v a ≤ (v + a - 1) / a * a := by
  obtain ⟨k, hk, -, hlt⟩ := i64_eq (v + a - 1)
  unfold alignUp
  refine mul_le_mul_of_nonneg_right ?_ ha.le
  rw [← tdiv_of_nonneg (show 0 ≤ v + a - 1 by omega)]
  rcases le_total 0 (i64 (v + a - 1)) with h | h
  · rw [tdiv_of_nonneg h, tdiv_of_nonneg (by omega)]
    exact Int.ediv_le_ediv ha (by omega)
  · rw [tdiv_of_nonpos h, tdiv_of_nonneg (by omega)]
    have h1 := Int.ediv_nonneg (a := -i64 (v + a - 1)) (by omega) ha.le
    have h2 := Int.ediv_nonneg (show 0 ≤ v + a - 1 by omega) ha.le
    omega

lemma dvd_alignUp : a ∣ alignUp v a := Int.dvd_mul_left ..

lemma alignUp_of_dvd (ha : 0 < a) (hv : 0 ≤ v) (hlt : v + a ≤ 2 ^ 63) (h : a ∣ v) : alignUp v a = v := by
  obtain ⟨k, rfl⟩ := h
  rw [alignUp_of_nonneg hv ha hlt,
    show a * k + a - 1 = a - 1 + a * k by ring, Int.add_mul_ediv_left _ _ ha.ne',
    Int.ediv_eq_zero_of_lt (by omega) (by omega), zero_add, mul_comm]

end AlignUp

/-- A step that is halved and rounded up to whole clusters, down to one cluster. -/
def steps (spc : ℤ) (h : 0 < spc) : Steps where
  least := spc
  next := fun step => if step = spc then 0 else alignUp (step.tdiv 2) spc
  pos := h
  less := by
    intro step hle
    split
    · omega
    · rename_i hne
      rw [tdiv_of_nonneg (by omega)]
      have hup := alignUp_le (v := step / 2) (by omega) h
      have hmul := Int.ediv_mul_le (step / 2 + spc - 1) h.ne'
      rcases le_or_gt (step / 2) spc with hhalf | hhalf
      · have hone : (step / 2 + spc - 1) / spc < 2 := Int.ediv_lt_of_lt_mul h (by omega)
        have hle := mul_le_mul_of_nonneg_right (show (step / 2 + spc - 1) / spc ≤ 1 by omega) h.le
        omega
      · omega

def clusterBytesOr (bytesPerSector : ℕ) (totalSectors : ℤ) (clusterBytes : Option ℤ) : ℤ :=
  clusterBytes.getD (defaultClusterBytes (i64 (totalSectors * bytesPerSector)))

def layout (bytesPerSector : ℕ) (totalSectors clusterBytes : ℤ) : E Layout := do
  require (bytesPerSector ∈ [512, 1024, 2048, 4096]) s!"unsupported sector size {bytesPerSector}"
  require (bytesPerSector ≤ clusterBytes ∧ bitCount clusterBytes = 1 ∧ clusterBytes ≤ 32 * 2 ^ 20)
    s!"unsupported cluster size {clusterBytes}"
  require (2 ^ 20 ≤ i64 (totalSectors * bytesPerSector)) "exFAT needs a volume of at least 1 MiB"
  let spc := clusterBytes.tdiv bytesPerSector
  let fatOffset := alignUp (2 * BOOT_REGION_SECTORS) spc
  let fat := alignUp (firstFat bytesPerSector totalSectors spc) spc
  -- a cluster is at least a sector
  let fatLength := if h : 0 < spc then
      shrink (steps spc h) (covers bytesPerSector totalSectors spc fatOffset) fat
        (alignUp (fat.tdiv 2) spc)
    else fat
  let heap := alignUp (fatOffset + fatLength) spc
  let clusters := clustersFor totalSectors spc fatOffset fatLength
  require (3 < clusters) s!"too small for exFAT with {clusterBytes}-byte clusters"
  check (clusters + 2 ≤ (i64 (fatLength * bytesPerSector)).tdiv 4) "Check failed."
  return ⟨bytesPerSector, totalSectors, spc, fatOffset, fatLength, heap, clusters⟩

/-! ### The up-case table -/

section Format

variable (lib : Library)

def upper (c : ℕ) : ℕ :=
  if 0xD800 ≤ c ∧ c ≤ 0xDFFF then c else (lib.toUpperCase (UInt16.ofNat c)).toNat

def put (v : ℕ) : List UInt8 := [UInt8.ofNat v, UInt8.ofNat (v / 256)]

/-- How many characters from `c` on map to themselves. -/
def run (c : ℕ) : ℕ := ((List.range' c (0x10000 - c)).takeWhile fun x => upper lib x = x).length

def compressedFrom (c : ℕ) : List UInt8 :=
  if 0xFFFF < c then []
  else if _ : 3 ≤ run lib c ∨ (0 < run lib c ∧ 0xFFFF < c + run lib c) then
    put 0xFFFF ++ put (run lib c) ++ compressedFrom (c + run lib c)
  else if _ : 0 < run lib c then (List.range' c (run lib c)).flatMap put ++
    compressedFrom (c + run lib c)
  else put (upper lib c) ++ compressedFrom (c + 1)
termination_by 0x10000 - c

def compressed : List UInt8 := compressedFrom lib 0

lemma run_le (c : ℕ) : run lib c ≤ 0x10000 - c := by
  unfold run
  refine (List.takeWhile_prefix _).length_le.trans ?_
  rw [List.length_range']

/-- A character takes two bytes at most, and one run may need two more. -/
lemma compressedFrom_length (c : ℕ) : (compressedFrom lib c).length ≤ 2 * (0x10000 - c) + 2 := by
  have hput : ∀ xs : List ℕ, (xs.flatMap put).length = 2 * xs.length := by
    intro xs
    induction xs with
    | nil => rfl
    | cons x xs ih =>
      rw [List.flatMap_cons, List.length_append, ih]
      simp only [put, List.length_cons, List.length_nil]
      omega
  fun_induction compressedFrom lib c with
  | case1 => simp
  | case2 c hc hrun ih =>
    have hle := run_le lib c
    simp only [List.length_append, put, List.length_cons, List.length_nil]
    -- the run that ends the table is the last
    by_cases hend : 0xFFFF < c + run lib c
    · have hnil : compressedFrom lib (c + run lib c) = [] := by rw [compressedFrom, if_pos hend]
      rw [hnil]
      simp only [List.length_nil]
      omega
    · omega
  | case3 c hc hlong hrun ih =>
    have hle := run_le lib c
    rw [List.length_append, hput, List.length_range']
    omega
  | case4 c hc hlong hrun ih =>
    simp only [List.length_append, put, List.length_cons, List.length_nil]
    omega

lemma compressed_length : (compressed lib).length ≤ 131074 := compressedFrom_length lib 0

/-! ### What is written -/

def rotr (v : UInt32) : UInt32 := (if v &&& 1 ≠ 0 then (0x80000000 : UInt32) else 0) + (v >>> 1)

def checksum32 (data : List UInt8) : UInt32 := data.foldl (fun sum b => rotr sum + b.toUInt32) 0

def clustersForBytes (bytes : ℤ) (l : Layout) : ℤ :=
  max 1 ((bytes + l.clusterBytes - 1).tdiv l.clusterBytes)

structure Areas where
  bitmapBytes : ℤ
  bitmapClusters : ℤ
  upcaseClusters : ℤ

def areas (l : Layout) : Areas where
  bitmapBytes := (l.clusterCount + 7).tdiv 8
  bitmapClusters := clustersForBytes ((l.clusterCount + 7).tdiv 8) l
  upcaseClusters := clustersForBytes (compressed lib).length l

namespace Areas

variable (a : Areas)

def bitmapCluster : ℤ := FIRST_CLUSTER

def upcaseCluster : ℤ := bitmapCluster + a.bitmapClusters

def rootCluster : ℤ := a.upcaseCluster + a.upcaseClusters

def usedClusters : ℤ := a.bitmapClusters + a.upcaseClusters + 1

end Areas

def chain (first count : ℤ) : List ℕ :=
  (List.range count.toNat).map fun k : ℕ =>
    if first + k = first + count - 1 then 0xFFFFFFFF else low 4 (first + k + 1)

def fatEntries (a : Areas) : List ℕ :=
  [0xFFFFFFF8, 0xFFFFFFFF] ++ chain Areas.bitmapCluster a.bitmapClusters ++
    chain a.upcaseCluster a.upcaseClusters ++
    chain a.rootCluster 1

def fatBytes (a : Areas) : E (List UInt8) := do
  let size := i32 ((a.usedClusters + 2) * 4)
  require (0 ≤ size) s!"capacity < 0: ({size} < 0)"
  failIf (size < 4 * (fatEntries a).length) ⟨.bufferOverflow, ""⟩
  return ((fatEntries a).zipIdx.foldl (fun b (v, i) => b.put32 (4 * i) v) zeros).slice 0 size.toNat

def padToSectors (data : List UInt8) (bps : ℕ) : List UInt8 :=
  data ++ List.replicate ((data.length + bps - 1) / bps * bps - data.length) 0

/-- `bitmap`: the bits of the used clusters; setting one past the end of the array throws. -/
def bitmap (l : Layout) (a : Areas) : E (List UInt8) := do
  let size := i32 (a.bitmapClusters * l.clusterBytes)
  failIf (size < 0) ⟨.negativeArraySize, s!"{size}"⟩
  failIf (8 * size < a.usedClusters) ⟨.indexOutOfBounds, s!"length={size}; index={size}"⟩
  return ((List.range a.usedClusters.toNat).foldl (fun b i => b.setBit i) zeros).slice 0 size.toNat

def root (a : Areas) (label : Text) : Bytes :=
  let labelChars := (lib.trim label).take 11
  let b := zeros.put8 0 0x83
  let b := b.put8 1 labelChars.length
  let b := labelChars.zipIdx.foldl (fun b (ch, i) => b.put16 (2 + 2 * i) ch.toNat) b
  let b := b.put8 32 0x81
  let b := b.put32 (32 + 20) (low 4 Areas.bitmapCluster)
  let b := b.put64 (32 + 24) (low 8 a.bitmapBytes)
  let b := b.put8 64 0x82
  let b := b.put32 (64 + 4) (checksum32 (compressed lib)).toNat
  let b := b.put32 (64 + 20) (low 4 a.upcaseCluster)
  b.put64 (64 + 24) (compressed lib).length

def numberOfTrailingZeros (v : ℤ) : ℕ := ((List.range 32).takeWhile fun i => !(low 4 v).testBit i).length

/-- The first eleven sectors of `bootRegion`. -/
def bootHead (l : Layout) (rootCluster partitionOffset serial : ℤ) (percentInUse : ℤ) : Bytes :=
  let bps := l.bytesPerSector
  let b := zeros.patch 0 3 (ofList [0xEB, 0x76, 0x90])
  let b := b.patch 3 8 (ofList [0x45, 0x58, 0x46, 0x41, 0x54, 0x20, 0x20, 0x20])
  let b := b.put64 64 (low 8 partitionOffset)
  let b := b.put64 72 (low 8 l.totalSectors)
  let b := b.put32 80 (low 4 l.fatOffset)
  let b := b.put32 84 (low 4 l.fatLength)
  let b := b.put32 88 (low 4 l.clusterHeapOffset)
  let b := b.put32 92 (low 4 l.clusterCount)
  let b := b.put32 96 (low 4 rootCluster)
  let b := b.put32 100 (low 4 serial)
  let b := b.put16 104 0x0100
  let b := b.put16 106 0
  let b := b.put8 108 (numberOfTrailingZeros bps)
  let b := b.put8 109 (numberOfTrailingZeros l.sectorsPerCluster)
  let b := b.put8 110 1
  let b := b.put8 111 0x80
  let b := b.put8 112 (low 1 percentInUse)
  let b := b.patch 120 390 fun _ => 0xF4
  let b := (b.put8 510 0x55).put8 511 0xAA
  (List.range' 1 8).foldl (fun b s => (b.put8 (s * bps + bps - 2) 0x55).put8 (s * bps + bps - 1) 0xAA) b

/-- The checksum of the first eleven sectors, without `VolumeFlags` and `PercentInUse`. -/
def bootChecksum (head : Bytes) (bps : ℕ) : UInt32 :=
  (List.range (11 * bps)).foldl (fun sum i =>
    if i = 106 ∨ i = 107 ∨ i = 112 then sum else rotr sum + (head i).toUInt32) 0

def bootRegion (l : Layout) (rootCluster partitionOffset serial : ℤ) (percentInUse : ℤ) : List UInt8 :=
  let bps := l.bytesPerSector
  let head := bootHead l rootCluster partitionOffset serial percentInUse
  let sum := (bootChecksum head bps).toNat
  ((List.range (bps / 4)).foldl (fun b i => b.put32 (11 * bps + i * 4) sum) head).slice 0
    (BOOT_REGION_SECTORS * bps)

def format {σ : Type} (dev : RawBlockDevice σ) (totalSectors : ℤ) (label : Text)
    (clusterBytes : Option ℤ) (partitionOffset : ℤ) : EStateM Thrown σ Layout := do
  require (totalSectors ≤ dev.blockCount)
    s!"volume of {totalSectors} sectors on a device of {dev.blockCount}"
  let bps := dev.blockSize
  let l ← layout bps totalSectors (clusterBytesOr bps totalSectors clusterBytes)
  let a := areas lib l
  zero dev 0 l.clusterHeapOffset
  let fatBytes ← fatBytes a
  dev.writeBlocks l.fatOffset (padToSectors fatBytes bps)
  let bitmap ← bitmap l a
  dev.writeBlocks (l.clusterSector Areas.bitmapCluster) bitmap
  let upcaseArea := (ofList (compressed lib)).slice 0 (i32 (a.upcaseClusters * l.clusterBytes)).toNat
  dev.writeBlocks (l.clusterSector a.upcaseCluster) upcaseArea
  dev.writeBlocks (l.clusterSector a.rootCluster) ((root lib a label).slice 0 l.clusterBytes.toNat)
  let region :=
    bootRegion l a.rootCluster partitionOffset lib.volumeSerial
      ((a.usedClusters * 100).tdiv l.clusterCount)
  dev.writeBlocks BOOT_REGION_SECTORS region
  dev.writeBlocks 0 region
  return l

end Format

end OtgMaster.Format.ExFat
