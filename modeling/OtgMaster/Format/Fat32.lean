import OtgMaster.Format.Support

/-!
`Fat32Formatter`: the layout of an empty FAT32 volume, and its boot sectors, FATs and root
directory.

The layout is worked out in `Long`s that may wrap, on a number of sectors that may be negative. What
it accepts is a volume that holds what `format` writes (`layout_ok`).
-/

namespace OtgMaster.Format.Fat32

open Lib Bytes Block

/-! ### The layout -/

def MIN_CLUSTERS : ℤ := 65525

def MAX_CLUSTERS : ℤ := 0x0FFFFFF4

def RESERVED_SECTORS : ℤ := 32

def FAT_COUNT : ℕ := 2

structure Layout where
  bytesPerSector : ℕ
  totalSectors : ℤ
  sectorsPerCluster : ℤ
  reservedSectors : ℤ
  fatSectors : ℤ
  clusterCount : ℤ

def Layout.dataStartSector (l : Layout) : ℤ := l.reservedSectors + FAT_COUNT * l.fatSectors

def defaultClusterBytes (totalBytes : ℤ) : ℤ :=
  if totalBytes ≤ 64 * 2 ^ 20 then 512
  else if totalBytes ≤ 128 * 2 ^ 20 then 1024
  else if totalBytes ≤ 256 * 2 ^ 20 then 2048
  else if totalBytes ≤ 8 * 2 ^ 30 then 4096
  else if totalBytes ≤ 16 * 2 ^ 30 then 8192
  else if totalBytes ≤ 32 * 2 ^ 30 then 16384
  else 32768

def reservedFor (spc fat : ℤ) : ℤ :=
  let dataStart := i64 (RESERVED_SECTORS + i64 (FAT_COUNT * fat))
  RESERVED_SECTORS + (spc - dataStart.tmod spc).tmod spc

def clustersFor (totalSectors spc fat : ℤ) : ℤ :=
  (i64 (i64 (totalSectors - reservedFor spc fat) - i64 (FAT_COUNT * fat))).tdiv spc

def covers (bytesPerSector : ℕ) (totalSectors spc fat : ℤ) : Bool :=
  i64 (clustersFor totalSectors spc fat + 2) ≤ (i64 (fat * bytesPerSector)).tdiv 4

def steps : Steps where
  least := 1
  next := fun step => step.tdiv 2
  pos := by decide
  less := fun step h => by rw [tdiv_of_nonneg (by omega)]; omega

def clusterBytesOr (bytesPerSector : ℕ) (totalSectors : ℤ) (clusterBytes : Option ℤ) : ℤ :=
  clusterBytes.getD (defaultClusterBytes (i64 (totalSectors * bytesPerSector)))

def layout (bytesPerSector : ℕ) (totalSectors clusterBytes : ℤ) : E Layout := do
  require (bytesPerSector ∈ [512, 1024, 2048, 4096]) s!"unsupported sector size {bytesPerSector}"
  require (totalSectors ≤ 0xFFFFFFFF) "FAT32 cannot address more than 2^32 sectors"
  let spc := max 1 (clusterBytes.tdiv bytesPerSector)
  require (spc ∈ [1, 2, 4, 8, 16, 32, 64, 128]) s!"unsupported cluster size {clusterBytes}"
  let fat := firstFat bytesPerSector totalSectors spc
  let fatSectors := shrink steps (covers bytesPerSector totalSectors spc) fat (fat.tdiv 2)
  let reserved := reservedFor spc fatSectors
  let clusters := clustersFor totalSectors spc fatSectors
  require (MIN_CLUSTERS ≤ clusters)
    (s!"Too small for FAT32 with {spc * bytesPerSector}-byte clusters: " ++
      s!"{clusters} clusters, FAT32 needs at least {MIN_CLUSTERS}")
  require (clusters ≤ MAX_CLUSTERS) s!"too many clusters for FAT32: {clusters}"
  check (clusters + 2 ≤ (i64 (fatSectors * bytesPerSector)).tdiv 4)
    s!"FAT too small for {clusters} clusters"
  check ((i64 (reserved + i64 (FAT_COUNT * fatSectors))).tmod spc = 0) "data area not cluster aligned"
  return ⟨bytesPerSector, totalSectors, spc, reserved, fatSectors, clusters⟩

/-! ### What is written -/

section Format

variable (lib : Library)

def fatLabel (label : Text) : Option (List UInt8) :=
  let clean := (lib.uppercase (lib.trim label)).filter fun c =>
    decide (0x20 ≤ c ∧ c ≤ 0x7E) && !("\"*+,./:;<=>?[\\]|".toList.contains (Char.ofNat c.toNat))
  if clean.isEmpty then none
  else some (((clean.map fun c => UInt8.ofNat c.toNat).take 11) ++
    List.replicate (11 - clean.length) 0x20)

def ascii (s : String) : Bytes := ofList (s.toList.map fun c => UInt8.ofNat c.toNat)

def bootSector (l : Layout) (label : Option (List UInt8)) (hidden volumeId : ℤ) : Bytes :=
  let b := zeros.patch 0 3 (ofList [0xEB, 0x58, 0x90])
  let b := b.patch 3 8 (ascii "MSWIN4.1")
  let b := b.put16 11 (low 2 l.bytesPerSector)
  let b := b.put8 13 (low 1 l.sectorsPerCluster)
  let b := b.put16 14 (low 2 l.reservedSectors)
  let b := b.put8 16 FAT_COUNT
  let b := b.put8 21 0xF8
  let b := (b.put16 24 63).put16 26 255
  let b := b.put32 28 (low 4 (min hidden 0xFFFFFFFF))
  let b := b.put32 32 (low 4 l.totalSectors)
  let b := b.put32 36 (low 4 l.fatSectors)
  let b := b.put32 44 2
  let b := b.put16 48 1
  let b := b.put16 50 6
  let b := b.put8 64 0x80
  let b := b.put8 66 0x29
  let b := b.put32 67 (low 4 volumeId)
  let b := b.patch 71 11 (match label with
    | some bytes => ofList bytes
    | none => ascii "NO NAME    ")
  let b := b.patch 82 8 (ascii "FAT32   ")
  (b.put8 510 0x55).put8 511 0xAA

def fsInfoSector (l : Layout) : Bytes :=
  let b := zeros.put32 0 0x41615252
  let b := b.put32 484 0x61417272
  let b := b.put32 488 (low 4 (l.clusterCount - 1))
  let b := b.put32 492 3
  b.put32 508 0xAA550000

/-- `volumeLabelEntry`, over the front of the root directory. -/
def volumeLabelEntry (label : List UInt8) : Bytes :=
  let e := zeros.patch 0 11 (ofList label)
  let e := e.put8 11 0x08
  (e.put16 22 lib.fatTime.2).put16 24 lib.fatTime.1

def fatHead : Bytes := ((zeros.put32 0 0x0FFFFFF8).put32 4 0x0FFFFFFF).put32 8 0x0FFFFFFF

/-- The boot sector, the information sector and the third sector, as they stand at 0 and at 6. -/
def bootSectors (l : Layout) (label : Option (List UInt8)) (hidden volumeId : ℤ) : List UInt8 :=
  (bootSector l label hidden volumeId).slice 0 l.bytesPerSector ++
    (fsInfoSector l).slice 0 l.bytesPerSector ++
    ((zeros.put8 510 0x55).put8 511 0xAA).slice 0 l.bytesPerSector

def rootBytes : Option (List UInt8) → Bytes
  | some bytes => volumeLabelEntry lib bytes
  | none => zeros

def rootDirectory (l : Layout) (label : Option (List UInt8)) : List UInt8 :=
  (rootBytes lib label).slice 0 ((l.sectorsPerCluster * l.bytesPerSector).toNat)

def format {σ : Type} (dev : RawBlockDevice σ) (totalSectors : ℤ) (label : Text)
    (clusterBytes : Option ℤ) (hiddenSectors : ℤ) : EStateM Thrown σ Layout := do
  require (totalSectors ≤ dev.blockCount)
    s!"volume of {totalSectors} sectors on a device of {dev.blockCount}"
  let bps := dev.blockSize
  let l ← layout bps totalSectors (clusterBytesOr bps totalSectors clusterBytes)
  let labelBytes := fatLabel lib label
  zero dev 0 l.dataStartSector
  dev.writeBlocks 0 (bootSectors l labelBytes hiddenSectors lib.volumeSerial)
  dev.writeBlocks 6 (bootSectors l labelBytes hiddenSectors lib.volumeSerial)
  (List.range FAT_COUNT).forM fun i => dev.writeBlocks (l.reservedSectors + i * l.fatSectors)
    (fatHead.slice 0 bps)
  dev.writeBlocks l.dataStartSector (rootDirectory lib l labelBytes)
  return l

def requests (l : Layout) (label : Text) (hiddenSectors : ℤ) : List Request :=
  zeroRequests l.bytesPerSector 0 l.dataStartSector ++
    [⟨0, bootSectors l (fatLabel lib label) hiddenSectors lib.volumeSerial⟩,
      ⟨6, bootSectors l (fatLabel lib label) hiddenSectors lib.volumeSerial⟩,
      ⟨l.reservedSectors, fatHead.slice 0 l.bytesPerSector⟩,
      ⟨l.reservedSectors + l.fatSectors, fatHead.slice 0 l.bytesPerSector⟩,
      ⟨l.dataStartSector, rootDirectory lib l (fatLabel lib label)⟩]

end Format

/-! ### What the layout accepts -/

structure Layout.Sound (l : Layout) : Prop where
  bytesPerSector : l.bytesPerSector ∈ [512, 1024, 2048, 4096]
  sectorsPerCluster : 0 < l.sectorsPerCluster
  reserved : 32 ≤ l.reservedSectors
  fat : 0 < l.fatSectors
  clusters : MIN_CLUSTERS ≤ l.clusterCount
  fits : l.dataStartSector + l.clusterCount * l.sectorsPerCluster ≤ l.totalSectors

section Accepts

variable {bps : ℕ} {total spc fat : ℤ}

lemma reservedFor_bounds (fat : ℤ) (hspc : 0 < spc) :
    32 ≤ reservedFor spc fat ∧ reservedFor spc fat < 32 + spc := by
  unfold reservedFor RESERVED_SECTORS
  dsimp only
  generalize i64 (32 + i64 (FAT_COUNT * fat)) = start
  have h1 : start.tmod spc < spc := Int.tmod_lt_of_pos start hspc
  rw [tmod_of_nonneg (by omega)]
  have h2 := Int.emod_nonneg (spc - start.tmod spc) hspc.ne'
  have h3 := Int.emod_lt_of_pos (spc - start.tmod spc) hspc
  omega

lemma clustersFor_eq (hspc : 0 < spc) (hspc' : spc ≤ 128) (hlo : -2 ^ 63 ≤ total)
    (hhi : total ≤ 0xFFFFFFFF) (hfat : -2 ^ 54 ≤ fat ∧ fat ≤ 2 ^ 54)
    (hmin : MIN_CLUSTERS ≤ clustersFor total spc fat)
    (hmax : clustersFor total spc fat ≤ MAX_CLUSTERS) :
    clustersFor total spc fat = (total - reservedFor spc fat - 2 * fat) / spc := by
  obtain ⟨hr1, hr2⟩ := reservedFor_bounds fat hspc
  obtain ⟨k, hk, -, -⟩ := i64_eq (total - reservedFor spc fat)
  obtain ⟨k', hk', hx1, hx2⟩ := i64_eq (i64 (total - reservedFor spc fat) - 2 * fat)
  have htwo : i64 (FAT_COUNT * fat) = 2 * fat := by
    unfold FAT_COUNT
    exact i64_of_range (by push_cast; omega) (by push_cast; omega)
  unfold clustersFor at hmin hmax ⊢
  rw [htwo] at hmin hmax ⊢
  unfold MIN_CLUSTERS at hmin
  unfold MAX_CLUSTERS at hmax
  obtain ⟨x, hx⟩ : ∃ x, i64 (i64 (total - reservedFor spc fat) - 2 * fat) = x := ⟨_, rfl⟩
  rw [hx] at hmin hmax hk' hx1 hx2 ⊢
  -- a wrap would leave far too many clusters
  rcases le_or_gt x 0 with hneg | hpos
  · rw [tdiv_of_nonpos hneg] at hmin
    have := Int.ediv_nonneg (a := -x) (by omega) hspc.le
    omega
  · rw [tdiv_of_nonneg hpos.le] at hmin hmax ⊢
    have hsmall : x < (0x0FFFFFF4 + 1) * 128 := by
      have h := Int.lt_ediv_add_one_mul_self x hspc
      nlinarith
    rw [show x = total - reservedFor spc fat - 2 * fat by omega]

lemma fat_pos (hbps : bps ∈ [512, 1024, 2048, 4096])
    (hspc : spc ∈ ([1, 2, 4, 8, 16, 32, 64, 128] : List ℤ)) (hhi : total ≤ 0xFFFFFFFF)
    (hfat : fat = firstFat bps total spc ∨ 0 < fat ∧ fat < firstFat bps total spc)
    (hclusters : 0 < total - 32 - 2 * fat) : 0 < fat := by
  rcases hfat with rfl | hfat
  swap
  · exact hfat.1
  simp only [List.mem_cons, List.not_mem_nil, or_false] at hbps hspc
  obtain ⟨hlo, -⟩ := firstFat_bounds total spc (show 512 ≤ bps by omega)
  have heq : firstFat bps total spc = _ := firstFat_eq (by omega) (by omega) (by omega) (by omega)
  rw [heq] at hclusters ⊢
  rcases le_or_gt 0 total with h0 | h0
  · rw [tdiv_of_nonneg h0, tdiv_of_nonneg]
    · rcases hbps with rfl | rfl | rfl | rfl <;>
          rcases hspc with rfl | rfl | rfl | rfl | rfl | rfl | rfl | rfl <;>
        push_cast <;> omega
    · rcases hspc with rfl | rfl | rfl | rfl | rfl | rfl | rfl | rfl <;> omega
  · exfalso
    rw [tdiv_of_nonpos (a := total) h0.le] at hclusters
    have hq : -total / spc ≤ -total := by
      rcases hspc with rfl | rfl | rfl | rfl | rfl | rfl | rfl | rfl <;> omega
    have hq0 : 0 ≤ -total / spc := Int.ediv_nonneg (by omega) (by omega)
    generalize -total / spc = q at hq hq0 hclusters
    rcases le_or_gt ((-q + 2) * 4 + (bps : ℤ) - 1) 0 with hy | hy
    · rw [tdiv_of_nonpos hy] at hclusters
      rcases hbps with rfl | rfl | rfl | rfl <;> push_cast at hclusters <;> omega
    · rw [tdiv_of_nonneg hy.le] at hclusters
      rcases hbps with rfl | rfl | rfl | rfl <;> push_cast at hclusters hy <;> omega

def fatFor (bps : ℕ) (total spc : ℤ) : ℤ :=
  shrink steps (covers bps total spc) (firstFat bps total spc) ((firstFat bps total spc).tdiv 2)

lemma layout_parts {clusterBytes : ℤ} {l : Layout} (h : layout bps total clusterBytes = .ok l) :
    ∃ spc ∈ ([1, 2, 4, 8, 16, 32, 64, 128] : List ℤ), ∃ fat, fat = fatFor bps total spc ∧
      l = ⟨bps, total, spc, reservedFor spc fat, fat, clustersFor total spc fat⟩ ∧
      bps ∈ [512, 1024, 2048, 4096] ∧ total ≤ 0xFFFFFFFF ∧
      MIN_CLUSTERS ≤ clustersFor total spc fat ∧ clustersFor total spc fat ≤ MAX_CLUSTERS ∧
      clustersFor total spc fat + 2 ≤ (i64 (fat * bps)).tdiv 4 := by
  unfold layout at h
  obtain ⟨_, hbps, h⟩ := except_bind_ok h
  obtain ⟨_, htotal, h⟩ := except_bind_ok h
  obtain ⟨_, hspc, h⟩ := except_bind_ok h
  obtain ⟨_, hmin, h⟩ := except_bind_ok h
  obtain ⟨_, hmax, h⟩ := except_bind_ok h
  obtain ⟨_, hcovers, h⟩ := except_bind_ok h
  obtain ⟨_, -, h⟩ := except_bind_ok h
  cases h
  exact ⟨_, require_ok hspc, _, rfl, rfl, require_ok hbps, require_ok htotal, require_ok hmin,
    require_ok hmax, not_not.1 (failIf_ok hcovers)⟩

/-- **What the layout accepts is a volume**, also where its number of sectors was read as a negative
one. -/
theorem layout_ok {clusterBytes : ℤ} {l : Layout} (hlo : -2 ^ 63 ≤ total)
    (h : layout bps total clusterBytes = .ok l) :
    l.Sound ∧ l.bytesPerSector = bps ∧ l.totalSectors = total := by
  obtain ⟨spc, hspc, fat, hfat, rfl, hbps, htotal, hmin, hmax, -⟩ := layout_parts h
  have hrange : fat = firstFat bps total spc ∨ 0 < fat ∧ fat < firstFat bps total spc := by
    rw [hfat]
    exact shrink_range ..
  have hbps' : 512 ≤ bps := by
    simp only [List.mem_cons, List.not_mem_nil, or_false] at hbps
    omega
  have hspc' : 0 < spc ∧ spc ≤ 128 := by
    simp only [List.mem_cons, List.not_mem_nil, or_false] at hspc
    omega
  obtain ⟨hf1, hf2⟩ := firstFat_bounds total spc hbps'
  have heq := clustersFor_eq hspc'.1 hspc'.2 hlo htotal (by omega) hmin hmax
  obtain ⟨hr1, hr2⟩ := reservedFor_bounds fat hspc'.1
  have hmul := Int.ediv_mul_le (total - reservedFor spc fat - 2 * fat) hspc'.1.ne'
  rw [← heq] at hmul
  have hroom : 0 < total - 32 - 2 * fat := by
    unfold MIN_CLUSTERS at hmin
    nlinarith
  refine ⟨⟨hbps, hspc'.1, hr1, fat_pos hbps hspc htotal hrange hroom, hmin, ?_⟩, rfl, rfl⟩
  show reservedFor spc fat + (FAT_COUNT : ℤ) * fat + clustersFor total spc fat * spc ≤ total
  unfold FAT_COUNT
  push_cast
  omega

end Accepts

/-! ### What `format` does to the device -/

section Writes

variable {σ : Type} {lib : Library} {dev : RawBlockDevice σ} {total hidden : ℤ} {label : Text}
  {clusterBytes : Option ℤ} {l : Layout}

lemma bootSectors_length (l : Layout) (label : Option (List UInt8)) (hidden volumeId : ℤ) :
    (bootSectors l label hidden volumeId).length = 3 * l.bytesPerSector := by
  simp only [bootSectors, List.length_append, length_slice]
  omega

lemma rootDirectory_length (hspc : 0 < l.sectorsPerCluster) (label : Option (List UInt8)) :
    (rootDirectory lib l label).length = l.sectorsPerCluster.toNat * l.bytesPerSector := by
  unfold rootDirectory
  rw [length_slice, Int.toNat_mul hspc.le (by omega), Int.toNat_natCast]

lemma format_issues (hcount : total ≤ dev.blockCount)
    (hl : layout dev.blockSize total (clusterBytesOr dev.blockSize total clusterBytes) = .ok l)
    (hbps : l.bytesPerSector = dev.blockSize) :
    Issues dev (format lib dev total label clusterBytes hidden) (requests lib l label hidden) l := by
  unfold format requests
  refine .lift (require_run hcount) (.lift hl ?_)
  rw [hbps]
  refine .bind (zero_issues ..) ?_
  have hfats : Issues dev ((List.range FAT_COUNT).forM fun i =>
      dev.writeBlocks (l.reservedSectors + i * l.fatSectors) (fatHead.slice 0 dev.blockSize)) _ _ :=
    .forM_write (fun i : ℕ => l.reservedSectors + i * l.fatSectors)
      (fun _ => fatHead.slice 0 dev.blockSize) _
  simp only [FAT_COUNT, List.range_succ, List.range_zero, List.nil_append, List.cons_append,
    List.map_cons, List.map_nil, Nat.cast_zero, Nat.cast_one, zero_mul, one_mul, add_zero] at hfats
  exact .bind (.write ..) (.bind (.write ..) (.bind hfats (.bind (.write ..) (.pure l))))

/-- **Every request of `format` is inside the volume.** -/
lemma requests_inside (hl : l.Sound) (label : Text) (hidden : ℤ) :
    ∀ r ∈ requests lib l label hidden, r.Inside l.bytesPerSector l.totalSectors := by
  obtain ⟨hbps, hspc, hres, hfat, hclusters, hfits⟩ := hl
  have hbps' : 0 < l.bytesPerSector := by
    simp only [List.mem_cons, List.not_mem_nil, or_false] at hbps
    omega
  have hroom : l.dataStartSector + l.sectorsPerCluster ≤ l.totalSectors := by
    unfold MIN_CLUSTERS at hclusters
    nlinarith
  have hstart : l.dataStartSector = l.reservedSectors + 2 * l.fatSectors := rfl
  intro r hr
  rcases List.mem_append.1 hr with hr | hr
  · exact (zeroRequests_inside hbps' le_rfl r hr).mono (by omega)
  simp only [List.mem_cons, List.not_mem_nil, or_false] at hr
  rcases hr with rfl | rfl | rfl | rfl | rfl
  · exact Request.inside_of (n := 3) le_rfl (by decide) hbps' (bootSectors_length ..)
      (by simp only; omega)
  · exact Request.inside_of (n := 3) (by simp only; omega) (by decide) hbps' (bootSectors_length ..)
      (by simp only; omega)
  · exact Request.inside_of (n := 1) (by simp only; omega) (by decide) hbps' (by simp)
      (by simp only; omega)
  · exact Request.inside_of (n := 1) (by simp only; omega) (by decide) hbps' (by simp)
      (by simp only; omega)
  · exact Request.inside_of (by simp only; omega) (by omega) hbps' (rootDirectory_length hspc _)
      (by simp only; omega)

end Writes

end OtgMaster.Format.Fat32
