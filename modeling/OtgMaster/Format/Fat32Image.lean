import OtgMaster.Format.Fat32
import OtgMaster.Recovery.Fat
import Mathlib.Data.List.GetD

/-!
The volume that `Fat32Formatter` makes. The loop that sizes the FAT ends at one that covers the
clusters it leaves, and one sector less would not (`shrink_least`, whatever `covers` is like in
between). In the image, both FATs have the root directory's cluster in use and no other, the root
directory lists nothing, and the information sector counts all other clusters as free (`Image`).
-/

namespace OtgMaster.Format.Fat32

open Lib Bytes Block

/-! ### the size of the FAT -/

section Size

variable {bps : ℕ} {total spc fat : ℤ}

/-- The sectors before the first FAT, where nothing wraps: at least 32, and the data area starts
with a cluster. -/
def reservedBefore (spc fat : ℤ) : ℤ := 32 + (spc - (32 + 2 * fat) % spc) % spc

def clustersLeft (total spc fat : ℤ) : ℤ := (total - reservedBefore spc fat - 2 * fat) / spc

/-- A FAT of this size has an entry for every cluster that is left, and two more. -/
def Covers (bps : ℕ) (total spc fat : ℤ) : Prop := clustersLeft total spc fat + 2 ≤ fat * bps / 4

lemma reservedFor_plain (hspc : 0 < spc) (h0 : 0 ≤ fat) (h1 : fat ≤ 2 ^ 54) :
    reservedFor spc fat = reservedBefore spc fat := by
  have htwo : i64 (FAT_COUNT * fat) = 2 * fat := by
    unfold FAT_COUNT
    exact i64_of_range (by push_cast; omega) (by push_cast; omega)
  have hstart : i64 (32 + 2 * fat) = 32 + 2 * fat := i64_of_range (by omega) (by omega)
  have hlt := Int.emod_lt_of_pos (32 + 2 * fat) hspc
  unfold reservedFor reservedBefore RESERVED_SECTORS
  dsimp only
  rw [htwo, hstart, tmod_of_nonneg (b := spc) (show 0 ≤ 32 + 2 * fat by omega),
    tmod_of_nonneg (show 0 ≤ spc - (32 + 2 * fat) % spc by omega)]

lemma reservedBefore_aligned (spc fat : ℤ) : spc ∣ reservedBefore spc fat + 2 * fat := by
  have h1 := Int.mul_ediv_add_emod (32 + 2 * fat) spc
  have h2 := Int.mul_ediv_add_emod (spc - (32 + 2 * fat) % spc) spc
  unfold reservedBefore
  refine ⟨(32 + 2 * fat) / spc + 1 - (spc - (32 + 2 * fat) % spc) / spc, ?_⟩
  rw [mul_sub, mul_add, mul_one]
  omega

lemma reservedBefore_bounds (hspc : 0 < spc) (fat : ℤ) :
    32 ≤ reservedBefore spc fat ∧ reservedBefore spc fat < 32 + spc := by
  have h1 := Int.emod_nonneg (spc - (32 + 2 * fat) % spc) hspc.ne'
  have h2 := Int.emod_lt_of_pos (spc - (32 + 2 * fat) % spc) hspc
  unfold reservedBefore
  omega

lemma covers_iff (hbps : bps ≤ 4096) (hspc : 0 < spc) (hspc' : spc ≤ 128) (hhi : total ≤ 0xFFFFFFFF)
    (h0 : 0 ≤ fat) (h1 : fat ≤ 2 ^ 31) (hroom : 0 ≤ total - reservedBefore spc fat - 2 * fat) :
    covers bps total spc fat = true ↔ Covers bps total spc fat := by
  obtain ⟨hr1, hr2⟩ := reservedBefore_bounds hspc fat
  have htwo : i64 (FAT_COUNT * fat) = 2 * fat := by
    unfold FAT_COUNT
    exact i64_of_range (by push_cast; omega) (by push_cast; omega)
  have hclusters : clustersFor total spc fat = clustersLeft total spc fat := by
    unfold clustersFor clustersLeft
    rw [reservedFor_plain hspc h0 (by omega), htwo, i64_of_range (x := total - _) (by omega) (by omega),
      i64_of_range (by omega) (by omega), tdiv_of_nonneg hroom]
  have hleft : 0 ≤ clustersLeft total spc fat ∧ clustersLeft total spc fat ≤ 0xFFFFFFFF :=
    ⟨Int.ediv_nonneg hroom hspc.le, (Int.ediv_le_self spc hroom).trans (by omega)⟩
  have hbytes : 0 ≤ fat * bps ∧ fat * bps ≤ 2 ^ 31 * 4096 := by
    refine ⟨Int.mul_nonneg h0 (by omega), ?_⟩
    have : fat * (bps : ℤ) ≤ 2 ^ 31 * bps := Int.mul_le_mul_of_nonneg_right h1 (by omega)
    omega
  unfold covers Covers
  rw [decide_eq_true_iff, hclusters, i64_of_range (x := _ + 2) (by omega) (by omega),
    i64_of_range (by omega) (by omega), tdiv_of_nonneg hbytes.1]

/-- The FAT of an accepted layout, in numbers that do not wrap. -/
structure Layout.Tight (l : Layout) : Prop where
  reserved : l.reservedSectors = reservedBefore l.sectorsPerCluster l.fatSectors
  clusters : l.clusterCount = clustersLeft l.totalSectors l.sectorsPerCluster l.fatSectors
  max : l.clusterCount ≤ MAX_CLUSTERS
  covers : Covers l.bytesPerSector l.totalSectors l.sectorsPerCluster l.fatSectors
  least : ¬Covers l.bytesPerSector l.totalSectors l.sectorsPerCluster (l.fatSectors - 1)

/-- **The loop finds a FAT that covers the clusters it leaves, and none that is a sector less
does.** -/
lemma layout_tight {clusterBytes : ℤ} {l : Layout} (hlo : -2 ^ 63 ≤ total)
    (h : layout bps total clusterBytes = .ok l) : l.Tight := by
  obtain ⟨hsound, -, -⟩ := layout_ok hlo h
  obtain ⟨spc, hspc, fat, hfat, rfl, hbps, htotal, hmin, hmax, hcover⟩ := layout_parts h
  have hspc' : 0 < spc ∧ spc ≤ 128 := by
    simp only [List.mem_cons, List.not_mem_nil, or_false] at hspc
    omega
  have hbps' : 512 ≤ bps ∧ bps ≤ 4096 := by
    simp only [List.mem_cons, List.not_mem_nil, or_false] at hbps
    omega
  have hpos : 0 < fat := hsound.fat
  have hfits : reservedFor spc fat + (FAT_COUNT : ℤ) * fat + clustersFor total spc fat * spc ≤
    total := hsound.fits
  have hstart := reservedFor_bounds fat hspc'.1
  have hused : spc ≤ clustersFor total spc fat * spc := by
    unfold MIN_CLUSTERS at hmin
    nlinarith
  unfold FAT_COUNT at hfits
  push_cast at hfits
  have hbytes : fat * bps ≤ fat * 4096 := Int.mul_le_mul_of_nonneg_left (by omega) hpos.le
  have hbytes' : 0 ≤ fat * (bps : ℤ) := Int.mul_nonneg hpos.le (by omega)
  rw [i64_of_range (by omega) (by omega), tdiv_of_nonneg hbytes'] at hcover
  have hres := reservedFor_plain hspc'.1 hpos.le (show fat ≤ 2 ^ 54 by omega)
  have hclusters : clustersFor total spc fat = clustersLeft total spc fat := by
    rw [clustersFor_eq hspc'.1 hspc'.2 hlo htotal (by omega) hmin hmax, hres]
    rfl
  refine ⟨hres, hclusters, hmax, ?_, ?_⟩
  · show clustersLeft total spc fat + 2 ≤ fat * bps / 4
    rwa [← hclusters]
  · -- so many clusters are not covered by one sector, so the loop has tried `fat - 1`
    show ¬Covers bps total spc (fat - 1)
    have hmany : 64 ≤ fat := by
      unfold MIN_CLUSTERS at hmin
      omega
    have hfirst : fat ≤ firstFat bps total spc := by
      have := shrink_range steps (Fat32.covers bps total spc) (firstFat bps total spc)
        ((firstFat bps total spc).tdiv 2)
      rw [hfat]
      unfold fatFor
      omega
    have hhalf : ∀ step : ℤ, True → 1 < step → True ∧ 1 ≤ step.tdiv 2 := fun step _ hlt =>
      ⟨trivial, by rw [tdiv_of_nonneg (by omega)]; omega⟩
    have hleast :=
      @shrink_least steps (Fat32.covers bps total spc) (fun _ => True) (by decide) hhalf
        (firstFat bps total spc)
      ((firstFat bps total spc).tdiv 2) trivial (hhalf _ trivial (by omega)).2
    have hprev := reservedBefore_bounds hspc'.1 (fat - 1)
    rw [← covers_iff hbps'.2 hspc'.1 hspc'.2 htotal (by omega) (by omega) (by omega)]
    intro hcov
    refine hleast ?_
    change 0 < fatFor bps total spc - 1 ∧ Fat32.covers bps total spc (fatFor bps total spc - 1) = true
    rw [← hfat]
    exact ⟨by omega, hcov⟩

end Size

/-! ### what lies where in the image -/

section Where

variable {lib : Library} {l : Layout} {label : Text} {hidden : ℤ} {before : Bytes} {i : ℕ}

def formatted (lib : Library) (l : Layout) (label : Text) (hidden : ℤ) (before : Bytes) : Bytes :=
  rewrite (writesOf l.bytesPerSector (requests lib l label hidden)) before

def fatEntry (l : Layout) (image : Bytes) (k c : ℕ) : ℕ :=
  image.le32 ((l.reservedSectors + k * l.fatSectors).toNat * l.bytesPerSector + 4 * c)

structure Layout.Places (l : Layout) (r f s n : ℕ) : Prop where
  reserved : l.reservedSectors = r
  fat : l.fatSectors = f
  cluster : l.sectorsPerCluster = s
  clusters : l.clusterCount = n
  reserved_le : 32 ≤ r
  fat_pos : 0 < f
  cluster_pos : 0 < s
  bps_le : 512 ≤ l.bytesPerSector ∧ l.bytesPerSector ≤ 4096

lemma Layout.Sound.places (h : l.Sound) :
    l.Places l.reservedSectors.toNat l.fatSectors.toNat l.sectorsPerCluster.toNat
      l.clusterCount.toNat := by
  obtain ⟨hbps, hspc, hres, hfat, hclusters, -⟩ := h
  unfold MIN_CLUSTERS at hclusters
  simp only [List.mem_cons, List.not_mem_nil, or_false] at hbps
  constructor <;> omega

variable {r f s n : ℕ}

lemma formatted_eq (h : l.Places r f s n) :
    formatted lib l label hidden before =
      overwrite (overwrite (overwrite (overwrite (overwrite
        (rewrite (writesOf l.bytesPerSector (zeroRequests l.bytesPerSector 0 (r + 2 * f : ℕ))) before)
        0 (bootSectors l (fatLabel lib label) hidden lib.volumeSerial))
        (6 * l.bytesPerSector) (bootSectors l (fatLabel lib label) hidden lib.volumeSerial))
        (r * l.bytesPerSector) (fatHead.slice 0 l.bytesPerSector))
        ((r + f) * l.bytesPerSector) (fatHead.slice 0 l.bytesPerSector))
        ((r + 2 * f) * l.bytesPerSector)
          ((rootBytes lib (fatLabel lib label)).slice 0 (s * l.bytesPerSector)) := by
  have hstart : l.dataStartSector = (r + 2 * f : ℕ) := by
    unfold Layout.dataStartSector FAT_COUNT
    rw [h.reserved, h.fat]
    push_cast
    ring
  have hroot : rootDirectory lib l (fatLabel lib label) =
      (rootBytes lib (fatLabel lib label)).slice 0 (s * l.bytesPerSector) := by
    have hsize : (l.sectorsPerCluster * (l.bytesPerSector : ℤ)).toNat = s * l.bytesPerSector := by
      rw [h.cluster, ← Nat.cast_mul, Int.toNat_natCast]
    exact congrArg ((rootBytes lib (fatLabel lib label)).slice 0) hsize
  unfold formatted requests
  rw [writesOf, List.map_append, rewrite_append, hstart, hroot, h.reserved, h.fat, ← Nat.cast_add]
  simp only [List.map_cons, List.map_nil, Int.toNat_natCast]
  simp only [rewrite, List.foldl_cons, List.foldl_nil, Int.toNat_zero, Nat.zero_mul]
  rfl

lemma Layout.Places.order (h : l.Places r f s n) :
    32 * l.bytesPerSector ≤ r * l.bytesPerSector ∧ l.bytesPerSector ≤ f * l.bytesPerSector ∧
      (r + f) * l.bytesPerSector = r * l.bytesPerSector + f * l.bytesPerSector ∧
      (r + 2 * f) * l.bytesPerSector = r * l.bytesPerSector + f * l.bytesPerSector + f *
        l.bytesPerSector := by
  refine ⟨Nat.mul_le_mul_right _ h.reserved_le, Nat.le_mul_of_pos_left _ h.fat_pos, Nat.add_mul .., ?_⟩
  ring

lemma formatted_root (h : l.Places r f s n) (hi : i < s * l.bytesPerSector) :
    formatted lib l label hidden before ((r + 2 * f) * l.bytesPerSector + i) =
      rootBytes lib (fatLabel lib label) i := by
  rw [formatted_eq h, overwrite_slice, if_pos (by omega), Nat.add_sub_cancel_left]

lemma fatHead_tail (hi : 12 ≤ i) : fatHead i = 0 := by
  unfold fatHead
  rw [put32_out (by omega), put32_out (by omega), put32_out (by omega)]
  rfl

lemma formatted_fat {k : ℕ} (h : l.Places r f s n) (hk : k < 2) (hi : i < f * l.bytesPerSector) :
    formatted lib l label hidden before ((r + k * f) * l.bytesPerSector + i) = fatHead i := by
  obtain ⟨hr, hf, hrf, hend⟩ := h.order
  have hzero : ∀ j < (r + 2 * f) * l.bytesPerSector, rewrite (writesOf l.bytesPerSector
      (zeroRequests l.bytesPerSector 0 (r + 2 * f : ℕ))) before j = 0 := fun j hj =>
    rewrite_zeroRequests (by have := h.bps_le; omega) (by have := h.bps_le; unfold CHUNK_BYTES; omega)
      (by rwa [Int.toNat_natCast])
  have hboot := bootSectors_length l (fatLabel lib label) hidden lib.volumeSerial
  have hsize := h.bps_le
  rw [formatted_eq h, overwrite_slice, overwrite_slice, overwrite_slice, hend, hrf]
  rcases Nat.lt_or_ge i l.bytesPerSector with hlt | hge
  · rcases show k = 0 ∨ k = 1 by omega with rfl | rfl
    · rw [Nat.zero_mul, Nat.add_zero, if_neg (by omega), if_neg (by omega), if_pos (by omega),
        Nat.add_sub_cancel_left]
    · rw [Nat.one_mul, hrf, if_neg (by omega), if_pos (by omega), Nat.add_sub_cancel_left]
  · rw [show fatHead i = 0 from fatHead_tail (by omega)]
    rcases show k = 0 ∨ k = 1 by omega with rfl | rfl
    · rw [Nat.zero_mul, Nat.add_zero, if_neg (by omega), if_neg (by omega), if_neg (by omega),
        overwrite_outside (by omega), overwrite_outside (by omega), hzero _ (by omega)]
    · rw [Nat.one_mul, hrf, if_neg (by omega), if_neg (by omega), if_neg (by omega),
        overwrite_outside (by omega), overwrite_outside (by omega), hzero _ (by omega)]

lemma formatted_boot (h : l.Places r f s n) (hi : i < 3 * l.bytesPerSector) :
    formatted lib l label hidden before i =
      (bootSectors l (fatLabel lib label) hidden lib.volumeSerial).getD i 0 := by
  obtain ⟨hr, hf, hrf, hend⟩ := h.order
  have hboot := bootSectors_length l (fatLabel lib label) hidden lib.volumeSerial
  rw [formatted_eq h, overwrite_slice, overwrite_slice, overwrite_slice, hend, hrf, if_neg (by omega),
    if_neg (by omega), if_neg (by omega), overwrite_outside (by omega), overwrite,
    if_pos (Nat.zero_le _), Nat.sub_zero, List.getElem?_eq_getElem (by omega),
    List.getD_eq_getElem _ _ (by omega)]
  rfl

end Where

/-! ### what the image says -/

/-- **What an empty volume says of its clusters.** -/
structure Image (l : Layout) (image : Bytes) : Prop where
  /-- Both FATs: the root directory's cluster is in use, and no other. -/
  fats : ∀ k < 2, ∀ c : ℕ, 2 ≤ c → c < l.clusterCount + 2 → (fatEntry l image k c ≠ 0 ↔ c = 2)
  /-- The chain of the root directory is that one cluster. -/
  ends : ∀ k < 2, fatEntry l image k 2 = 0x0FFFFFFF
  /-- The boot sector has the root directory there. -/
  root : image.le32 44 = 2
  lists : ∀ place, Recovery.fatEntries place
    (image.slice (l.dataStartSector.toNat * l.bytesPerSector)
      (l.sectorsPerCluster.toNat * l.bytesPerSector)) = []
  /-- The information sector counts the clusters that the FATs have free. -/
  free : ∀ k < 2, image.le32 (l.bytesPerSector + 488) =
    ((List.range' 2 l.clusterCount.toNat).filter fun c => fatEntry l image k c = 0).length
  count : (image.le32 (l.bytesPerSector + 488) : ℤ) = l.clusterCount - 1

section Says

variable {lib : Library} {l : Layout} {label : Text} {hidden : ℤ} {before : Bytes} {r f s n : ℕ}

lemma le32_fatHead {c : ℕ} (hc : 2 ≤ c) : fatHead.le32 (4 * c) = if c = 2 then 0x0FFFFFFF else 0 := by
  split
  · rename_i h
    subst h
    unfold fatHead
    rw [le32_put32]
  · rename_i h
    exact (le32_congr fun k _ => fatHead_tail (by omega) : fatHead.le32 (4 * c) = zeros.le32 0)

lemma fatEntry_formatted {k c : ℕ} (h : l.Places r f s n) (hk : k < 2) (hc : 2 ≤ c)
    (hlt : 4 * c + 4 ≤ f * l.bytesPerSector) :
    fatEntry l (formatted lib l label hidden before) k c = if c = 2 then 0x0FFFFFFF else 0 := by
  rw [← le32_fatHead hc]
  unfold fatEntry
  rw [h.reserved, h.fat, show ((r : ℤ) + k * f).toNat = r + k * f by
    rw [← Nat.cast_mul, ← Nat.cast_add, Int.toNat_natCast]]
  refine le32_congr fun j hj => ?_
  rw [Nat.add_assoc]
  exact formatted_fat h hk (by omega)

lemma le32_bootSector {o : ℕ} (h : l.Places r f s n) (ho : o + 4 ≤ l.bytesPerSector) :
    (formatted lib l label hidden before).le32 o =
      (bootSector l (fatLabel lib label) hidden lib.volumeSerial).le32 o := by
  refine le32_congr fun k hk => ?_
  rw [formatted_boot h (by omega), bootSectors, List.append_assoc,
    List.getD_append _ _ _ _ (by simp; omega),
    slice_getD (by omega), Nat.zero_add]

lemma le32_infoSector {o : ℕ} (h : l.Places r f s n) (ho : o + 4 ≤ l.bytesPerSector) :
    (formatted lib l label hidden before).le32 (l.bytesPerSector + o) = (fsInfoSector l).le32 o := by
  refine le32_congr fun k hk => ?_
  rw [formatted_boot h (by omega), bootSectors, List.append_assoc,
    List.getD_append_right _ _ _ _ (by simp; omega),
    length_slice, List.getD_append _ _ _ _ (by simp; omega), Nat.add_assoc, Nat.add_sub_cancel_left,
    slice_getD (by omega), Nat.zero_add]

lemma le32_rootCluster (label : Option (List UInt8)) (volumeId : ℤ) :
    (bootSector l label hidden volumeId).le32 44 = 2 := by
  unfold bootSector
  simp only [put8]
  rw [le32_patch_out (by omega), le32_patch_out (by omega), le32_patch_out (by omega),
    le32_patch_out (by omega),
    le32_put32_out (by omega), le32_patch_out (by omega), le32_patch_out (by omega),
    le32_put16_out (by omega),
    le32_put16_out (by omega), le32_put32]

lemma le32_freeCount : (fsInfoSector l).le32 488 = low 4 (l.clusterCount - 1) % 4294967296 := by
  unfold fsInfoSector
  dsimp only
  rw [le32_put32_out (by omega), le32_put32_out (by omega), le32_put32]

lemma rootBytes_slots (lib : Library) (name : Option (List UInt8)) :
    (rootBytes lib name 0 = 0 ∨ rootBytes lib name 11 = 8) ∧ rootBytes lib name 32 = 0 := by
  cases name with
  | none => exact ⟨Or.inl rfl, rfl⟩
  | some bytes =>
    rw [rootBytes, volumeLabelEntry]
    constructor
    · right
      rw [put16_out (by omega), put16_out (by omega), put8, patch_in (by omega) (by omega)]
      rfl
    · rw [put16_out (by omega), put16_out (by omega), put8, patch_out (by omega), patch_out (by omega)]
      rfl

lemma fatEntries_root (place : Recovery.Locale) {name : Option (List UInt8)} {m : ℕ} (hm : 64 ≤ m) :
    Recovery.fatEntries place ((rootBytes lib name).slice 0 m) = [] := by
  obtain ⟨hlabel, hend⟩ := rootBytes_slots lib name
  obtain ⟨q, hq⟩ : ∃ q, m / 32 = q + 2 := ⟨m / 32 - 2, by omega⟩
  obtain ⟨rest, hslots⟩ : ∃ rest, Recovery.slotsOf ((rootBytes lib name).slice 0 m) =
      (rootBytes lib name).slice 0 32 :: (rootBytes lib name).slice 32 32 :: rest := by
    unfold Recovery.slotsOf
    rw [length_slice, hq, List.range_succ_eq_map, List.range_succ_eq_map, List.map_cons,
      List.map_cons, List.map_cons, take_drop_slice (by omega), take_drop_slice (by omega)]
    exact ⟨_, rfl⟩
  have hfirst : ∀ o, Recovery.Slot.first ((rootBytes lib name).slice o 32) =
      (rootBytes lib name o).toNat := fun o =>
    congrArg UInt8.toNat (slice_getD (show 0 < 32 by decide))
  have hattr : Recovery.Slot.attr ((rootBytes lib name).slice 0 32) = (rootBytes lib name 11).toNat :=
    congrArg UInt8.toNat ((slice_getD (show 11 < 32 by decide)).trans (by rw [Nat.zero_add]))
  unfold Recovery.fatEntries
  rw [hslots, Recovery.entriesLoop, hfirst, hattr]
  split
  · rfl
  · rename_i hne
    have h11 : rootBytes lib name 11 = 8 := hlabel.resolve_left fun h0 => hne (by rw [h0]; rfl)
    rw [h11, if_neg (by decide), if_pos (by decide), Recovery.entriesLoop, hfirst, hend,
      if_pos (by decide)]

/-- **The image that `format` leaves is an empty volume.** -/
lemma formatted_image (hsound : l.Sound) (htight : l.Tight) :
    Image l (formatted lib l label hidden before) := by
  have h := hsound.places
  have hmin : (65525 : ℤ) ≤ l.clusterCount := hsound.clusters
  have hmax : l.clusterCount ≤ 0x0FFFFFF4 := htight.max
  have hsize := h.bps_le
  -- the FAT has an entry for every cluster
  have hroom : ∀ c : ℕ, c < l.clusterCount + 2 → 4 * c + 4 ≤ l.fatSectors.toNat * l.bytesPerSector := by
    intro c hc
    have hcov := htight.covers
    unfold Covers at hcov
    rw [← htight.clusters, h.fat, ← Nat.cast_mul] at hcov
    omega
  have hentry : ∀ k < 2, ∀ c : ℕ, 2 ≤ c → c < l.clusterCount + 2 →
      fatEntry l (formatted lib l label hidden before) k c = if c = 2 then 0x0FFFFFFF else 0 :=
    fun k hk c hc hlt => fatEntry_formatted h hk hc (hroom c hlt)
  have hcount : (formatted lib l label hidden before).le32 (l.bytesPerSector + 488) =
      l.clusterCount.toNat - 1 := by
    rw [le32_infoSector h (by omega), le32_freeCount, low]
    omega
  refine ⟨?_, ?_, ?_, ?_, ?_, ?_⟩
  · intro k hk c hc hlt
    rw [hentry k hk c hc hlt]
    split <;> simp_all
  · intro k hk
    rw [hentry k hk 2 le_rfl (by omega), if_pos rfl]
  · rw [le32_bootSector h (by omega), le32_rootCluster]
  · intro place
    have hstart : l.dataStartSector.toNat = l.reservedSectors.toNat + 2 * l.fatSectors.toNat := by
      have h1 := h.reserved
      have h2 := h.fat
      have h3 : l.dataStartSector = l.reservedSectors + 2 * l.fatSectors := rfl
      omega
    have hone : l.bytesPerSector ≤ l.sectorsPerCluster.toNat * l.bytesPerSector :=
      Nat.le_mul_of_pos_left _ h.cluster_pos
    have hroot : (formatted lib l label hidden before).slice (l.dataStartSector.toNat * l.bytesPerSector)
        (l.sectorsPerCluster.toNat * l.bytesPerSector) =
          (rootBytes lib (fatLabel lib label)).slice 0
              (l.sectorsPerCluster.toNat * l.bytesPerSector) := by
      refine slice_congr fun i hi => ?_
      rw [hstart, formatted_root h hi, Nat.zero_add]
    rw [hroot, fatEntries_root place (by omega)]
  · intro k hk
    obtain ⟨m, hm⟩ : ∃ m, l.clusterCount.toNat = m + 1 := ⟨l.clusterCount.toNat - 1, by omega⟩
    have hrest :
      (List.range' 3 m).filter (fun c => fatEntry l (formatted lib l label hidden before) k c = 0) =
        List.range' 3 m := by
      rw [List.filter_eq_self]
      intro c hc
      rw [List.mem_range'_1] at hc
      rw [hentry k hk c (by omega) (by omega), if_neg (by omega)]
      rfl
    rw [hcount, hm, List.range'_succ, List.filter_cons_of_neg, hrest, List.length_range',
      Nat.add_sub_cancel]
    rw [hentry k hk 2 le_rfl (by omega)]
    decide
  · rw [hcount]
    omega

end Says

/-! ### the volume -/

/-- **The layout and the image of a FAT32 volume.** The layout that is accepted has a FAT with an
entry for every cluster and two more, which a sector less would not have; the data area starts with
a cluster and ends inside the volume. On a partition that has room for it, `format` leaves the image
of that layout. -/
theorem format_tight {bps : ℕ} {total clusterBytes : ℤ} {l : Layout} (hlo : -2 ^ 63 ≤ total)
    (h : layout bps total clusterBytes = .ok l) :
    l.clusterCount + 2 ≤ l.fatSectors * bps / 4 ∧
      ¬Covers bps total l.sectorsPerCluster (l.fatSectors - 1) ∧
      l.sectorsPerCluster ∣ l.dataStartSector ∧
      0 ≤ l.dataStartSector ∧ l.dataStartSector + l.clusterCount * l.sectorsPerCluster ≤ total ∧
      ∀ (lib : Library) (p : Slice) (w : Machine) (hp : p.firstBlock + p.blockCount ≤ w.blockCount)
        (label : Text) (given : Option ℤ) (hidden : ℤ),
        w.blockSize = bps → total ≤ p.blockCount → clusterBytesOr bps total given = clusterBytes →
          ∃ w', format lib (deviceOf p w hp) total label given hidden w = .ok l w' ∧
          Image l (imageOf p w') := by
  obtain ⟨hsound, hbps, htotal⟩ := layout_ok hlo h
  have htight := layout_tight hlo h
  have hcovers := htight.covers
  have hleast := htight.least
  have hfits := hsound.fits
  rw [hbps, htotal] at hcovers hleast
  rw [htotal] at hfits
  refine ⟨?_, hleast, ?_, ?_, hfits, ?_⟩
  · rw [htight.clusters, htotal]
    exact hcovers
  · show _ ∣ l.reservedSectors + 2 * l.fatSectors
    rw [htight.reserved]
    exact reservedBefore_aligned ..
  · show 0 ≤ l.reservedSectors + 2 * l.fatSectors
    have h1 := hsound.reserved
    have h2 := hsound.fat
    omega
  · intro lib p w hp label given hidden hsize hroom hgiven
    have hinside : ∀ r ∈ requests lib l label hidden, r.Inside w.blockSize p.blockCount := by
      intro r hr
      have := requests_inside hsound label hidden r hr
      rw [hbps, htotal, ← hsize] at this
      exact this.mono hroom
    obtain ⟨w', hserved, himage⟩ := @serveAll_image p w hp _ hinside
    have hissues : Issues (deviceOf p w hp) (format lib (deviceOf p w hp) total label given hidden)
        (requests lib l label hidden) l := by
      refine format_issues hroom ?_ (hbps.trans hsize.symm)
      show layout w.blockSize total (clusterBytesOr w.blockSize total given) = .ok l
      rw [hsize, hgiven, h]
    refine ⟨w', ?_, ?_⟩
    · rw [hissues.run, hserved]
    · rw [himage, hsize, ← hbps]
      exact formatted_image hsound htight

theorem format_tight_small :
    ∃ l, layout 512 67000 512 = .ok l ∧ l.clusterCount + 2 ≤ l.fatSectors * (512 : ℕ) / 4 ∧
    ¬Covers 512 67000 l.sectorsPerCluster (l.fatSectors - 1) := by
  have haccepts : (layout 512 67000 512).isOk = true := by decide +kernel
  obtain ⟨l, hl⟩ : ∃ l, layout 512 67000 512 = .ok l := by
    cases h : layout 512 67000 512 with
    | ok l => exact ⟨l, rfl⟩
    | error e => rw [h] at haccepts; cases haccepts
  have htight := format_tight (by decide) hl
  exact ⟨l, hl, htight.1, htight.2.1⟩

end OtgMaster.Format.Fat32
