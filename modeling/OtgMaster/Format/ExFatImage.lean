import OtgMaster.Format.ExFat
import Mathlib.Logic.Relation

/-!
The volume that `ExFatFormatter` makes. The loop that sizes the FAT ends at one that covers the
clusters it leaves, and a cluster less would not do (`layout_sound`). That the bitmap, the up-case
table and the root directory find room is checked nowhere: with clusters of at most 64 KiB a volume
of 1 MiB has clusters for far more (`clusters_room`), and with larger ones the table needs two
clusters at most, and the layout asks for more than three (`used_le`). In the image, the bitmap
marks the clusters that the chains of the three structures reach, and no others (`Image`).
-/

namespace OtgMaster.Format.ExFat

open Lib Bytes Block

/-! ### the layout in numbers that do not wrap -/

def clustersLeft (total spc fatOffset fat : ℤ) : ℤ := min ((total - (fatOffset + fat)) / spc) 0xFFFFFFF5

/-- A FAT of this size has an entry for every cluster that is left, and two more. -/
def Covers (bps : ℕ) (total spc fatOffset fat : ℤ) : Prop :=
  clustersLeft total spc fatOffset fat + 2 ≤ fat * bps / 4

structure Layout.Sound (l : Layout) : Prop where
  bytesPerSector : l.bytesPerSector ∈ [512, 1024, 2048, 4096]
  total : l.totalSectors ≤ 2 ^ 32
  size : 2 ^ 20 ≤ l.totalSectors * l.bytesPerSector
  sectorsPerCluster : 0 < l.sectorsPerCluster
  clusterBytes : l.clusterBytes ≤ 2 ^ 25
  /-- The FAT starts behind the boot regions, with a cluster. -/
  fatOffset : 24 ≤ l.fatOffset ∧ l.fatOffset < 24 + l.sectorsPerCluster
  fat : 0 < l.fatLength
  /-- It is not larger than the one for every sector. -/
  fat_le : l.fatLength * l.bytesPerSector ≤
    (l.totalSectors / l.sectorsPerCluster + 2) * 4 + l.bytesPerSector - 1 + l.clusterBytes
  heap : l.clusterHeapOffset = l.fatOffset + l.fatLength
  aligned : l.sectorsPerCluster ∣ l.fatOffset ∧ l.sectorsPerCluster ∣ l.fatLength
  clusters : l.clusterCount = clustersLeft l.totalSectors l.sectorsPerCluster l.fatOffset l.fatLength
  min : 4 ≤ l.clusterCount
  covers : Covers l.bytesPerSector l.totalSectors l.sectorsPerCluster l.fatOffset l.fatLength
  least : ¬Covers l.bytesPerSector l.totalSectors l.sectorsPerCluster l.fatOffset
    (l.fatLength - l.sectorsPerCluster)

section Size

variable {bps : ℕ} {total spc fat fatOffset : ℤ}

def fatStart (spc : ℤ) : ℤ := alignUp (2 * BOOT_REGION_SECTORS) spc

def largestFat (bps : ℕ) (total spc : ℤ) : ℤ := alignUp (firstFat bps total spc) spc

def fatFor (bps : ℕ) (total spc : ℤ) (h : 0 < spc) : ℤ :=
  shrink (steps spc h) (covers bps total spc (fatStart spc)) (largestFat bps total spc)
    (alignUp ((largestFat bps total spc).tdiv 2) spc)

lemma bps_bounds (h : bps ∈ [512, 1024, 2048, 4096]) : 512 ≤ bps ∧ bps ≤ 4096 := by
  simp only [List.mem_cons, List.not_mem_nil, or_false] at h
  omega

lemma layout_parts {clusterBytes : ℤ} {l : Layout} (h : layout bps total clusterBytes = .ok l) :
    ∃ spc, ∃ hspc : 0 < spc, l = ⟨bps, total, spc, fatStart spc, fatFor bps total spc hspc,
        alignUp (fatStart spc + fatFor bps total spc hspc) spc,
        clustersFor total spc (fatStart spc) (fatFor bps total spc hspc)⟩ ∧
      bps ∈ [512, 1024, 2048, 4096] ∧ spc * bps ≤ 2 ^ 25 ∧ 2 ^ 20 ≤ i64 (total * bps) ∧
      3 < clustersFor total spc (fatStart spc) (fatFor bps total spc hspc) ∧
      clustersFor total spc (fatStart spc) (fatFor bps total spc hspc) + 2 ≤
        (i64 (fatFor bps total spc hspc * bps)).tdiv 4 := by
  unfold layout at h
  obtain ⟨_, hbps, h⟩ := except_bind_ok h
  obtain ⟨_, hcluster, h⟩ := except_bind_ok h
  obtain ⟨_, hsize, h⟩ := except_bind_ok h
  have hbps := require_ok hbps
  obtain ⟨hle, -, hmax⟩ := require_ok hcluster
  have hpos := (bps_bounds hbps).1
  have hspc : 0 < clusterBytes.tdiv bps := by
    rw [tdiv_of_nonneg (by omega)]
    exact (Int.le_ediv_iff_mul_le (by omega)).2 (by omega)
  have hbytes : clusterBytes.tdiv bps * bps ≤ 2 ^ 25 := by
    rw [tdiv_of_nonneg (by omega)]
    exact (Int.ediv_mul_le clusterBytes (by omega)).trans (hmax.trans (by norm_num))
  dsimp only at h
  rw [dif_pos hspc] at h
  obtain ⟨_, hmin, h⟩ := except_bind_ok h
  obtain ⟨_, hcovers, h⟩ := except_bind_ok h
  cases h
  exact ⟨_, hspc, rfl, hbps, hbytes, require_ok hsize, require_ok hmin, not_not.1 (failIf_ok hcovers)⟩

lemma alignUp_near {v a : ℤ} (hv : 0 ≤ v) (ha : 0 < a) (hlt : v + a ≤ 2 ^ 63) :
    v ≤ alignUp v a ∧ alignUp v a < v + a := by
  have h1 := Int.ediv_mul_le (v + a - 1) ha.ne'
  have h2 := Int.lt_ediv_add_one_mul_self (v + a - 1) ha
  rw [alignUp_of_nonneg hv ha hlt]
  rw [add_mul, one_mul] at h2
  omega

lemma largestFat_bounds (hbps : bps ∈ [512, 1024, 2048, 4096]) (hspc : 0 < spc)
    (hspc' : spc * bps ≤ 2 ^ 25) (h0 : 0 ≤ total) (htotal : total ≤ 2 ^ 32) :
    0 < largestFat bps total spc ∧ largestFat bps total spc ≤ 2 ^ 36 ∧
      largestFat bps total spc * bps ≤ (total / spc + 2) * 4 + bps - 1 + spc * bps := by
  obtain ⟨hb1, hb2⟩ := bps_bounds hbps
  have hq0 : 0 ≤ total / spc := Int.ediv_nonneg h0 hspc.le
  have hq : total / spc ≤ total := Int.ediv_le_self _ h0
  have hspc'' : spc ≤ 2 ^ 25 := by nlinarith
  have hfirst : firstFat bps total spc = ((total / spc + 2) * 4 + bps - 1) / bps := by
    rw [firstFat_eq hb1 hb2 (by omega) (by omega), tdiv_of_nonneg h0, tdiv_of_nonneg (by omega)]
  have hpos : (0 : ℤ) < bps := by omega
  have hone : 1 ≤ firstFat bps total spc := by
    rw [hfirst]
    exact (Int.le_ediv_iff_mul_le hpos).2 (by omega)
  have hmul : firstFat bps total spc * bps ≤ (total / spc + 2) * 4 + bps - 1 := by
    rw [hfirst]
    exact Int.ediv_mul_le _ hpos.ne'
  have hle : firstFat bps total spc ≤ firstFat bps total spc * bps := by nlinarith
  obtain ⟨h1, h2⟩ := alignUp_near (v := firstFat bps total spc) (by omega) hspc (by omega)
  have hbytes : largestFat bps total spc * bps ≤ (firstFat bps total spc + spc) * bps :=
    Int.mul_le_mul_of_nonneg_right h2.le hpos.le
  rw [Int.add_mul] at hbytes
  refine ⟨by unfold largestFat; omega, by unfold largestFat; omega, by omega⟩

lemma steps_next {step : ℤ} (hspc : 0 < spc) (hspc' : spc ≤ 2 ^ 25)
    (hstep : spc ∣ step ∧ step ≤ 2 ^ 40) (hlt : spc < step) :
    (spc ∣ (steps spc hspc).next step ∧ (steps spc hspc).next step ≤ 2 ^ 40) ∧
    spc ≤ (steps spc hspc).next step := by
  have hless := (steps spc hspc).less step hlt.le
  have heq : (steps spc hspc).next step = alignUp (step / 2) spc := by
    show (if step = spc then 0 else alignUp (step.tdiv 2) spc) = _
    rw [if_neg hlt.ne', tdiv_of_nonneg (by omega)]
  obtain ⟨⟨k, rfl⟩, hle⟩ := hstep
  have hk : 2 ≤ k := by nlinarith
  have hhalf : spc * 2 ≤ spc * k := Int.mul_le_mul_of_nonneg_left hk hspc.le
  obtain ⟨h1, -⟩ := alignUp_near (v := spc * k / 2) (by omega) hspc (by omega)
  refine ⟨⟨by rw [heq]; exact dvd_alignUp, by omega⟩, by rw [heq]; omega⟩

lemma fatFor_bounds (hspc : 0 < spc) (hlarge : 0 < largestFat bps total spc) :
    0 < fatFor bps total spc hspc ∧ fatFor bps total spc hspc ≤ largestFat bps total spc ∧
    spc ∣ fatFor bps total spc hspc := by
  refine shrink_induct (P := fun fat => 0 < fat ∧ fat ≤ largestFat bps total spc ∧ spc ∣ fat)
    (Q := fun step => spc ∣ step)
    (fun step _ => ?_) (fun fat step hP hQ hle hpos => ?_) _ _ ⟨hlarge, le_rfl, dvd_alignUp⟩ dvd_alignUp
  · show spc ∣ if step = spc then 0 else alignUp (step.tdiv 2) spc
    split
    · exact dvd_zero spc
    · exact dvd_alignUp
  · have hle : spc ≤ step := hle
    exact ⟨hpos, by omega, Int.dvd_sub hP.2.2 hQ⟩

lemma clustersFor_eq (hspc : 0 < spc) (hspc' : spc ≤ 2 ^ 25) (h0 : 0 ≤ total) (htotal : total ≤ 2 ^ 32)
    (hoff : 0 ≤ fatOffset ∧ fatOffset ≤ 2 ^ 40) (hfat : 0 ≤ fat ∧ fat ≤ 2 ^ 40)
    (hdvd : spc ∣ fatOffset + fat) (hroom : 0 ≤ total - (fatOffset + fat)) :
    clustersFor total spc fatOffset fat = clustersLeft total spc fatOffset fat := by
  unfold clustersFor clustersLeft
  rw [alignUp_of_dvd hspc (by omega) (by omega) hdvd, i64_of_range (by omega) (by omega),
    tdiv_of_nonneg hroom]

lemma covers_iff (hbps : bps ≤ 4096) (hspc : 0 < spc) (hspc' : spc ≤ 2 ^ 25) (h0 : 0 ≤ total)
    (htotal : total ≤ 2 ^ 32) (hoff : 0 ≤ fatOffset ∧ fatOffset ≤ 2 ^ 40)
    (hfat : 0 ≤ fat ∧ fat ≤ 2 ^ 40) (hdvd : spc ∣ fatOffset + fat)
    (hroom : 0 ≤ total - (fatOffset + fat)) :
    covers bps total spc fatOffset fat = true ↔ Covers bps total spc fatOffset fat := by
  have hbytes : 0 ≤ fat * bps ∧ fat * bps ≤ 2 ^ 40 * 4096 := by
    refine ⟨Int.mul_nonneg hfat.1 (by omega), ?_⟩
    have h1 : fat * (bps : ℤ) ≤ 2 ^ 40 * bps := Int.mul_le_mul_of_nonneg_right hfat.2 (by omega)
    omega
  unfold covers Covers
  rw [decide_eq_true_iff, clustersFor_eq hspc hspc' h0 htotal hoff hfat hdvd hroom,
    i64_of_range (by omega) (by omega),
    tdiv_of_nonneg hbytes.1]

/-- **What the layout accepts is a volume**, with a FAT that covers its clusters and is not a
cluster too large. -/
lemma layout_sound {clusterBytes : ℤ} {l : Layout} (h0 : 0 ≤ total) (htotal : total ≤ 2 ^ 32)
    (h : layout bps total clusterBytes = .ok l) :
    l.Sound ∧ l.bytesPerSector = bps ∧ l.totalSectors = total := by
  obtain ⟨spc, hspc, rfl, hbps, hbytes, hsize, hmin, hcovers⟩ := layout_parts h
  refine ⟨?_, rfl, rfl⟩
  obtain ⟨hb1, hb2⟩ := bps_bounds hbps
  obtain ⟨hlarge, hlarge', hfirst⟩ := largestFat_bounds hbps hspc hbytes h0 htotal
  obtain ⟨hpos, hle, hdvd⟩ := fatFor_bounds hspc hlarge
  have hspc' : spc ≤ 2 ^ 25 := by nlinarith
  have hstart :=
    alignUp_near (v := 2 * BOOT_REGION_SECTORS) (by decide) hspc
      (by unfold BOOT_REGION_SECTORS; push_cast; omega)
  have hstart' : 24 ≤ fatStart spc ∧ fatStart spc < 24 + spc := hstart
  have hoff : spc ∣ fatStart spc := dvd_alignUp
  have hall : spc ∣ fatStart spc + fatFor bps total spc hspc := Int.dvd_add hoff hdvd
  have hfat : fatFor bps total spc hspc ≤ 2 ^ 40 := by omega
  -- a volume with more than three clusters reaches behind its FAT
  have hroom : 0 ≤ total - (fatStart spc + fatFor bps total spc hspc) := by
    by_contra hneg
    unfold clustersFor at hmin
    rw [alignUp_of_dvd hspc (by omega) (by omega) hall, i64_of_range (by omega) (by omega),
      tdiv_of_nonpos (by omega)] at hmin
    have := Int.ediv_nonneg (a := -(total - (fatStart spc + fatFor bps total spc hspc)))
      (by omega) hspc.le
    omega
  have hclusters := clustersFor_eq hspc hspc' h0 htotal (by omega) (by omega) hall hroom
  have hcover : Covers bps total spc (fatStart spc) (fatFor bps total spc hspc) := by
    rw [← covers_iff hb2 hspc hspc' h0 htotal (by omega) (by omega) hall hroom]
    exact decide_eq_true hcovers
  have hbytes' : total * bps ≤ total * 4096 := Int.mul_le_mul_of_nonneg_left (by omega) h0
  rw [i64_of_range (by have := Int.mul_nonneg h0 (show (0 : ℤ) ≤ bps by omega); omega) (by omega)]
    at hsize
  refine ⟨hbps, htotal, hsize, hspc, hbytes, hstart', hpos, ?_,
    alignUp_of_dvd hspc (by omega) (by omega) hall, ⟨hoff, hdvd⟩,
    hclusters, hmin, hcover, ?_⟩
  · exact (Int.mul_le_mul_of_nonneg_right hle (by omega)).trans hfirst
  · show ¬Covers bps total spc (fatStart spc) (fatFor bps total spc hspc - spc)
    intro hcov
    rcases Int.le_iff_lt_or_eq.1 (Int.le_of_dvd hpos hdvd) with hlt | heq
    · -- the loop has tried the FAT that is a cluster smaller
      have hcov' := (covers_iff hb2 hspc hspc' h0 htotal (by omega) (by omega)
        (by rw [← Int.add_sub_assoc]; exact Int.dvd_sub hall (dvd_refl spc)) (by omega)).2 hcov
      have hhalf := alignUp_near (v := largestFat bps total spc / 2) (by omega) hspc (by omega)
      obtain ⟨k, hk⟩ := hdvd
      have hk2 : 2 ≤ k := by nlinarith
      have htwo : spc * 2 ≤ spc * k := Int.mul_le_mul_of_nonneg_left hk2 hspc.le
      have hend : (steps spc hspc).next spc = 0 := if_pos rfl
      refine @shrink_least (steps spc hspc) (ExFat.covers bps total spc (fatStart spc))
        (fun step => spc ∣ step ∧ step ≤ 2 ^ 40)
        (hend.trans_lt hspc) (fun step hQ hlt => steps_next hspc hspc' hQ hlt) (largestFat bps total spc)
        (alignUp ((largestFat bps total spc).tdiv 2) spc) ⟨dvd_alignUp, ?_⟩ ?_ ⟨?_, hcov'⟩
      · rw [tdiv_of_nonneg hlarge.le]
        omega
      · show spc ≤ _
        rw [tdiv_of_nonneg hlarge.le]
        omega
      · show 0 < fatFor bps total spc hspc - spc
        omega
    · -- no FAT at all covers nothing
      rw [← heq, Int.sub_self] at hcov
      unfold Covers at hcov
      have hmore : clustersLeft total spc (fatStart spc) (fatFor bps total spc hspc) ≤
          clustersLeft total spc (fatStart spc) 0 :=
        min_le_min_right _ (Int.ediv_le_ediv hspc (by omega))
      omega

end Size

/-! ### the system structures fit -/

section Fit

variable {l : Layout}

lemma clustersForBytes_mul {x : ℤ} (hx : 0 ≤ x) (hc : 0 < l.clusterBytes) :
    clustersForBytes x l = 1 ∨ 1 ≤ clustersForBytes x l ∧
    clustersForBytes x l * l.clusterBytes < x + l.clusterBytes := by
  have hmul := Int.ediv_mul_le (x + l.clusterBytes - 1) hc.ne'
  unfold clustersForBytes
  rw [tdiv_of_nonneg (by omega)]
  rcases max_choice 1 ((x + l.clusterBytes - 1) / l.clusterBytes) with h | h
  · exact .inl h
  · refine .inr ⟨le_max_left _ _, ?_⟩
    rw [h]
    omega

lemma Layout.Sound.clusterBytes_ge (h : l.Sound) : 512 ≤ l.clusterBytes := by
  have h1 := (bps_bounds h.bytesPerSector).1
  have h2 := h.sectorsPerCluster
  unfold Layout.clusterBytes
  nlinarith

lemma Layout.Sound.clusters_room (h : l.Sound) (hc : l.clusterBytes ≤ 65536) :
    400000 ≤ l.clusterCount * l.clusterBytes := by
  have hc512 := h.clusterBytes_ge
  obtain ⟨hb1, hb2⟩ := bps_bounds h.bytesPerSector
  have hbps : (0 : ℤ) ≤ l.bytesPerSector := by omega
  have hspc := h.sectorsPerCluster
  have hcount := h.clusters
  unfold clustersLeft at hcount
  rcases min_choice ((l.totalSectors - (l.fatOffset + l.fatLength)) / l.sectorsPerCluster)
    0xFFFFFFF5 with hmin | hmin
  · rw [hmin] at hcount
    -- a cluster more would not fit behind the FAT
    have hlast := Int.lt_ediv_add_one_mul_self (l.totalSectors - (l.fatOffset + l.fatLength)) hspc
    rw [← hcount] at hlast
    have hbytes := Int.mul_le_mul_of_nonneg_right hlast.le hbps
    have hprod : (l.clusterCount + 1) * l.sectorsPerCluster * l.bytesPerSector =
        l.clusterCount * l.clusterBytes + l.clusterBytes := by
      unfold Layout.clusterBytes
      ring
    have hrest : (l.totalSectors - (l.fatOffset + l.fatLength)) * l.bytesPerSector =
        l.totalSectors * l.bytesPerSector - l.fatOffset * l.bytesPerSector - l.fatLength *
          l.bytesPerSector := by ring
    rw [hprod, hrest] at hbytes
    have hoff : l.fatOffset * l.bytesPerSector ≤ 24 * l.bytesPerSector + l.clusterBytes := by
      have := Int.mul_le_mul_of_nonneg_right h.fatOffset.2.le hbps
      rw [Int.add_mul] at this
      exact this
    -- the entries of the FAT take a part of the volume that is small
    have hentries : l.totalSectors / l.sectorsPerCluster * 512 ≤ l.totalSectors * l.bytesPerSector := by
      have h0 : 0 ≤ l.totalSectors := by
        have := h.size
        by_contra hneg
        nlinarith
      have hq := Int.ediv_nonneg h0 hspc.le
      have h1 : l.totalSectors / l.sectorsPerCluster * 512 ≤ l.totalSectors / l.sectorsPerCluster *
          l.clusterBytes :=
        Int.mul_le_mul_of_nonneg_left hc512 hq
      have h2 := Int.mul_le_mul_of_nonneg_right (Int.ediv_mul_le l.totalSectors hspc.ne') hbps
      rw [mul_assoc] at h2
      exact h1.trans h2
    have hsize := h.size
    have hfat := h.fat_le
    generalize l.totalSectors * l.bytesPerSector = V at *
    generalize l.clusterCount * l.clusterBytes = N at *
    generalize l.fatOffset * l.bytesPerSector = A at *
    generalize l.fatLength * l.bytesPerSector = B at *
    omega
  · rw [hmin] at hcount
    rw [hcount]
    omega

/-- **The bitmap, the up-case table and the root directory fit**, which `format` does not check. -/
lemma used_le (lib : Library) (h : l.Sound) : (areas lib l).usedClusters ≤ l.clusterCount := by
  have hc := h.clusterBytes_ge
  have hmin := h.min
  have htable := compressed_length lib
  have hbytes : (l.clusterCount + 7).tdiv 8 = (l.clusterCount + 7) / 8 := tdiv_of_nonneg (by omega)
  have hb := clustersForBytes_mul (l := l) (x := (l.clusterCount + 7) / 8) (by omega) (by omega)
  have hu := clustersForBytes_mul (l := l) (x := (compressed lib).length) (by omega) (by omega)
  show clustersForBytes ((l.clusterCount + 7).tdiv 8) l +
    clustersForBytes (compressed lib).length l + 1 ≤ l.clusterCount
  rw [hbytes]
  generalize clustersForBytes ((l.clusterCount + 7) / 8) l = b at *
  generalize clustersForBytes (compressed lib).length l = u at *
  rcases le_or_gt l.clusterBytes 65536 with hsmall | hlarge
  · have hroom := h.clusters_room hsmall
    have hn : l.clusterCount * 512 ≤ l.clusterCount * l.clusterBytes :=
      Int.mul_le_mul_of_nonneg_left hc (by omega)
    have hb' : b * l.clusterBytes ≤ (l.clusterCount + 7) / 8 + l.clusterBytes := by
      rcases hb with rfl | hb <;> omega
    have hu' : u * l.clusterBytes ≤ (compressed lib).length + l.clusterBytes := by
      rcases hu with rfl | hu <;> omega
    refine le_of_mul_le_mul_right ?_ (show 0 < l.clusterBytes by omega)
    rw [Int.add_mul, Int.add_mul, one_mul]
    omega
  · have hu2 : u ≤ 2 := by
      by_contra hgt
      have : 3 * l.clusterBytes ≤ u * l.clusterBytes :=
        Int.mul_le_mul_of_nonneg_right (by omega) (by omega)
      omega
    rcases hb with rfl | ⟨hb1, hb⟩
    · omega
    · -- a bitmap of more than one cluster is one of very many clusters
      rcases le_or_gt b 1 with hb2 | hb2
      · omega
      · have h1 : 2 * l.clusterBytes ≤ b * l.clusterBytes :=
          Int.mul_le_mul_of_nonneg_right (by omega) (by omega)
        have h2 : b * 65537 ≤ b * l.clusterBytes := Int.mul_le_mul_of_nonneg_left (by omega) (by omega)
        omega

end Fit

/-! ### where the structures lie -/

/-- The sectors of the boot regions, the FAT and the three structures in the cluster heap: from one
up to another. -/
def spans (l : Layout) (a : Areas) : List (ℤ × ℤ) :=
  [(0, BOOT_REGION_SECTORS), (BOOT_REGION_SECTORS, 2 * BOOT_REGION_SECTORS),
    (l.fatOffset, l.fatOffset + l.fatLength),
    (l.clusterSector Areas.bitmapCluster, l.clusterSector a.upcaseCluster),
    (l.clusterSector a.upcaseCluster, l.clusterSector a.rootCluster),
    (l.clusterSector a.rootCluster, l.clusterSector (a.rootCluster + 1))]

/-- The sectors and clusters of a formatted volume as natural numbers. -/
structure Layout.Places (l : Layout) (a : Areas) (f g s b u : ℕ) : Prop where
  bps : 512 ≤ l.bytesPerSector ∧ l.bytesPerSector ≤ 4096
  fatOffset : l.fatOffset = f
  fat : l.fatLength = g
  heap : l.clusterHeapOffset = (f + g : ℕ)
  cluster : l.sectorsPerCluster = s
  bitmap : a.bitmapClusters = b
  upcase : a.upcaseClusters = u
  boot : 24 ≤ f
  fat_pos : 0 < g
  cluster_pos : 0 < s
  bitmap_pos : 0 < b
  upcase_pos : 0 < u
  /-- The numbers of entries, of bytes of the bitmap and of bytes of the table are `Int`s. -/
  small : b + u + 3 < 2 ^ 28 ∧ b * (s * l.bytesPerSector) < 2 ^ 31 ∧ u * (s * l.bytesPerSector) < 2 ^ 31
  /-- The FAT has room for the entries, and the bitmap for a bit for every cluster. -/
  room : 4 * (b + u + 3) ≤ g * l.bytesPerSector ∧ l.clusterCount ≤ (8 * (b * (s * l.bytesPerSector)) : ℕ)
  fits : (b + u + 1 : ℕ) ≤ l.clusterCount
  inside : (f + g + (b + u + 1) * s : ℕ) ≤ l.totalSectors

section Places

variable {lib : Library} {l : Layout}

lemma clustersForBytes_ge {x : ℤ} (hx : 0 ≤ x) (hc : 0 < l.clusterBytes) :
    x ≤ clustersForBytes x l * l.clusterBytes := by
  have hlt := Int.lt_ediv_add_one_mul_self (x + l.clusterBytes - 1) hc
  rw [Int.add_mul, one_mul] at hlt
  have hle : (x + l.clusterBytes - 1) / l.clusterBytes * l.clusterBytes ≤ clustersForBytes x l *
      l.clusterBytes := by
    unfold clustersForBytes
    rw [tdiv_of_nonneg (by omega)]
    exact Int.mul_le_mul_of_nonneg_right (le_max_right _ _) hc.le
  omega

lemma clustersForBytes_bounds {x : ℤ} (hx : 0 ≤ x) (h : l.Sound) : 1 ≤ clustersForBytes x l ∧
    x ≤ clustersForBytes x l * l.clusterBytes ∧
      clustersForBytes x l * l.clusterBytes ≤ x + l.clusterBytes ∧
      clustersForBytes x l * 512 ≤ clustersForBytes x l * l.clusterBytes := by
  have hc := h.clusterBytes_ge
  have hge := clustersForBytes_ge hx (by omega : 0 < l.clusterBytes)
  have hone : 1 ≤ clustersForBytes x l := le_max_left _ _
  refine ⟨hone, hge, ?_, Int.mul_le_mul_of_nonneg_left hc (by omega)⟩
  rcases clustersForBytes_mul hx (by omega : 0 < l.clusterBytes) with h | h
  · rw [h]
    omega
  · omega

lemma Layout.Sound.places (lib : Library) (h : l.Sound) :
    l.Places (areas lib l) l.fatOffset.toNat l.fatLength.toNat l.sectorsPerCluster.toNat
      (areas lib l).bitmapClusters.toNat (areas lib l).upcaseClusters.toNat := by
  have hbps := bps_bounds h.bytesPerSector
  have hmin := h.min
  have htable := compressed_length lib
  have hmax : l.clusterCount ≤ 0xFFFFFFF5 := by
    rw [h.clusters]
    exact min_le_right _ _
  have hbytes : (l.clusterCount + 7).tdiv 8 = (l.clusterCount + 7) / 8 := tdiv_of_nonneg (by omega)
  have hb := clustersForBytes_bounds (x := (l.clusterCount + 7) / 8) (by omega) h
  have hu := clustersForBytes_bounds (x := (compressed lib).length) (by omega) h
  have hused : clustersForBytes ((l.clusterCount + 7).tdiv 8) l +
    clustersForBytes (compressed lib).length l + 1 ≤
    l.clusterCount := used_le lib h
  have hcb := h.clusterBytes
  have hoff := h.fatOffset
  have hfat := h.fat
  have hspc := h.sectorsPerCluster
  have hheap := h.heap
  have hcovers := h.covers
  unfold Covers at hcovers
  rw [← h.clusters] at hcovers
  -- the used clusters end inside the volume, because all clusters do
  have hend : l.fatOffset + l.fatLength + l.clusterCount * l.sectorsPerCluster ≤ l.totalSectors := by
    have hmul := Int.ediv_mul_le (l.totalSectors - (l.fatOffset + l.fatLength)) hspc.ne'
    have hle : l.clusterCount * l.sectorsPerCluster ≤
        (l.totalSectors - (l.fatOffset + l.fatLength)) / l.sectorsPerCluster * l.sectorsPerCluster :=
      Int.mul_le_mul_of_nonneg_right (by rw [h.clusters]; exact min_le_left _ _) hspc.le
    omega
  have hcast : ∀ x : ℤ, 0 ≤ x →
      ((x.toNat * (l.sectorsPerCluster.toNat * l.bytesPerSector) : ℕ) : ℤ) = x * l.clusterBytes :=
        by
    intro x hx
    rw [Nat.cast_mul, Nat.cast_mul, Int.toNat_of_nonneg hx, Int.toNat_of_nonneg hspc.le]
    rfl
  have hcb' := hcast (clustersForBytes ((l.clusterCount + 7) / 8) l) (by omega)
  have hcu' := hcast (clustersForBytes (compressed lib).length l) (by omega)
  rw [hbytes] at hused
  have hlast := Int.mul_le_mul_of_nonneg_right hused hspc.le
  have hbit : (areas lib l).bitmapClusters = clustersForBytes ((l.clusterCount + 7) / 8) l := by
    rw [← hbytes]
    rfl
  have hup : (areas lib l).upcaseClusters = clustersForBytes (compressed lib).length l := rfl
  rw [hbit, hup]
  generalize clustersForBytes ((l.clusterCount + 7) / 8) l = b at *
  generalize clustersForBytes (compressed lib).length l = u at *
  have hfatBytes : ((l.fatLength.toNat * l.bytesPerSector : ℕ) : ℤ) =
      l.fatLength * l.bytesPerSector := by
    rw [Nat.cast_mul, Int.toNat_of_nonneg hfat.le]
  have hlast' : (((b.toNat + u.toNat + 1) * l.sectorsPerCluster.toNat : ℕ) : ℤ) =
      (b + u + 1) * l.sectorsPerCluster := by
    push_cast
    rw [Int.toNat_of_nonneg (by omega), Int.toNat_of_nonneg (by omega), Int.toNat_of_nonneg (by omega)]
  constructor
  · exact hbps
  all_goals omega

variable {a : Areas} {f g s b u : ℕ}

lemma Layout.Places.sectors (h : l.Places a f g s b u) :
    l.clusterSector Areas.bitmapCluster = (f + g : ℕ) ∧
      l.clusterSector a.upcaseCluster = (f + g + b * s : ℕ) ∧
      l.clusterSector a.rootCluster = (f + g + b * s + u * s : ℕ) ∧
      l.clusterSector (a.rootCluster + 1) = (f + g + b * s + u * s + s : ℕ) := by
  unfold Layout.clusterSector Areas.rootCluster Areas.upcaseCluster Areas.bitmapCluster
  rw [h.heap, h.bitmap, h.upcase, h.cluster]
  push_cast
  refine ⟨?_, ?_, ?_, ?_⟩ <;> ring

/-- **The structures do not overlap, and end inside the volume.** -/
lemma Layout.Places.spans_apart (h : l.Places a f g s b u) :
    (spans l a).Pairwise (fun x y => x.2 ≤ y.1) ∧
    ∀ x ∈ spans l a, 0 ≤ x.1 ∧ x.1 < x.2 ∧ x.2 ≤ l.totalSectors := by
  obtain ⟨h1, h2, h3, h4⟩ := h.sectors
  have hf := h.boot
  have hg := h.fat_pos
  have hs := h.cluster_pos
  have hbs : s ≤ b * s := Nat.le_mul_of_pos_left _ h.bitmap_pos
  have hus : s ≤ u * s := Nat.le_mul_of_pos_left _ h.upcase_pos
  have hin := h.inside
  rw [Nat.add_mul, Nat.add_mul, Nat.one_mul] at hin
  unfold spans BOOT_REGION_SECTORS
  rw [h1, h2, h3, h4, h.fatOffset, h.fat]
  simp only [List.pairwise_cons, List.mem_cons, List.not_mem_nil, or_false, forall_eq_or_imp,
    forall_eq, false_imp_iff, forall_const, List.Pairwise.nil, and_true]
  omega

end Places

/-! ### what `format` does to the device -/

section Writes

variable {σ : Type} {lib : Library} {dev : RawBlockDevice σ} {total partitionOffset : ℤ} {label : Text}
  {clusterBytes : Option ℤ} {l : Layout} {f g s b u : ℕ}

def fatBuffer (a : Areas) : Bytes :=
  (fatEntries a).zipIdx.foldl (fun b (v, i) => b.put32 (4 * i) v) zeros

def bitmapBuffer (a : Areas) : Bytes :=
  (List.range a.usedClusters.toNat).foldl (fun b i => b.setBit i) zeros

def regionOf (lib : Library) (l : Layout) (partitionOffset : ℤ) : List UInt8 :=
  bootRegion l (areas lib l).rootCluster partitionOffset lib.volumeSerial
    (((areas lib l).usedClusters * 100).tdiv l.clusterCount)

def requests (lib : Library) (l : Layout) (label : Text) (partitionOffset : ℤ) (s b u : ℕ) :
    List Request :=
  zeroRequests l.bytesPerSector 0 l.clusterHeapOffset ++
    [⟨l.fatOffset, padToSectors ((fatBuffer (areas lib l)).slice 0 (4 * (b + u + 3))) l.bytesPerSector⟩,
      ⟨l.clusterSector Areas.bitmapCluster,
        (bitmapBuffer (areas lib l)).slice 0 (b * (s * l.bytesPerSector))⟩,
      ⟨l.clusterSector (areas lib l).upcaseCluster,
        (ofList (compressed lib)).slice 0 (u * (s * l.bytesPerSector))⟩,
      ⟨l.clusterSector (areas lib l).rootCluster,
        (root lib (areas lib l) label).slice 0 (s * l.bytesPerSector)⟩,
      ⟨BOOT_REGION_SECTORS, regionOf lib l partitionOffset⟩, ⟨0, regionOf lib l partitionOffset⟩]

lemma fatEntries_length (a : Areas) :
    (fatEntries a).length = a.bitmapClusters.toNat + a.upcaseClusters.toNat + 3 := by
  unfold fatEntries chain
  simp only [List.length_append, List.length_cons, List.length_nil, List.length_map,
    List.length_range, Int.toNat_one]
  omega

lemma Layout.Places.used {a : Areas} (h : l.Places a f g s b u) : a.usedClusters = (b + u + 1 : ℕ) := by
  unfold Areas.usedClusters
  rw [h.bitmap, h.upcase]
  push_cast
  rfl

lemma fatBytes_run {a : Areas} (h : l.Places a f g s b u) :
    fatBytes a = .ok ((fatBuffer a).slice 0 (4 * (b + u + 3))) := by
  have hsize : i32 ((a.usedClusters + 2) * 4) = (4 * (b + u + 3) : ℕ) := by
    have hsmall := h.small.1
    rw [h.used, i32_of_lt (by omega) (by omega)]
    push_cast
    ring
  have hlen : (fatEntries a).length = b + u + 3 := by
    rw [fatEntries_length, h.bitmap, h.upcase, Int.toNat_natCast, Int.toNat_natCast]
  unfold fatBytes
  rw [hsize, hlen]
  dsimp only
  rw [except_bind_run (require_run (by omega)), failIf_bind_run (by omega), Int.toNat_natCast]
  rfl

lemma Layout.Places.bytes {a : Areas} (h : l.Places a f g s b u) :
    l.clusterBytes = (s * l.bytesPerSector : ℕ) := by
  unfold Layout.clusterBytes
  rw [h.cluster]
  push_cast
  rfl

lemma bitmap_run {a : Areas} (h : l.Places a f g s b u) :
    bitmap l a = .ok ((bitmapBuffer a).slice 0 (b * (s * l.bytesPerSector))) := by
  have hsize : i32 (a.bitmapClusters * l.clusterBytes) = (b * (s * l.bytesPerSector) : ℕ) := by
    rw [h.bitmap, h.bytes, ← Nat.cast_mul, i32_natCast h.small.2.1]
  have hroom := h.fits.trans h.room.2
  unfold bitmap
  rw [hsize, h.used]
  dsimp only
  rw [failIf_bind_run (by omega), failIf_bind_run (by omega), Int.toNat_natCast, Int.toNat_natCast,
    bitmapBuffer, h.used, Int.toNat_natCast]
  rfl

lemma format_issues (hcount : total ≤ dev.blockCount)
    (hl : layout dev.blockSize total (clusterBytesOr dev.blockSize total clusterBytes) = .ok l)
    (hbps : l.bytesPerSector = dev.blockSize) (h : l.Places (areas lib l) f g s b u) :
    Issues dev (format lib dev total label clusterBytes partitionOffset)
      (requests lib l label partitionOffset s b u) l := by
  have hupcase : (i32 ((areas lib l).upcaseClusters * l.clusterBytes)).toNat =
      u * (s * l.bytesPerSector) := by
    rw [h.upcase, h.bytes, ← Nat.cast_mul, i32_natCast h.small.2.2, Int.toNat_natCast]
  have hcluster : l.clusterBytes.toNat = s * l.bytesPerSector := by rw [h.bytes, Int.toNat_natCast]
  unfold format requests
  refine .lift (require_run hcount) (.lift hl ?_)
  dsimp only
  rw [hupcase, hcluster, hbps]
  refine .bind (zero_issues ..) (.lift (fatBytes_run h) (.bind (.write ..) ?_))
  refine .lift (a := (bitmapBuffer (areas lib l)).slice 0 (b * (s * dev.blockSize))) ?_ ?_
  · rw [bitmap_run h, hbps]
  · exact .bind (.write ..)
      (.bind (.write ..) (.bind (.write ..) (.bind (.write ..) (.bind (.write ..) (.pure l)))))

lemma padToSectors_length (data : List UInt8) (bps : ℕ) (hbps : 0 < bps) :
    (padToSectors data bps).length = (data.length + bps - 1) / bps * bps := by
  have hlt := Nat.div_add_mod (data.length + bps - 1) bps
  have hmod := Nat.mod_lt (data.length + bps - 1) hbps
  rw [Nat.mul_comm] at hlt
  unfold padToSectors
  rw [List.length_append, List.length_replicate]
  omega

lemma regionOf_length (lib : Library) (l : Layout) (partitionOffset : ℤ) :
    (regionOf lib l partitionOffset).length = 12 * l.bytesPerSector := length_slice

lemma Layout.Places.fat_sectors {a : Areas} (h : l.Places a f g s b u) :
    0 < (4 * (b + u + 3) + l.bytesPerSector - 1) / l.bytesPerSector ∧
      (4 * (b + u + 3) + l.bytesPerSector - 1) / l.bytesPerSector ≤ g := by
  have hbps := h.bps
  refine ⟨Nat.div_pos (by omega) (by omega), ?_⟩
  have hroom := h.room.1
  have hmore : g.succ * l.bytesPerSector = g * l.bytesPerSector + l.bytesPerSector := Nat.succ_mul ..
  exact Nat.le_of_lt_succ ((Nat.div_lt_iff_lt_mul (by omega)).2 (by omega))

/-- **Every request of `format` is inside the volume.** -/
lemma requests_inside (h : l.Places (areas lib l) f g s b u) (label : Text) (partitionOffset : ℤ) :
    ∀ r ∈ requests lib l label partitionOffset s b u, r.Inside l.bytesPerSector l.totalSectors := by
  obtain ⟨h1, h2, h3, -⟩ := h.sectors
  have hbps : 0 < l.bytesPerSector := by have := h.bps; omega
  obtain ⟨hq, hq'⟩ := h.fat_sectors
  have hf := h.boot
  have hs := h.cluster_pos
  have hbs : s ≤ b * s := Nat.le_mul_of_pos_left _ h.bitmap_pos
  have hus : s ≤ u * s := Nat.le_mul_of_pos_left _ h.upcase_pos
  have hin := h.inside
  rw [Nat.add_mul, Nat.add_mul, Nat.one_mul] at hin
  intro r hr
  rcases List.mem_append.1 hr with hr | hr
  · refine (zeroRequests_inside hbps le_rfl r hr).mono ?_
    rw [h.heap]
    omega
  simp only [List.mem_cons, List.not_mem_nil, or_false] at hr
  rcases hr with rfl | rfl | rfl | rfl | rfl | rfl
  · refine Request.inside_of (n := (4 * (b + u + 3) + l.bytesPerSector - 1) / l.bytesPerSector) ?_
      hq hbps ?_ ?_
    · simp only [h.fatOffset]
      omega
    · rw [padToSectors_length _ _ hbps, length_slice]
    · simp only [h.fatOffset]
      omega
  · refine Request.inside_of (n := b * s) ?_ (by omega) hbps ?_ ?_
    · simp only [h1]
      omega
    · rw [length_slice, Nat.mul_assoc]
    · simp only [h1]
      omega
  · refine Request.inside_of (n := u * s) ?_ (by omega) hbps ?_ ?_
    · simp only [h2]
      omega
    · rw [length_slice, Nat.mul_assoc]
    · simp only [h2]
      omega
  · refine Request.inside_of (n := s) ?_ hs hbps (by rw [length_slice]) ?_
    · simp only [h3]
      omega
    · simp only [h3]
      omega
  · refine Request.inside_of (n := 12) (Int.natCast_nonneg _) (by decide) hbps (regionOf_length ..) ?_
    simp only [BOOT_REGION_SECTORS]
    omega
  · refine Request.inside_of (n := 12) le_rfl (by decide) hbps (regionOf_length ..) ?_
    simp only
    omega

end Writes

/-! ### what the image says -/

def fatEntry (l : Layout) (image : Bytes) (c : ℕ) : ℕ :=
  image.le32 (l.fatOffset.toNat * l.bytesPerSector + 4 * c)

/-- The chain from a cluster goes on from `c` to `d`. -/
def Follows (l : Layout) (image : Bytes) (c d : ℕ) : Prop :=
  fatEntry l image c ≠ 0xFFFFFFFF ∧ fatEntry l image c = d

/-- The chain from cluster `first` on contains `c`. -/
def InChain (l : Layout) (image : Bytes) (first c : ℕ) : Prop :=
  Relation.ReflTransGen (Follows l image) first c

def clusterByte (l : Layout) (c : ℕ) : ℕ := (l.clusterSector c).toNat * l.bytesPerSector

/-- **What an empty volume says of its clusters.** -/
structure Image (l : Layout) (image : Bytes) (rootCluster bitmapCluster upcaseCluster : ℕ) : Prop where
  /-- The boot sector has the root directory there. -/
  root : image.le32 96 = rootCluster
  /-- The entries of the root directory: the bitmap and the up-case table. -/
  bitmap : (image (clusterByte l rootCluster + 32)) = 0x81 ∧
    image.le32 (clusterByte l rootCluster + 52) = bitmapCluster
  upcase : (image (clusterByte l rootCluster + 64)) = 0x82 ∧
    image.le32 (clusterByte l rootCluster + 84) = upcaseCluster
  /-- The bitmap marks the clusters that the chains of the three contain. -/
  marks : ∀ c : ℕ, 2 ≤ c → c < l.clusterCount + 2 →
    ((image (clusterByte l bitmapCluster + (c - 2) / 8)).toNat.testBit ((c - 2) % 8) = true ↔
      InChain l image bitmapCluster c ∨ InChain l image upcaseCluster c ∨ InChain l image rootCluster c)

section Says

variable {lib : Library} {l : Layout} {label : Text} {partitionOffset : ℤ} {before : Bytes}
  {f g s b u i : ℕ}

def formatted (lib : Library) (l : Layout) (label : Text) (partitionOffset : ℤ) (s b u : ℕ)
    (before : Bytes) : Bytes :=
  rewrite (writesOf l.bytesPerSector (requests lib l label partitionOffset s b u)) before

lemma formatted_eq (label : Text) (partitionOffset : ℤ) (before : Bytes)
    (h : l.Places (areas lib l) f g s b u) : ∃ cleared : Bytes,
    formatted lib l label partitionOffset s b u before =
      overwrite (overwrite (overwrite (overwrite (overwrite (overwrite cleared
        (f * l.bytesPerSector)
          (padToSectors ((fatBuffer (areas lib l)).slice 0 (4 * (b + u + 3))) l.bytesPerSector))
        ((f + g) * l.bytesPerSector) ((bitmapBuffer (areas lib l)).slice 0 (b * (s * l.bytesPerSector))))
        ((f + g + b * s) * l.bytesPerSector)
          ((ofList (compressed lib)).slice 0 (u * (s * l.bytesPerSector))))
        ((f + g + b * s + u * s) * l.bytesPerSector)
          ((root lib (areas lib l) label).slice 0 (s * l.bytesPerSector)))
        (12 * l.bytesPerSector) (regionOf lib l partitionOffset))
        0 (regionOf lib l partitionOffset) := by
  obtain ⟨h1, h2, h3, -⟩ := h.sectors
  refine ⟨rewrite (writesOf l.bytesPerSector (zeroRequests l.bytesPerSector 0 l.clusterHeapOffset))
    before, ?_⟩
  unfold formatted requests
  rw [writesOf, List.map_append, rewrite_append, h1, h2, h3, h.fatOffset]
  simp only [List.map_cons, List.map_nil, Int.toNat_natCast]
  simp only [rewrite, List.foldl_cons, List.foldl_nil, Int.toNat_zero, Nat.zero_mul]
  rfl

lemma Layout.Places.order {a : Areas} (h : l.Places a f g s b u) :
    24 * l.bytesPerSector ≤ f * l.bytesPerSector ∧ 4 * (b + u + 3) ≤ g * l.bytesPerSector ∧
      (4 * (b + u + 3) + l.bytesPerSector - 1) / l.bytesPerSector * l.bytesPerSector ≤
        g * l.bytesPerSector ∧
      (f + g) * l.bytesPerSector = f * l.bytesPerSector + g * l.bytesPerSector ∧
      (f + g + b * s) * l.bytesPerSector = f * l.bytesPerSector + g * l.bytesPerSector + b *
        (s * l.bytesPerSector) ∧
      (f + g + b * s + u * s) * l.bytesPerSector =
        f * l.bytesPerSector + g * l.bytesPerSector + b * (s * l.bytesPerSector) + u *
          (s * l.bytesPerSector) := by
  refine ⟨Nat.mul_le_mul_right _ h.boot, h.room.1, Nat.mul_le_mul_right _ h.fat_sectors.2,
    Nat.add_mul .., ?_, ?_⟩
  · ring
  · ring

lemma formatted_fat (h : l.Places (areas lib l) f g s b u) (hi : i < 4 * (b + u + 3)) :
    formatted lib l label partitionOffset s b u before (f * l.bytesPerSector + i) =
      fatBuffer (areas lib l) i := by
  obtain ⟨cleared, himage⟩ := formatted_eq label partitionOffset before h
  obtain ⟨h1, h2, -, h3, h4, h5⟩ := h.order
  have hregion := regionOf_length lib l partitionOffset
  rw [himage, overwrite_outside (by omega), overwrite_outside (by omega), overwrite_slice,
    overwrite_slice, overwrite_slice, h3, h4, h5, if_neg (by omega), if_neg (by omega),
    if_neg (by omega), overwrite, if_pos (by omega), Nat.add_sub_cancel_left, padToSectors,
    List.getElem?_append_left (by rw [length_slice]; exact hi), slice, List.getElem?_map,
    List.getElem?_range hi, Option.map_some, Option.getD_some, Nat.zero_add]

lemma formatted_bitmap (h : l.Places (areas lib l) f g s b u) (hi : i < b * (s * l.bytesPerSector)) :
    formatted lib l label partitionOffset s b u before ((f + g) * l.bytesPerSector + i) =
      bitmapBuffer (areas lib l) i := by
  obtain ⟨cleared, himage⟩ := formatted_eq label partitionOffset before h
  obtain ⟨h1, h2, -, h3, h4, h5⟩ := h.order
  have hregion := regionOf_length lib l partitionOffset
  rw [himage, overwrite_outside (by omega), overwrite_outside (by omega), overwrite_slice,
    overwrite_slice, overwrite_slice, h3, h4, h5, if_neg (by omega), if_neg (by omega),
    if_pos (by omega), Nat.add_sub_cancel_left]

lemma formatted_root (h : l.Places (areas lib l) f g s b u) (hi : i < s * l.bytesPerSector) :
    formatted lib l label partitionOffset s b u before ((f + g + b * s + u * s) * l.bytesPerSector + i) =
      root lib (areas lib l) label i := by
  obtain ⟨cleared, himage⟩ := formatted_eq label partitionOffset before h
  obtain ⟨h1, h2, -, h3, h4, h5⟩ := h.order
  have hregion := regionOf_length lib l partitionOffset
  rw [himage, overwrite_outside (by omega), overwrite_outside (by omega), overwrite_slice, h5,
    if_pos (by omega),
    Nat.add_sub_cancel_left]

lemma formatted_boot (h : l.Places (areas lib l) f g s b u) (hi : i < 12 * l.bytesPerSector) :
    formatted lib l label partitionOffset s b u before i =
      (regionOf lib l partitionOffset).getD i 0 := by
  obtain ⟨cleared, himage⟩ := formatted_eq label partitionOffset before h
  have hregion := regionOf_length lib l partitionOffset
  rw [himage, overwrite, if_pos (Nat.zero_le _), Nat.sub_zero, List.getElem?_eq_getElem (by omega),
    List.getD_eq_getElem _ _ (by omega)]
  rfl

lemma le32_putAll (values : List ℕ) (k c : ℕ) (buf : Bytes) :
    ((values.zipIdx k).foldl (fun b (v, i) => b.put32 (4 * i) v) buf).le32 (4 * c) =
      if k ≤ c ∧ c < k + values.length then values.getD (c - k) 0 % 2 ^ 32 else buf.le32 (4 * c) := by
  induction values generalizing k buf with
  | nil =>
    rw [if_neg (by rw [List.length_nil]; omega)]
    rfl
  | cons v values ih =>
    rw [List.zipIdx_cons, List.foldl_cons, ih, List.length_cons]
    rcases Nat.lt_trichotomy c k with hlt | rfl | hgt
    · rw [if_neg (by omega), if_neg (by omega), le32_put32_out (by omega)]
    · rw [if_neg (by omega), if_pos (by omega), Nat.sub_self, le32_put32]
      rfl
    · rw [le32_put32_out (by omega), show c - k = c - (k + 1) + 1 by omega, List.getD_cons_succ]
      by_cases hin : c < k + 1 + values.length
      · rw [if_pos (by omega), if_pos (by omega)]
      · rw [if_neg (by omega), if_neg (by omega)]

lemma chain_getD {first n k : ℕ} (hsmall : first + n < 2 ^ 32) (hk : k < n) :
    (chain first n).getD k 0 = if k + 1 = n then 0xFFFFFFFF else first + k + 1 := by
  have hlow : low 4 ((first : ℤ) + k + 1) = first + k + 1 := by
    unfold low
    omega
  unfold chain
  rw [Int.toNat_natCast, List.getD_eq_getElem?_getD, List.getElem?_map, List.getElem?_range hk,
    Option.map_some, Option.getD_some, hlow]
  by_cases hend : k + 1 = n
  · rw [if_pos (by omega), if_pos hend]
  · rw [if_neg (by omega), if_neg hend]

lemma chain_length (first : ℤ) (n : ℕ) : (chain first n).length = n := by
  unfold chain
  rw [List.length_map, List.length_range, Int.toNat_natCast]

lemma Layout.Places.firsts {a : Areas} (h : l.Places a f g s b u) :
    Areas.bitmapCluster = (2 : ℕ) ∧ a.upcaseCluster = (2 + b : ℕ) ∧ a.rootCluster = (2 + b + u : ℕ) := by
  unfold Areas.rootCluster Areas.upcaseCluster Areas.bitmapCluster FIRST_CLUSTER
  rw [h.bitmap, h.upcase]
  push_cast
  exact ⟨trivial, rfl, rfl⟩

lemma getD_behind {p q : List ℕ} {n : ℕ} (hp : p.length = n) (k : ℕ) :
    (p ++ q).getD (n + k) 0 = q.getD k 0 := by
  rw [List.getD_append_right _ _ _ _ (by omega), hp, Nat.add_sub_cancel_left]

lemma fatEntries_getD {a : Areas} (h : l.Places a f g s b u) :
    (∀ k < b, (fatEntries a).getD (2 + k) 0 = if k + 1 = b then 0xFFFFFFFF else 2 + k + 1) ∧
      (∀ k < u, (fatEntries a).getD (2 + b + k) 0 = if k + 1 = u then 0xFFFFFFFF else 2 + b + k + 1) ∧
      (fatEntries a).getD (2 + b + u) 0 = 0xFFFFFFFF := by
  obtain ⟨h1, h2, h3⟩ := h.firsts
  have hsmall := h.small.1
  have hb := chain_length ((2 : ℕ) : ℤ) b
  have hu := chain_length ((2 + b : ℕ) : ℤ) u
  have gb : ∀ k < b, _ := fun k hk => @chain_getD 2 b k (by omega) hk
  have gu : ∀ k < u, _ := fun k hk => @chain_getD (2 + b) u k (by omega) hk
  have gr : (chain ((2 + b + u : ℕ) : ℤ) (1 : ℕ)).getD 0 0 = 0xFFFFFFFF :=
    (@chain_getD (2 + b + u) 1 0 (by omega) (by decide)).trans (if_pos rfl)
  have hentries : fatEntries a =
      [0xFFFFFFF8, 0xFFFFFFFF] ++
          (chain (2 : ℕ) b ++ (chain (2 + b : ℕ) u ++ chain (2 + b + u : ℕ) (1 : ℕ))) := by
    unfold fatEntries
    rw [h1, h2, h3, h.bitmap, h.upcase, List.append_assoc, List.append_assoc]
    rfl
  have htwo : [0xFFFFFFF8, 0xFFFFFFFF].length = 2 := rfl
  rw [hentries]
  generalize [0xFFFFFFF8, 0xFFFFFFFF] = two at htwo ⊢
  generalize chain ((2 : ℕ) : ℤ) b = B at hb gb ⊢
  generalize chain ((2 + b : ℕ) : ℤ) u = U at hu gu ⊢
  generalize chain ((2 + b + u : ℕ) : ℤ) (1 : ℕ) = R at gr ⊢
  refine ⟨fun k hk => ?_, fun k hk => ?_, ?_⟩
  · rw [getD_behind htwo, List.getD_append _ _ _ _ (by rw [hb]; exact hk), gb k hk]
  · rw [Nat.add_assoc 2 b k, getD_behind htwo, getD_behind hb,
      List.getD_append _ _ _ _ (by rw [hu]; exact hk), gu k hk,
      Nat.add_assoc 2 b k]
  · rw [Nat.add_assoc, getD_behind htwo, getD_behind hb, ← Nat.add_zero u, getD_behind hu, gr]

/-- **A chain of clusters one behind the other** contains just these. -/
lemma inChain_iff {image : Bytes} {first n : ℕ} (hn : 0 < n) (hend : first + n ≤ 0xFFFFFFFF)
    (hentry : ∀ k < n, fatEntry l image (first + k) =
      if k + 1 = n then 0xFFFFFFFF else first + k + 1) (c : ℕ) :
    InChain l image first c ↔ first ≤ c ∧ c < first + n := by
  constructor
  · intro h
    induction h with
    | refl => omega
    | tail _ hstep ih =>
      rename_i c d
      obtain ⟨hgo, hnext⟩ := hstep
      obtain ⟨k, rfl⟩ := Nat.exists_eq_add_of_le ih.1
      rw [hentry k (by omega)] at hgo hnext
      split at hgo
      · exact absurd rfl hgo
      · rename_i hlast
        rw [if_neg hlast] at hnext
        omega
  · rintro ⟨hlo, hhi⟩
    obtain ⟨k, rfl⟩ := Nat.exists_eq_add_of_le hlo
    induction k with
    | zero => exact .refl
    | succ k ih =>
      have hk := hentry k (by omega)
      rw [if_neg (by omega)] at hk
      exact (ih (by omega) (by omega)).tail ⟨by omega, hk⟩

lemma fatEntry_formatted (h : l.Places (areas lib l) f g s b u) {c : ℕ} (hc : c < b + u + 3) :
    fatEntry l (formatted lib l label partitionOffset s b u before) c =
      (fatEntries (areas lib l)).getD c 0 % 2 ^ 32 := by
  have hlen : (fatEntries (areas lib l)).length = b + u + 3 := by
    rw [fatEntries_length, h.bitmap, h.upcase, Int.toNat_natCast, Int.toNat_natCast]
  have hput := le32_putAll (fatEntries (areas lib l)) 0 c zeros
  rw [if_pos (by omega), Nat.sub_zero] at hput
  rw [← hput]
  unfold fatEntry
  rw [h.fatOffset, Int.toNat_natCast]
  refine le32_congr fun k hk => ?_
  rw [Nat.add_assoc]
  exact formatted_fat h (by omega)

lemma bitmap_formatted (h : l.Places (areas lib l) f g s b u) {j : ℕ}
    (hj : j < 8 * (b * (s * l.bytesPerSector))) :
    (formatted lib l label partitionOffset s b u before
      ((f + g) * l.bytesPerSector + j / 8)).toNat.testBit (j % 8) = true ↔
      j < b + u + 1 := by
  rw [formatted_bitmap h (by omega)]
  change (bitmapBuffer (areas lib l)).bit j = true ↔ _
  unfold bitmapBuffer
  rw [h.used, Int.toNat_natCast]
  have hbits := bit_foldl_setBit (j := j) (List.range (b + u + 1)) zeros
  rw [bit_zeros, Bool.or_false] at hbits
  rw [hbits, decide_eq_true_iff, List.mem_range]

lemma le32_rootField (h : l.Places (areas lib l) f g s b u) {o : ℕ} (ho : o + 4 ≤ s * l.bytesPerSector) :
    (formatted lib l label partitionOffset s b u before).le32
      ((f + g + b * s + u * s) * l.bytesPerSector + o) =
      (root lib (areas lib l) label).le32 o := by
  refine le32_congr fun k hk => ?_
  rw [Nat.add_assoc]
  exact formatted_root h (by omega)

lemma root_fields (lib : Library) (a : Areas) (label : Text) :
    root lib a label 32 = 0x81 ∧ (root lib a label).le32 52 = low 4 Areas.bitmapCluster % 4294967296 ∧
      root lib a label 64 = 0x82 ∧ (root lib a label).le32 84 = low 4 a.upcaseCluster % 4294967296 := by
  unfold root
  dsimp only
  generalize List.foldl _ _ _ = entry
  refine ⟨?_, ?_, ?_, ?_⟩
  · rw [put64, patch_out (by omega), put32_out (by omega), put32_out (by omega),
      put8_out (by decide), put64, patch_out (by omega),
      put32_out (by omega), put8, patch_in (by omega) (by omega)]
    rfl
  · rw [put64, le32_patch_out (by omega), le32_put32_out (by omega), le32_put32_out (by omega),
      put8, le32_patch_out (by omega),
      put64, le32_patch_out (by omega), le32_put32]
  · rw [put64, patch_out (by omega), put32_out (by omega), put32_out (by omega), put8,
      patch_in (by omega) (by omega)]
    rfl
  · rw [put64, le32_patch_out (by omega), le32_put32]

lemma le32_foldl_put {o : ℕ} {f : Bytes → ℕ → Bytes} (hf : ∀ b i, (f b i).le32 o = b.le32 o)
    (l : List ℕ) (b : Bytes) : (l.foldl f b).le32 o = b.le32 o := by
  induction l generalizing b with
  | nil => rfl
  | cons i l ih => rw [List.foldl_cons, ih, hf]

lemma region_root (hbps : 512 ≤ l.bytesPerSector) (rootCluster serial percent : ℤ) :
    (ofList (bootRegion l rootCluster partitionOffset serial percent)).le32 96 = low 4 rootCluster %
      4294967296 := by
  have hslice (buf : Bytes) : (ofList (buf.slice 0 (12 * l.bytesPerSector))).le32 96 = buf.le32 96 :=
    le32_congr fun k hk => by rw [ofList, slice_getD (by omega), Nat.zero_add]
  unfold bootRegion BOOT_REGION_SECTORS
  dsimp only
  rw [hslice, le32_foldl_put]
  swap
  · intro b i
    exact le32_put32_out (by omega)
  unfold bootHead
  dsimp only
  rw [le32_foldl_put]
  · simp only [put8]
    rw [le32_patch_out (by omega), le32_patch_out (by omega), le32_patch_out (by omega),
      le32_patch_out (by omega),
      le32_patch_out (by omega), le32_patch_out (by omega), le32_patch_out (by omega),
      le32_patch_out (by omega),
      le32_put16_out (by omega), le32_put16_out (by omega), le32_put32_out (by omega), le32_put32]
  · intro b i
    simp only [put8]
    rw [le32_patch_out (by omega), le32_patch_out (by omega)]

/-- **The image that `format` leaves is an empty volume.** -/
lemma formatted_image (hp : l.Places (areas lib l) f g s b u) :
    Image l (formatted lib l label partitionOffset s b u before) (areas lib l).rootCluster.toNat
      Areas.bitmapCluster.toNat (areas lib l).upcaseCluster.toNat := by
  obtain ⟨h1, h2, h3⟩ := hp.firsts
  obtain ⟨s1, -, s3, -⟩ := hp.sectors
  obtain ⟨r1, r2, r3, r4⟩ := root_fields lib (areas lib l) label
  obtain ⟨e1, e2, e3⟩ := fatEntries_getD hp
  have hsmall := hp.small.1
  have hcluster : l.bytesPerSector ≤ s * l.bytesPerSector := Nat.le_mul_of_pos_left _ hp.cluster_pos
  have hbps := hp.bps
  have hrootByte : clusterByte l (2 + b + u) = (f + g + b * s + u * s) * l.bytesPerSector := by
    rw [clusterByte, ← h3, s3, Int.toNat_natCast]
  have hbitmapByte : clusterByte l 2 = (f + g) * l.bytesPerSector := by
    rw [clusterByte, ← h1, s1, Int.toNat_natCast]
  -- the entries of the three chains
  have hmod {x : ℕ} (hx : x < 2 ^ 32) : x % 2 ^ 32 = x := Nat.mod_eq_of_lt hx
  have c1 := @inChain_iff l (formatted lib l label partitionOffset s b u before) 2 _ hp.bitmap_pos
    (by omega)
    fun k hk => by
      rw [fatEntry_formatted hp (by omega), e1 k hk]
      exact hmod (by split <;> omega)
  have c2 := @inChain_iff l (formatted lib l label partitionOffset s b u before)
    (2 + b) _ hp.upcase_pos (by omega)
    fun k hk => by
      rw [fatEntry_formatted hp (by omega), e2 k hk]
      exact hmod (by split <;> omega)
  have c3 := @inChain_iff l (formatted lib l label partitionOffset s b u before) (2 + b + u) 1
    Nat.one_pos (by omega) fun k hk => by
      obtain rfl : k = 0 := by omega
      rw [Nat.add_zero, fatEntry_formatted hp (by omega), e3, if_pos rfl]
      rfl
  rw [h1, h2, h3, Int.toNat_natCast, Int.toNat_natCast, Int.toNat_natCast]
  refine ⟨?_, ?_, ?_, ?_⟩
  · have hboot : (formatted lib l label partitionOffset s b u before).le32 96 =
        (ofList (regionOf lib l partitionOffset)).le32 96 :=
          le32_congr fun k hk => formatted_boot hp (by omega)
    rw [hboot, regionOf, region_root hbps.1, h3, low]
    omega
  · rw [hrootByte, formatted_root hp (by omega), le32_rootField hp (by omega), r1, r2, h1]
    exact ⟨rfl, rfl⟩
  · rw [hrootByte, formatted_root hp (by omega), le32_rootField hp (by omega), r3, r4, h2, low]
    exact ⟨rfl, by omega⟩
  · intro c hc hlt
    rw [hbitmapByte, c1, c2, c3, bitmap_formatted hp ?_]
    · omega
    · have := hp.room.2
      omega

end Says

/-! ### the volume -/

/-- **The layout and the image of an exFAT volume**, for every layout that is accepted for up to `2
^ 32` sectors. The loop that sizes the FAT ends after some turns. The FAT has an entry for every
cluster and two more, which one that is a cluster smaller would not have. Whatever the up-case
table, the used clusters exist, and the boot regions, the FAT and the three structures lie one
behind the other in the volume. On a partition that has room for it, `format` leaves an image whose
bitmap marks the clusters that the three chains contain. -/
theorem format_consistent {bps : ℕ} {total clusterBytes : ℤ} {l : Layout} (h0 : 0 ≤ total)
    (htotal : total ≤ 2 ^ 32) (h : layout bps total clusterBytes = .ok l) :
    (∃ hspc : 0 < l.sectorsPerCluster, ∃ turns last,
      ((steps l.sectorsPerCluster hspc).turn (covers bps total l.sectorsPerCluster l.fatOffset))^[turns]
        (largestFat bps total l.sectorsPerCluster,
          alignUp ((largestFat bps total l.sectorsPerCluster).tdiv 2) l.sectorsPerCluster) =
            (l.fatLength, last) ∧
        last < l.sectorsPerCluster) ∧
    l.clusterCount + 2 ≤ l.fatLength * bps / 4 ∧
    ¬Covers bps total l.sectorsPerCluster l.fatOffset (l.fatLength - l.sectorsPerCluster) ∧
    ∀ lib : Library, (areas lib l).usedClusters ≤ l.clusterCount ∧
      (spans l (areas lib l)).Pairwise (fun x y => x.2 ≤ y.1) ∧
      (∀ x ∈ spans l (areas lib l), 0 ≤ x.1 ∧ x.1 < x.2 ∧ x.2 ≤ total) ∧
      ∀ (p : Slice) (w : Machine) (hp : p.firstBlock + p.blockCount ≤ w.blockCount) (label : Text)
        (given : Option ℤ) (partitionOffset : ℤ),
        w.blockSize = bps → total ≤ p.blockCount → clusterBytesOr bps total given = clusterBytes →
          ∃ w', format lib (deviceOf p w hp) total label given partitionOffset w = .ok l w' ∧
            Image l (imageOf p w') (areas lib l).rootCluster.toNat Areas.bitmapCluster.toNat
              (areas lib l).upcaseCluster.toNat := by
  obtain ⟨hsound, hbps, htotal'⟩ := layout_sound h0 htotal h
  have hcovers := hsound.covers
  have hleast := hsound.least
  rw [Covers, ← hsound.clusters, hbps] at hcovers
  rw [hbps, htotal'] at hleast
  refine ⟨?_, hcovers, hleast, fun lib => ?_⟩
  · obtain ⟨spc, hspc, rfl, -⟩ := layout_parts h
    obtain ⟨turns, last, hturns, hlast, -⟩ :=
      shrink_turns (steps spc hspc) (covers bps total spc (fatStart spc))
      (largestFat bps total spc) (alignUp ((largestFat bps total spc).tdiv 2) spc)
    exact ⟨hspc, turns, last, hturns, hlast⟩
  · have hplaces := hsound.places lib
    obtain ⟨hapart, hinside⟩ := hplaces.spans_apart
    rw [htotal'] at hinside
    refine ⟨used_le lib hsound, hapart, hinside,
      fun p w hp label given partitionOffset hsize hroom hgiven => ?_⟩
    generalize (areas lib l).bitmapClusters.toNat = b at hplaces
    generalize (areas lib l).upcaseClusters.toNat = u at hplaces
    generalize l.sectorsPerCluster.toNat = s at hplaces
    have hrequests : ∀ r ∈ requests lib l label partitionOffset s b u,
        r.Inside w.blockSize p.blockCount := by
      intro r hr
      have := requests_inside hplaces label partitionOffset r hr
      rw [hbps, htotal', ← hsize] at this
      exact this.mono hroom
    obtain ⟨w', hserved, himage⟩ := @serveAll_image p w hp _ hrequests
    have hissues :
      Issues (deviceOf p w hp) (format lib (deviceOf p w hp) total label given partitionOffset)
        (requests lib l label partitionOffset s b u) l := by
      refine format_issues hroom ?_ (hbps.trans hsize.symm) hplaces
      show layout w.blockSize total (clusterBytesOr w.blockSize total given) = .ok l
      rw [hsize, hgiven, h]
    refine ⟨w', ?_, ?_⟩
    · rw [hissues.run, hserved]
    · rw [himage, hsize, ← hbps]
      exact formatted_image hplaces

theorem format_consistent_small :
    ∃ l, layout 512 2048 65536 = .ok l ∧ l.clusterCount + 2 ≤ l.fatLength * (512 : ℕ) / 4 ∧
    ¬Covers 512 2048 l.sectorsPerCluster l.fatOffset (l.fatLength - l.sectorsPerCluster) := by
  have haccepts : (layout 512 2048 65536).isOk = true := by decide +kernel
  obtain ⟨l, hl⟩ : ∃ l, layout 512 2048 65536 = .ok l := by
    cases h : layout 512 2048 65536 with
    | ok l => exact ⟨l, rfl⟩
    | error e => rw [h] at haccepts; cases haccepts
  obtain ⟨-, hcovers, hleast, -⟩ := format_consistent (by decide) (by decide) hl
  exact ⟨l, hl, hcovers, hleast⟩

end OtgMaster.Format.ExFat
