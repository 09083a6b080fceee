import OtgMaster.Format.Fat32Image

/-!
`FilesystemDetector`: which file system a volume has, from its first blocks, and what it says of the
volumes that the formatters make. It looks for an APFS container before it looks for FAT32, at the
bytes that hold the number of sectors of a FAT32 volume. So one size of volume is formatted as FAT32
and detected as APFS (`detect_fat32`).
-/

namespace OtgMaster.Format

open Lib Bytes Block

inductive DetectedFilesystem where
  | supported (name : String)
  | unsupported (name reason : String)
  | unknown

/-- `String(bytes, offset, length, US_ASCII)`. -/
def asciiText (data : List UInt8) (offset length : ℕ) : List Char :=
  ((data.drop offset).take length).map fun b =>
    if b < 0x80 then Char.ofNat b.toNat else Char.ofNat 0xFFFD

def byteAt (data : List UInt8) (i : ℕ) : ℕ := (data.getD i 0).toNat

def detectExtVersion (data : List UInt8) : String :=
  if data.length < 1122 then "ext2/3/4"
  else if (byteAt data 1120 ||| byteAt data 1121 <<< 8) &&& 0x0040 ≠ 0 then "ext4"
  else if 1118 ≤ data.length ∧ (byteAt data 1116 ||| byteAt data 1117 <<< 8) &&& 0x0004 ≠ 0 then "ext3"
  else "ext2"

def hasBootSig (data : List UInt8) : Bool := byteAt data 510 = 0x55 ∧ byteAt data 511 = 0xAA

def detectFromBytes (data : List UInt8) : DetectedFilesystem :=
  if data.length < 512 then .unknown
  else if 11 ≤ data.length ∧ asciiText data 3 8 = "EXFAT   ".toList then .supported "exFAT"
  else if 11 ≤ data.length ∧ asciiText data 3 8 = "NTFS    ".toList then .supported "NTFS"
  else if 36 ≤ data.length ∧ byteAt data 32 = 0x4E ∧ byteAt data 33 = 0x58 ∧ byteAt data 34 = 0x53 ∧
    byteAt data 35 = 0x42 then .supported "APFS"
  else if hasBootSig data ∧ 90 ≤ data.length ∧ asciiText data 82 8 = "FAT32   ".toList then
    .supported "FAT32"
  else if hasBootSig data ∧ 62 ≤ data.length ∧ asciiText data 54 8 = "FAT16   ".toList then
    .unsupported "FAT16" "FAT16 is not supported. Please reformat the volume as FAT32 or exFAT."
  else if hasBootSig data ∧ 62 ≤ data.length ∧ asciiText data 54 8 = "FAT12   ".toList then
    .unsupported "FAT12" "FAT12 is not supported. Please reformat the volume as FAT32 or exFAT."
  else if 1026 ≤ data.length ∧ byteAt data 1024 = 0x48 ∧
      (byteAt data 1025 = 0x2B ∨ byteAt data 1025 = 0x58) then
    .unsupported "HFS+" "HFS+ (macOS Extended) is not supported. Please reformat as FAT32 or exFAT."
  else if 1082 ≤ data.length ∧ byteAt data 1080 = 0x53 ∧ byteAt data 1081 = 0xEF then
    .supported (detectExtVersion data)
  else if 1028 ≤ data.length ∧ byteAt data 1024 = 0x10 ∧ byteAt data 1025 = 0x20 ∧
    byteAt data 1026 = 0xF5 ∧
    byteAt data 1027 = 0xF2 then
    .unsupported "F2FS"
      "F2FS (Flash-Friendly File System) is not supported. Please reformat as FAT32 or exFAT."
  else .unknown

/-- `detect` of a device with these blocks, of which `read` gives the first. -/
def detect (blockCount : ℕ) (read : ℕ → E (List UInt8)) : DetectedFilesystem :=
  ((read (min 4 blockCount)).toOption.map detectFromBytes).getD .unknown

/-! ### FAT32 -/

namespace Fat32

/-- The number of sectors whose bytes are the mark of an APFS container. -/
def nxsb : ℤ := 0x4253584E

variable {lib : Library} {l : Layout} {label : Text} {hidden : ℤ} {before : Bytes} {r f s n : ℕ}

lemma detectFromBytes_formatted (h : l.Places r f s n) (h0 : 0 ≤ l.totalSectors)
    (hmax : l.totalSectors ≤ 0xFFFFFFFF) :
    detectFromBytes ((formatted lib l label hidden before).slice 0 (4 * l.bytesPerSector)) =
      .supported (if l.totalSectors = nxsb then "APFS" else "FAT32") := by
  have hsize := h.bps_le
  set boot := bootSector l (fatLabel lib label) hidden lib.volumeSerial with hboot
  have himage {i : ℕ} (hi : i < 512) : formatted lib l label hidden before i = boot i := by
    rw [formatted_boot h (by omega), bootSectors, List.append_assoc,
      List.getD_append _ _ _ _ (by simp; omega),
      slice_getD (by omega), Nat.zero_add]
  generalize hdata : (formatted lib l label hidden before).slice 0 (4 * l.bytesPerSector) = data
  have hlen : data.length = 4 * l.bytesPerSector := by rw [← hdata, length_slice]
  have htext {o k : ℕ} (ho : o + k ≤ 512) : asciiText data o k = asciiText (boot.slice o k) 0 k := by
    rw [asciiText, ← hdata, take_drop_slice (by omega), asciiText, List.drop_zero,
      take_slice le_rfl, Nat.zero_add, slice_congr fun i hi => himage (by omega)]
  have hbyte {i : ℕ} (hi : i < 512) : byteAt data i = (boot i).toNat := by
    rw [byteAt, ← hdata, slice_getD (by omega), Nat.zero_add, himage hi]
  have hoem : asciiText data 3 8 = "MSWIN4.1".toList := (htext (by decide)).trans rfl
  have hfat : asciiText data 82 8 = "FAT32   ".toList := (htext (by decide)).trans rfl
  have hsig : hasBootSig data = true :=
    decide_eq_true ⟨(hbyte (by decide)).trans rfl, (hbyte (by decide)).trans rfl⟩
  -- the four bytes of the number of sectors
  have hcount {k : ℕ} (hk : k < 4) : byteAt data (32 + k) = l.totalSectors.toNat / 256 ^ k % 256 := by
    have hlow : low 4 l.totalSectors = l.totalSectors.toNat := by
      rw [low, Int.emod_eq_of_lt h0 (by omega)]
    rw [hbyte (by omega), ← hlow, ← toNat_leByte]
    rcases show k = 0 ∨ k = 1 ∨ k = 2 ∨ k = 3 by omega with rfl | rfl | rfl | rfl <;> rfl
  have h₀ : byteAt data 32 = _ := hcount (k := 0) (by decide)
  have h₁ : byteAt data 33 = _ := hcount (k := 1) (by decide)
  have h₂ : byteAt data 34 = _ := hcount (k := 2) (by decide)
  have h₃ : byteAt data 35 = _ := hcount (k := 3) (by decide)
  unfold detectFromBytes
  rw [if_neg (by omega), hoem, if_neg fun h => absurd h.2 (by decide),
    if_neg fun h => absurd h.2 (by decide), h₀, h₁, h₂, h₃]
  unfold nxsb
  by_cases hapfs : l.totalSectors = 0x4253584E
  · rw [if_pos (by omega), if_pos hapfs]
  · rw [if_neg (by omega), if_pos ⟨hsig, by omega, hfat⟩, if_neg hapfs]

/-- **A volume that is formatted as FAT32 is detected as such**, except for the one size that has
the mark of an APFS container where FAT32 has its number of sectors. -/
theorem detect_fat32 {total : ℤ} (hlo : -2 ^ 63 ≤ total) (p : Slice) (w : Machine) (label : Text)
    (given : Option ℤ) (hp : p.firstBlock + p.blockCount ≤ w.blockCount)
    (hroom : total ≤ p.blockCount)
    (h : layout w.blockSize total (clusterBytesOr w.blockSize total given) = .ok l) :
    ∃ w', format lib (deviceOf p w hp) total label given hidden w = .ok l w' ∧
      detect p.blockCount (fun n => .ok ((imageOf p w').slice 0 (n * w.blockSize))) =
        .supported (if total = nxsb then "APFS" else "FAT32") := by
  obtain ⟨hsound, hbps, htotal⟩ := layout_ok hlo h
  obtain ⟨-, -, -, -, -, -, hmax, -⟩ := layout_parts h
  have hfits := hsound.fits
  have hmany : 65525 ≤ l.dataStartSector + l.clusterCount * l.sectorsPerCluster := by
    obtain ⟨-, h1, h2, h3, h4, -⟩ := hsound
    unfold MIN_CLUSTERS at h4
    show 65525 ≤ l.reservedSectors + 2 * l.fatSectors + _
    nlinarith
  obtain ⟨w', hserved, himage⟩ := @serveAll_image p w hp (requests lib l label hidden) fun r hr => by
    have := requests_inside hsound label hidden r hr
    rw [hbps, htotal] at this
    exact this.mono hroom
  have hissues : Issues (deviceOf p w hp) (format lib (deviceOf p w hp) total label given hidden)
      (requests lib l label hidden) l := format_issues hroom h hbps
  refine ⟨w', by rw [hissues.run, hserved], ?_⟩
  unfold detect
  rw [Nat.min_eq_left (by omega), himage, ← hbps, ← htotal]
  exact detectFromBytes_formatted hsound.places (by omega) (by omega)

def apfsDrive : Machine := ⟨512, 0x4253584E, zeros, zeros, by decide⟩

def plainLibrary : Library := ⟨fun _ => false, id, id, 0, (0, 0)⟩

theorem detect_fat32_apfs : ∃ l w',
    format plainLibrary (deviceOf ⟨0, 0x4253584E⟩ apfsDrive le_rfl) nxsb [] none 0 apfsDrive = .ok l w' ∧
      detect 0x4253584E (fun n => .ok ((imageOf ⟨0, 0x4253584E⟩ w').slice 0 (n * 512))) =
        .supported "APFS" := by
  have haccepts : (layout 512 nxsb (clusterBytesOr 512 nxsb none)).isOk = true := by decide +kernel
  cases h : layout 512 nxsb (clusterBytesOr 512 nxsb none) with
  | error e => rw [h] at haccepts; cases haccepts
  | ok l => exact ⟨l, detect_fat32 (by decide) ⟨0, 0x4253584E⟩ apfsDrive [] none le_rfl le_rfl h⟩

end Fat32

end OtgMaster.Format
