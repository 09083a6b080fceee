import OtgMaster.Luks.Created
import OtgMaster.Unlocked.Devices

/-!
Under which tweaks the sectors of a LUKS2 payload are crypted.

A `Payload` is the meaning of the data segment: sectors of one size, the `s`-th of which is under
the tweak of the first plus `s`. `ServedBy` says that a device reads and writes it, at any place and
in any pieces: a request is widened to whole sectors, and what it returns or leaves on the drive is
that of the sectors one by one. `unlockLuks2` returns one of two devices. The one for large sectors
serves the payload of the header (`largeSector_served`). The one for sectors of 512 bytes starts at
tweak 0, whatever the header says (`native_served`).
-/

namespace OtgMaster.Unlocked

open Lib Block Veracrypt Luks

/-! ### Payloads -/

/-- Sectors on the drive, each under its own tweak. -/
structure Payload where
  sectorSize : ℕ
  /-- The byte of the drive at which the first sector starts. -/
  start : ℤ
  /-- The tweak of the first sector. -/
  tweak : ℤ
  cipher : SectorCipher sectorSize

namespace Payload

variable (y : Payload) (w : Machine)

def sector (s : ℕ) : List UInt8 := w.bytes.slice (y.start + (s * y.sectorSize : ℕ)).toNat y.sectorSize

def plainSector (s : ℕ) : List UInt8 := y.cipher.crypt false (y.tweak + s) (y.sector w s)

def plainAt : Bytes := fun x => (y.plainSector w (x / y.sectorSize)).getD (x % y.sectorSize) 0

/-- Sector `s` has a byte of the `len` bytes from `x` on, or lies around them. -/
def Touches (x len s : ℕ) : Prop := s * y.sectorSize < x + len ∧ x < (s + 1) * y.sectorSize

def floor (x : ℕ) : ℕ := x / y.sectorSize * y.sectorSize

def ceil (x : ℕ) : ℕ := (x + (y.sectorSize - 1)) / y.sectorSize * y.sectorSize

end Payload

def Volume.readBlocks : Volume → ℤ → ℤ → D (List UInt8)
  | .native library d => d.readBlocks library
  | .largeSector d => d.readBlocks
  | .bitlocker d => d.readBlocks

def Volume.blocks (bs : ℕ) : Volume → ℤ
  | .native _ d => d.decryptedBlockCount
  | .largeSector d => d.blockCount bs
  | .bitlocker d => d.partitionBlocks

/-- The volume reads and writes the payload, on drives of `n` blocks of `bs` bytes. An array has
less than `2 ^ 31` bytes, and the bytes of a request are counted by `Long`s. -/
structure Payload.ServedBy (y : Payload) (v : Volume) (bs n : ℕ) : Prop where
  /-- A read returns the plaintext of its range. -/
  reads : ∀ (w : Machine) (start count : ℕ) (data : List UInt8) (h : Host), w.blockSize = bs →
    count < 2 ^ 31 →
    (start + count) * bs + y.sectorSize ≤ 2 ^ 63 → v.readBlocks start count ⟨w, []⟩ = .ok data h →
    h.drive = w ∧ data = (y.plainAt w).slice (start * bs) (count * bs)
  /-- A write leaves every sector it touches encrypted under its tweak, with the new bytes in their
  places, and every byte outside these sectors as it was. -/
  writes : ∀ (w : Machine) (start count : ℕ) (data : List UInt8) (u : PUnit) (h : Host),
    w.blockSize = bs →
    data.length = count * bs → data.length < 2 ^ 31 → (start + count) * bs + y.sectorSize ≤ 2 ^ 63 →
    v.serve (.write start data) ⟨w, []⟩ = .ok u h →
    (∀ s, y.Touches (start * bs) data.length s → y.sector h.drive s = y.cipher.crypt true (y.tweak + s)
      (Bytes.slice (overwrite (y.plainAt w) (start * bs) data) (s * y.sectorSize) y.sectorSize)) ∧
    ∀ a : ℕ, (∀ s, y.Touches (start * bs) data.length s →
      ¬(y.start + (s * y.sectorSize : ℕ) ≤ a ∧ a < y.start + ((s + 1) * y.sectorSize : ℕ))) →
      h.drive.bytes a = w.bytes a
  /-- Requests inside the volume are served, if the payload starts on the drive. -/
  readable : ∀ (w : Machine) (start count : ℕ), w.blockSize = bs → w.blockCount = n → 0 ≤ y.start →
    0 < count →
    count * bs + 2 * y.sectorSize ≤ 2 ^ 31 → ((start + count : ℕ) : ℤ) ≤ v.blocks bs →
    ∃ data h, v.readBlocks start count ⟨w, []⟩ = .ok data h
  writable : ∀ (w : Machine) (start count : ℕ) (data : List UInt8), w.blockSize = bs → w.blockCount = n →
    0 ≤ y.start → 0 < count → data.length = count * bs → count * bs + 2 * y.sectorSize ≤ 2 ^ 31 →
    ((start + count : ℕ) : ℤ) ≤ v.blocks bs → ∃ u h, v.serve (.write start data) ⟨w, []⟩ = .ok u h

/-! ### Whole sectors -/

section Sectors

variable {y : Payload} {w : Machine}

lemma Payload.floor_bounds (hpos : 0 < y.sectorSize) (x : ℕ) :
    y.sectorSize ∣ y.floor x ∧ y.floor x ≤ x ∧ x < y.floor x + y.sectorSize := by
  have h1 := Nat.div_add_mod' x y.sectorSize
  have h2 := Nat.mod_lt x hpos
  unfold Payload.floor
  exact ⟨Dvd.intro_left _ rfl, by omega, by omega⟩

lemma Payload.ceil_bounds (hpos : 0 < y.sectorSize) (x : ℕ) :
    y.sectorSize ∣ y.ceil x ∧ x ≤ y.ceil x ∧ y.ceil x < x + y.sectorSize := by
  have h1 := Nat.div_add_mod' (x + (y.sectorSize - 1)) y.sectorSize
  have h2 := Nat.mod_lt (x + (y.sectorSize - 1)) hpos
  unfold Payload.ceil
  exact ⟨Dvd.intro_left _ rfl, by omega, by omega⟩

lemma Payload.touches_iff (hpos : 0 < y.sectorSize) {x len s : ℕ} :
    y.Touches x len s ↔ y.floor x ≤ s * y.sectorSize ∧ s * y.sectorSize < y.ceil (x + len) := by
  obtain ⟨hf, hf1, hf2⟩ := y.floor_bounds hpos x
  obtain ⟨hc, hc1, hc2⟩ := y.ceil_bounds hpos (x + len)
  obtain ⟨a, ha⟩ := hf
  obtain ⟨b, hb⟩ := hc
  unfold Payload.Touches
  rw [ha] at hf1 hf2 ⊢
  rw [hb] at hc1 hc2 ⊢
  rw [Nat.mul_comm s, Nat.mul_comm (s + 1), Nat.mul_le_mul_left_iff hpos, Nat.mul_lt_mul_left hpos]
  constructor
  · rintro ⟨h1, h2⟩
    have h3 : a < s + 1 := Nat.lt_of_mul_lt_mul_left (Nat.lt_of_le_of_lt hf1 h2)
    exact ⟨by omega, Nat.lt_of_mul_lt_mul_left (Nat.lt_of_lt_of_le h1 hc1)⟩
  · rintro ⟨h1, h2⟩
    have h3 : y.sectorSize * a ≤ y.sectorSize * s := Nat.mul_le_mul_left _ h1
    have h4 : y.sectorSize * (s + 1) ≤ y.sectorSize * b := Nat.mul_le_mul_left _ h2
    rw [Nat.mul_succ] at h4 ⊢
    omega

lemma Payload.decrypt_slice (hpos : 0 < y.sectorSize) {a m : ℕ} (ha : y.sectorSize ∣ a)
    (hm : y.sectorSize ∣ m) (h0 : 0 ≤ y.start + a) :
    y.cipher.cryptSectors false (y.tweak + (a / y.sectorSize : ℕ))
      (w.bytes.slice (y.start + a).toNat m) =
      some ((y.plainAt w).slice a m) := by
  obtain ⟨s, rfl⟩ := ha
  rw [Nat.mul_div_cancel_left s hpos, SectorCipher.cryptSectors_slice hpos _ _ hm]
  congr 1
  refine List.map_congr_left fun j _ => ?_
  have hplace : (y.start + (y.sectorSize * s : ℕ)).toNat + j / y.sectorSize * y.sectorSize =
      (y.start + ((s + j / y.sectorSize) * y.sectorSize : ℕ)).toNat := by
    rw [Nat.add_mul, Nat.mul_comm s]
    omega
  unfold SectorCipher.plainByte Payload.plainAt Payload.plainSector Payload.sector
  rw [Nat.mul_add_div hpos, Nat.mul_add_mod, hplace, Int.natCast_add, Int.add_assoc]

lemma Payload.sector_written (hpos : 0 < y.sectorSize) {a block : ℕ} {P : Bytes} {m : ℕ}
    {out : List UInt8} (ha : y.sectorSize ∣ a) (hm : y.sectorSize ∣ m)
    (hplace : ((block * w.blockSize : ℕ) : ℤ) = y.start + a)
    (hout : y.cipher.cryptSectors true (y.tweak + (a / y.sectorSize : ℕ)) (P.slice a m) = some out)
    {s : ℕ} (h1 : a ≤ s * y.sectorSize) (h2 : s * y.sectorSize < a + m) :
    y.sector (w.written block out) s =
      y.cipher.crypt true (y.tweak + s) (P.slice (s * y.sectorSize) y.sectorSize) := by
  obtain ⟨q, rfl⟩ := ha
  obtain ⟨k, rfl⟩ := hm
  have hlen := SectorCipher.cryptSectors_length hout
  rw [Bytes.length_slice] at hlen
  rw [Nat.mul_comm] at h1
  have hqs : q ≤ s := Nat.le_of_mul_le_mul_right h1 hpos
  obtain ⟨j, rfl⟩ := Nat.exists_eq_add_of_le hqs
  have hj : j < k := by
    rw [← Nat.mul_add, Nat.mul_comm] at h2
    have := Nat.lt_of_mul_lt_mul_left h2
    omega
  have hunit := SectorCipher.unit_cryptSectors hpos hout j (by
    rw [Bytes.length_slice, Nat.mul_comm y.sectorSize]
    exact Nat.mul_le_mul_right _ hj)
  have hfit : j * y.sectorSize + y.sectorSize ≤ y.sectorSize * k := by
    rw [← Nat.succ_mul, Nat.mul_comm y.sectorSize]
    exact Nat.mul_le_mul_right _ hj
  have hat : (y.start + ((q + j) * y.sectorSize : ℕ)).toNat = block * w.blockSize + j *
      y.sectorSize := by
    rw [Nat.add_mul, Nat.mul_comm q]
    omega
  unfold Payload.sector
  rw [hat, Machine.slice_written_part block (by omega), hunit, Bytes.take_drop_slice hfit,
    Nat.mul_div_cancel_left q hpos, Nat.add_mul, Nat.mul_comm q, Int.natCast_add, Int.add_assoc]

/-- The sectors around the data at byte `x` have been encrypted, with the data in its place, and
written. -/
def Payload.Rewrites (y : Payload) (w w' : Machine) (x : ℕ) (data : List UInt8) : Prop :=
  ∃ block out, ((block * w.blockSize : ℕ) : ℤ) = y.start + y.floor x ∧
    y.cipher.cryptSectors true (y.tweak + (y.floor x / y.sectorSize : ℕ))
      (Bytes.slice (overwrite (y.plainAt w) x data) (y.floor x)
        (y.ceil (x + data.length) - y.floor x)) = some out ∧
    w' = w.written block out

lemma Payload.Rewrites.result (hpos : 0 < y.sectorSize) {w' : Machine} {x : ℕ} {data : List UInt8}
    (h : y.Rewrites w w' x data) :
    (∀ s, y.Touches x data.length s → y.sector w' s = y.cipher.crypt true (y.tweak + s)
      (Bytes.slice (overwrite (y.plainAt w) x data) (s * y.sectorSize) y.sectorSize)) ∧
    ∀ a : ℕ, (∀ s, y.Touches x data.length s →
      ¬(y.start + (s * y.sectorSize : ℕ) ≤ a ∧ a < y.start + ((s + 1) * y.sectorSize : ℕ))) →
      w'.bytes a = w.bytes a := by
  obtain ⟨block, out, hplace, hout, rfl⟩ := h
  obtain ⟨hF, hF1, hF2⟩ := y.floor_bounds hpos x
  obtain ⟨hT, hT1, hT2⟩ := y.ceil_bounds hpos (x + data.length)
  have hlen := SectorCipher.cryptSectors_length hout
  rw [Bytes.length_slice] at hlen
  constructor
  · intro s hs
    rw [Payload.touches_iff hpos] at hs
    exact Payload.sector_written hpos hF (Nat.dvd_sub hT hF) hplace hout hs.1 (by omega)
  · intro a ha
    refine overwrite_outside fun hin => ?_
    -- a byte that was written is in the sector that it is written with
    obtain ⟨k, rfl⟩ := Nat.exists_eq_add_of_le hin.1
    have hk := Nat.div_add_mod' (y.floor x + k) y.sectorSize
    have hmod := Nat.mod_lt (y.floor x + k) hpos
    obtain ⟨q, hq⟩ := hF
    have hfloor : y.floor x ≤ (y.floor x + k) / y.sectorSize * y.sectorSize := by
      rw [hq, Nat.mul_comm]
      exact Nat.mul_le_mul_right _ ((Nat.le_div_iff_mul_le hpos).2 (by rw [Nat.mul_comm]; omega))
    refine ha ((y.floor x + k) / y.sectorSize) ((Payload.touches_iff hpos).2 ⟨hfloor, by omega⟩) ⟨?_, ?_⟩
    · omega
    · rw [Nat.succ_mul]
      omega

end Sectors

/-! ### Calls on the drive that return -/

section Drive

variable {h h' : Host} {start count : ℤ} {data : List UInt8}

lemma readDrive_ok_iff : readDrive start count h = .ok data h' ↔
    0 ≤ start ∧ 0 ≤ count ∧ count * h.drive.blockSize < 2 ^ 31 ∧ start + count ≤ h.drive.blockCount ∧
      data = h.drive.bytes.slice (start.toNat * h.drive.blockSize) (count.toNat * h.drive.blockSize) ∧
      h' = h.logged ⟨false, start, count⟩ := by
  simp only [readDrive, bind_ok_iff, modify_ok_iff, get_ok_iff, throwIf_ok_iff, lift_ok_iff,
    exists_eq_left, not_lt, not_or, not_le]
  constructor
  · rintro ⟨_, _, _, ⟨rfl, rfl⟩, _, _, ⟨h1, rfl⟩, _, _, ⟨⟨h2, h3⟩, rfl⟩, hread, rfl⟩
    obtain ⟨hend, hdata⟩ := failIf_bind_ok hread
    cases hdata
    have hend : ¬h.drive.blockCount < start.toNat + count.toNat := hend
    exact ⟨h1, h2, h3, by omega, rfl, rfl⟩
  · rintro ⟨h1, h2, h3, h4, rfl, rfl⟩
    refine ⟨⟨⟩, _, _, ⟨rfl, rfl⟩, ⟨⟩, _, ⟨h1, rfl⟩, ⟨⟩, _, ⟨⟨h2, h3⟩, rfl⟩,
      Machine.readBlocks_run ?_, rfl⟩
    show start.toNat + count.toNat ≤ h.drive.blockCount
    omega

lemma writeDrive_ok_iff {u : PUnit} : writeDrive start data h = .ok u h' ↔
    data.length % h.drive.blockSize = 0 ∧ 0 ≤ start ∧
      start.toNat + data.length / h.drive.blockSize ≤ h.drive.blockCount ∧
      h' = ⟨h.drive.written start.toNat data,
        h.calls ++ [⟨true, start, (data.length / h.drive.blockSize : ℕ)⟩]⟩ := by
  simp only [writeDrive, bind_ok_iff, modify_ok_iff, get_ok_iff, throwIf_ok_iff, exists_eq_left,
    not_lt, not_not]
  constructor
  · rintro ⟨_, _, ⟨rfl, rfl⟩, _, _, ⟨h1, rfl⟩, _, _, _, ⟨h2, rfl⟩, _, _, ⟨h3, rfl⟩, rfl⟩
    exact ⟨h1, h2, h3, rfl⟩
  · rintro ⟨h1, h2, h3, rfl⟩
    exact ⟨_, _, ⟨rfl, rfl⟩, ⟨⟩, _, ⟨h1, rfl⟩, ⟨⟩, ⟨⟩, _, ⟨h2, rfl⟩, ⟨⟩, _, ⟨h3, rfl⟩, rfl⟩

end Drive

/-! ### Large sectors -/

section LargeSector

variable {bs : ℕ}

def LargeSectorXtsDevice.payload (d : LargeSectorXtsDevice) (bs : ℕ) : Payload :=
  ⟨d.sectorSize, d.payloadStartBlock * bs, d.ivTweak, d.cipher⟩

/-- The device has sectors of whole blocks, and starts where a `Long` can count from. -/
structure LargeSectorXtsDevice.Regular (d : LargeSectorXtsDevice) (bs : ℕ) : Prop where
  block_le : 512 ≤ bs
  sector_dvd : d.sectorSize ∣ 2 ^ 63
  sector_le : d.sectorSize ≤ 4096
  block_dvd : bs ∣ d.sectorSize
  start_ge : -2 ^ 55 ≤ d.payloadStartBlock
  start_le : d.payloadStartBlock ≤ 2 ^ 55
  blocks_ge : -2 ^ 63 ≤ d.payloadBlocks
  blocks_lt : d.payloadBlocks < 2 ^ 63

variable {d : LargeSectorXtsDevice}

lemma LargeSectorXtsDevice.Regular.block_pos (hd : d.Regular bs) : 0 < bs :=
  Nat.lt_of_lt_of_le (by decide) hd.block_le

lemma LargeSectorXtsDevice.Regular.sector_pos (hd : d.Regular bs) : 0 < d.sectorSize :=
  Nat.pos_of_dvd_of_pos hd.sector_dvd (by decide)

variable {a : ℕ}

lemma LargeSectorXtsDevice.Regular.block_of (hd : d.Regular bs) (ha : bs ∣ a) (hlong : a ≤ 2 ^ 63) :
    i64 (d.payloadStartBlock + (a : ℤ).tdiv bs) = d.payloadStartBlock + (a / bs : ℕ) := by
  obtain ⟨x, rfl⟩ := ha
  have h1 := hd.start_ge
  have h2 := hd.start_le
  have hx : 512 * x ≤ 2 ^ 63 := (Nat.mul_le_mul_right x hd.block_le).trans hlong
  rw [← Int.ofNat_tdiv, Nat.mul_div_cancel_left x hd.block_pos]
  exact i64_of_range (by omega) (by omega)

lemma LargeSectorXtsDevice.Regular.byte_of (hd : d.Regular bs) (ha : bs ∣ a)
    (h0 : 0 ≤ d.payloadStartBlock + (a / bs : ℕ)) :
    (((d.payloadStartBlock + (a / bs : ℕ)).toNat * bs : ℕ) : ℤ) = (d.payload bs).start + a := by
  obtain ⟨x, rfl⟩ := ha
  rw [Int.natCast_mul, Int.toNat_of_nonneg h0, Nat.mul_div_cancel_left x hd.block_pos, Int.add_mul,
    Int.natCast_mul, Int.mul_comm (bs : ℤ)]
  rfl

lemma readWhole_ok_iff (hd : d.Regular bs) {h h' : Host} (hsize : h.drive.blockSize = bs) {aF aT : ℕ}
    (hF : d.sectorSize ∣ aF) (hT : d.sectorSize ∣ aT) (hle : aF ≤ aT) (hlong : aT ≤ 2 ^ 63)
    (hcount : (aT - aF) / bs < 2 ^ 32) {plain : List UInt8} :
    d.readWhole bs aF aT h = .ok plain h' ↔
      0 ≤ d.payloadStartBlock + (aF / bs : ℕ) ∧ aT - aF < 2 ^ 31 ∧
        d.payloadStartBlock + (aT / bs : ℕ) ≤ h.drive.blockCount ∧
        plain = ((d.payload bs).plainAt h.drive).slice aF (aT - aF) ∧
        h' = h.logged ⟨false, d.payloadStartBlock + (aF / bs : ℕ), ((aT - aF) / bs : ℕ)⟩ := by
  have hpos := hd.block_pos
  have hdvd := Nat.dvd_sub hT hF
  -- the range in blocks, from `x` up to `z`
  obtain ⟨x, rfl⟩ := hd.block_dvd.trans hF
  obtain ⟨z, rfl⟩ := hd.block_dvd.trans hT
  have hxz : x ≤ z := Nat.le_of_mul_le_mul_left hle hpos
  rw [← Nat.mul_sub] at hcount hdvd ⊢
  rw [Nat.mul_div_cancel_left _ hpos] at hcount
  have hstart := hd.block_of (Dvd.intro x rfl) (hle.trans hlong)
  have hbyte := hd.byte_of (Dvd.intro x rfl)
  rw [Nat.mul_div_cancel_left x hpos] at hstart hbyte
  have hblocks : (((bs * z : ℕ) : ℤ) - (bs * x : ℕ)).tdiv bs = (z - x : ℕ) := by
    rw [← Int.ofNat_sub hle, ← Nat.mul_sub, ← Int.ofNat_tdiv, Nat.mul_div_cancel_left _ hpos]
  have hdec : 0 ≤ d.payloadStartBlock + x → d.cipher.cryptSectors false
      (d.ivTweak + ((bs * x : ℕ) : ℤ).tdiv d.sectorSize)
      (h.drive.bytes.slice ((d.payloadStartBlock + x).toNat * bs) (bs * (z - x))) =
        some (((d.payload bs).plainAt h.drive).slice (bs * x) (bs * (z - x))) := by
    intro h0
    have hplace := hbyte h0
    rw [show (d.payloadStartBlock + x).toNat * bs = ((d.payload bs).start + (bs * x : ℕ)).toNat by omega,
      ← Int.ofNat_tdiv]
    exact Payload.decrypt_slice (y := d.payload bs) hd.sector_pos hF hdvd (by omega)
  simp only [LargeSectorXtsDevice.readWhole, bind_ok_iff, readDrive_ok_iff, lift_ok_iff, hstart,
    hblocks, hsize, Nat.mul_div_cancel_left _ hpos]
  constructor
  · rintro ⟨data, _, ⟨h1, h2, h3, h4, rfl, rfl⟩, hplain, rfl⟩
    have hfit : z - x < 2 ^ 31 := by
      by_contra hge
      exact absurd h2 (not_le.2 (i32_neg (not_lt.1 hge) hcount))
    rw [i32_natCast hfit] at h3 h4 hplain ⊢
    rw [Int.toNat_natCast, Nat.mul_comm (z - x), hdec h1] at hplain
    cases hplain
    refine ⟨h1, ?_, by omega, rfl, rfl⟩
    rw [← Int.natCast_mul] at h3
    rw [Nat.mul_comm]
    omega
  · rintro ⟨h1, h2, h3, rfl, rfl⟩
    have hfit : z - x < 2 ^ 31 := by
      have := Nat.le_mul_of_pos_left (z - x) hpos
      omega
    rw [i32_natCast hfit]
    refine ⟨_, _, ⟨h1, by omega, ?_, by omega, rfl, rfl⟩, ?_, rfl⟩
    · rw [← Int.natCast_mul, Nat.mul_comm]
      omega
    · rw [Int.toNat_natCast, Nat.mul_comm (z - x), hdec h1]
      rfl

lemma requireInRange_ok_iff {blocks : ℤ} {s n : ℕ} {op : String} {u : PUnit} (hlong : s + n < 2 ^ 63) :
    requireInRange blocks s n op = .ok u ↔ ((s + n : ℕ) : ℤ) ≤ blocks := by
  constructor
  · intro h
    have := (requireInRange_ok h (by omega)).2.2
    omega
  · intro h
    refine require_run ⟨by omega, by omega, ?_⟩
    rwa [← Int.natCast_add, i64_natCast hlong]

lemma cut_ok_iff {Q : Bytes} {aF aT x m : ℕ} (hF : aF ≤ x) (hT : x + m ≤ aT)
    (hsize : aT - aF < 2 ^ 31) {h h' : Host} {data : List UInt8} :
    (if (aF : ℤ) = x ∧ (aT : ℤ) = (x + m : ℕ) then pure (Q.slice aF (aT - aF))
      else liftM (copyOfRange (Q.slice aF (aT - aF)) (i32 (x - aF)) (i32 ((x + m : ℕ) - aF))) :
        D (List UInt8)) h =
        .ok data h' ↔ data = Q.slice x m ∧ h' = h := by
  split
  · rename_i heq
    have h1 : aF = x := Int.ofNat_inj.1 heq.1
    have h2 : aT = x + m := Int.ofNat_inj.1 heq.2
    rw [pure_ok_iff, h1, h2, Nat.add_sub_cancel_left]
  · rw [← Int.ofNat_sub hF, ← Int.ofNat_sub (by omega), i32_natCast (by omega), i32_natCast (by omega),
      copyOfRange_run (by omega) (by rw [Bytes.length_slice]; omega),
      Bytes.take_drop_slice (by omega), lift_ok_iff,
      Nat.add_sub_cancel' hF,
      show x + m - aF - (x - aF) = m by omega, Except.ok.injEq, eq_comm (a := Q.slice x m)]

lemma request_bytes {bs s n : ℕ} (hss : 0 < d.sectorSize)
    (hreq : s * bs + n * bs + d.sectorSize ≤ 2 ^ 63) :
    i64 ((s : ℤ) * bs) = (s * bs : ℕ) ∧ i64 (((s * bs : ℕ) : ℤ) + (n : ℤ) * bs) = (s * bs + n * bs : ℕ) ∧
      floorTo d.sectorSize (s * bs : ℕ) = ((d.payload bs).floor (s * bs) : ℕ) ∧
      ceilTo d.sectorSize (s * bs + n * bs : ℕ) = ((d.payload bs).ceil (s * bs + n * bs) : ℕ) := by
  refine ⟨?_, ?_, floorTo_natCast (by omega), ceilTo_natCast hss (by omega)⟩
  · rw [← Int.natCast_mul, i64_natCast (by omega)]
  · rw [← Int.natCast_mul, ← Int.natCast_add, i64_natCast (by omega)]

lemma request_blocks {ss bs s n : ℕ} (hss : 0 < ss) (hpos : 0 < bs)
    (hreq : s * bs + n * bs + ss ≤ 2 ^ 63) : s + n < 2 ^ 63 := by
  have h1 := Nat.le_mul_of_pos_right s hpos
  have h2 := Nat.le_mul_of_pos_right n hpos
  omega

lemma blocks_of_range {bs b : ℕ} (hpos : 0 < bs) (ha : bs ∣ a) (hle : a ≤ b) :
    a / bs + (b - a) / bs = b / bs := by
  obtain ⟨x, rfl⟩ := ha
  rw [Nat.mul_div_cancel_left x hpos, ← Nat.mul_add_div hpos, Nat.add_sub_cancel' hle]

lemma request_start {ss bs s n : ℕ} (hreq : s * bs + n * bs + ss ≤ 2 ^ 63) : s * bs + ss ≤ 2 ^ 63 := by
  omega

/-- The device serves the widened range of a request: it is in the volume, it lies on the drive, and
it fits in an array. -/
structure Fitting (d : LargeSectorXtsDevice) (w : Machine) (s n : ℕ) : Prop where
  inRange : ((s + n : ℕ) : ℤ) ≤ d.blockCount w.blockSize
  start : 0 ≤ d.payloadStartBlock + ((d.payload w.blockSize).floor (s * w.blockSize) / w.blockSize : ℕ)
  array : (d.payload w.blockSize).ceil (s * w.blockSize + n * w.blockSize) -
    (d.payload w.blockSize).floor (s * w.blockSize) < 2 ^ 31
  inside : d.payloadStartBlock +
    ((d.payload w.blockSize).ceil (s * w.blockSize + n * w.blockSize) / w.blockSize : ℕ) ≤
    w.blockCount

section Requests

variable {s n : ℕ}

lemma widened_bounds (hd : d.Regular bs) (hn : n ≤ 2 ^ 31)
    (hreq : s * bs + n * bs + d.sectorSize ≤ 2 ^ 63) :
    d.sectorSize ∣ (d.payload bs).floor (s * bs) ∧ d.sectorSize ∣ (d.payload bs).ceil (s * bs + n * bs) ∧
      (d.payload bs).floor (s * bs) ≤ s * bs ∧ s * bs + n * bs ≤ (d.payload bs).ceil (s * bs + n * bs) ∧
      (d.payload bs).ceil (s * bs + n * bs) ≤ 2 ^ 63 ∧
      ((d.payload bs).ceil (s * bs + n * bs) - (d.payload bs).floor (s * bs)) / bs < 2 ^ 32 := by
  obtain ⟨hF, hF1, hF2⟩ := (d.payload bs).floor_bounds hd.sector_pos (s * bs)
  obtain ⟨hT, hT1, hT2⟩ := (d.payload bs).ceil_bounds hd.sector_pos (s * bs + n * bs)
  have hsmall := hd.sector_le
  have hbs := hd.block_le
  change _ < _ + d.sectorSize at hF2 hT2
  refine ⟨hF, hT, hF1, hT1, by omega, ?_⟩
  have : n * bs ≤ 2 ^ 31 * bs := Nat.mul_le_mul_right _ hn
  rw [Nat.div_lt_iff_lt_mul hd.block_pos]
  omega

variable {h h' : Host} {data : List UInt8}

/-- **A read of large sectors returns the plaintext.** -/
lemma largeSector_read_ok (hd : d.Regular h.drive.blockSize) (hn : n < 2 ^ 31)
    (hreq : s * h.drive.blockSize + n * h.drive.blockSize + d.sectorSize ≤ 2 ^ 63)
    (hr : d.readBlocks s n h = .ok data h') : h'.drive = h.drive ∧
      data = ((d.payload h.drive.blockSize).plainAt h.drive).slice (s * h.drive.blockSize)
        (n * h.drive.blockSize) := by
  obtain ⟨hF, hT, hF1, hT1, hlong, hcount⟩ := widened_bounds hd hn.le hreq
  obtain ⟨hfrom, hto, hfloor, hceil⟩ := request_bytes hd.sector_pos hreq
  simp only [LargeSectorXtsDevice.readBlocks, bind_ok_iff, get_ok_iff] at hr
  obtain ⟨_, _, ⟨rfl, rfl⟩, _, _, hrange, plain, h1, hwhole, hcut⟩ := hr
  rw [lift_ok_iff] at hrange
  obtain ⟨-, rfl⟩ := hrange
  rw [hfrom, hto, hfloor, hceil] at hwhole hcut
  have hle := hF1.trans ((Nat.le_add_right ..).trans hT1)
  obtain ⟨-, hfit, -, rfl, rfl⟩ := (readWhole_ok_iff hd rfl hF hT hle hlong hcount).1 hwhole
  obtain ⟨rfl, rfl⟩ := (cut_ok_iff hF1 hT1 hfit).1 hcut
  exact ⟨rfl, rfl⟩

lemma largeSector_read_run (hd : d.Regular h.drive.blockSize) (hn : n < 2 ^ 31)
    (hreq : s * h.drive.blockSize + n * h.drive.blockSize + d.sectorSize ≤ 2 ^ 63)
    (hfit : Fitting d h.drive s n) : ∃ data h', d.readBlocks s n h = .ok data h' := by
  obtain ⟨hF, hT, hF1, hT1, hlong, hcount⟩ := widened_bounds hd hn.le hreq
  obtain ⟨hfrom, hto, hfloor, hceil⟩ := request_bytes hd.sector_pos hreq
  have hle := hF1.trans ((Nat.le_add_right ..).trans hT1)
  obtain ⟨h1, hwhole⟩ : ∃ h1, d.readWhole h.drive.blockSize _ _ h = .ok _ h1 :=
    ⟨_, (readWhole_ok_iff hd rfl hF hT hle hlong hcount).2 ⟨hfit.start, hfit.array, hfit.inside,
      rfl, rfl⟩⟩
  refine ⟨((d.payload h.drive.blockSize).plainAt h.drive).slice (s * h.drive.blockSize)
    (n * h.drive.blockSize), h1, ?_⟩
  simp only [LargeSectorXtsDevice.readBlocks, bind_ok_iff, get_ok_iff]
  refine ⟨_, _, ⟨rfl, rfl⟩, ⟨⟩, _, lift_ok_iff.2 ⟨(requireInRange_ok_iff
    (request_blocks hd.sector_pos hd.block_pos hreq)).2 hfit.inRange, rfl⟩, ?_⟩
  rw [hfrom, hto, hfloor, hceil]
  exact ⟨_, _, hwhole, (cut_ok_iff hF1 hT1 hfit.array).2 ⟨rfl, rfl⟩⟩

/-- The sectors that a write encrypts: the data, or the sectors around it with the data in its
place. -/
def LargeSectorXtsDevice.gathered (d : LargeSectorXtsDevice) (bs : ℕ) (aFrom aTo fromByte toByte : ℤ)
    (data : List UInt8) : D (List UInt8) :=
  if aFrom = fromByte ∧ aTo = toByte then pure data
  else do
    let whole ← d.readWhole bs aFrom aTo
    arraycopy data whole (i32 (fromByte - aFrom))

lemma writeBlocks_eq (start : ℤ) (data : List UInt8) : d.writeBlocks start data = (do
    let bs := (← get).drive.blockSize
    requireInRange (d.blockCount bs) start (data.length / bs : ℕ) "write"
    let fromByte := i64 (start * bs)
    let toByte := i64 (fromByte + data.length)
    let aFrom := floorTo d.sectorSize fromByte
    let buf ← d.gathered bs aFrom (ceilTo d.sectorSize toByte) fromByte toByte data
    let buf ← orThrow (d.cipher.cryptSectors true (d.ivTweak + aFrom.tdiv d.sectorSize) buf)
      ⟨.io, s!"LUKS2 encryption failed at byte {aFrom} (rc=-1)"⟩
    writeDrive (i64 (d.payloadStartBlock + aFrom.tdiv bs)) buf) := by
  unfold LargeSectorXtsDevice.writeBlocks LargeSectorXtsDevice.gathered
  refine bind_congr fun h => bind_congr fun _ => ?_
  dsimp only
  split
  · rfl
  · rw [bind_assoc]

lemma gathered_ok {bs : ℕ} (hd : d.Regular bs) (hsize : h.drive.blockSize = bs) {aF aT x : ℕ}
    (hF : d.sectorSize ∣ aF) (hT : d.sectorSize ∣ aT) {buf : List UInt8} (hF1 : aF ≤ x)
    (hT1 : x + data.length ≤ aT) (hlong : aT ≤ 2 ^ 63) (hcount : (aT - aF) / bs < 2 ^ 32)
    (hr : d.gathered bs aF aT x (x + data.length : ℕ) data h = .ok buf h') :
    h'.drive = h.drive ∧
    buf = Bytes.slice (overwrite ((d.payload bs).plainAt h.drive) x data) aF (aT - aF) := by
  unfold LargeSectorXtsDevice.gathered at hr
  split at hr
  · rename_i heq
    obtain ⟨rfl, rfl⟩ := pure_ok_iff.1 hr
    have h1 : aF = x := Int.ofNat_inj.1 heq.1
    have h2 : aT = x + buf.length := Int.ofNat_inj.1 heq.2
    rw [h1, h2, Nat.add_sub_cancel_left, slice_overwrite_self]
    exact ⟨rfl, rfl⟩
  · obtain ⟨whole, h1, hwhole, hcopy⟩ := bind_ok_iff.1 hr
    have hle := hF1.trans ((Nat.le_add_right ..).trans hT1)
    obtain ⟨-, hfit, -, rfl, rfl⟩ := (readWhole_ok_iff hd hsize hF hT hle hlong hcount).1 hwhole
    rw [arraycopy_slice hF1 hT1 hfit] at hcopy
    obtain ⟨hbuf, rfl⟩ := lift_ok_iff.1 hcopy
    cases hbuf
    exact ⟨rfl, rfl⟩

lemma gathered_run {bs : ℕ} (hd : d.Regular bs) (hsize : h.drive.blockSize = bs) {aF aT x : ℕ}
    (hF : d.sectorSize ∣ aF) (hT : d.sectorSize ∣ aT) (hF1 : aF ≤ x)
    (hT1 : x + data.length ≤ aT) (hlong : aT ≤ 2 ^ 63) (hcount : (aT - aF) / bs < 2 ^ 32)
    (hstart : 0 ≤ d.payloadStartBlock + (aF / bs : ℕ)) (hfit : aT - aF < 2 ^ 31)
    (hinside : d.payloadStartBlock + (aT / bs : ℕ) ≤ h.drive.blockCount) :
    ∃ buf h', d.gathered bs aF aT x (x + data.length : ℕ) data h = .ok buf h' := by
  unfold LargeSectorXtsDevice.gathered
  split
  · exact ⟨_, _, rfl⟩
  · have hle := hF1.trans ((Nat.le_add_right ..).trans hT1)
    have hwhole := (readWhole_ok_iff hd hsize hF hT hle hlong hcount).2 ⟨hstart, hfit, hinside, rfl, rfl⟩
    have hcopy := arraycopy_slice (P := (d.payload bs).plainAt h.drive) hF1 hT1 hfit
    exact ⟨_, _, bind_ok_iff.2 ⟨_, _, hwhole, lift_ok_iff.2 ⟨hcopy, rfl⟩⟩⟩

/-- **A write of large sectors encrypts each under its tweak**, and leaves the rest of the drive
alone. -/
lemma largeSector_write_ok (hd : d.Regular h.drive.blockSize) {u : PUnit}
    (hn : n < 2 ^ 31) (hdata : data.length = n * h.drive.blockSize)
    (hreq : s * h.drive.blockSize + n * h.drive.blockSize + d.sectorSize ≤ 2 ^ 63)
    (hr : d.writeBlocks s data h = .ok u h') :
    (d.payload h.drive.blockSize).Rewrites h.drive h'.drive (s * h.drive.blockSize) data := by
  obtain ⟨hF, hT, hF1, hT1, hlong, hcount⟩ := widened_bounds hd hn.le hreq
  obtain ⟨hfrom, hto, hfloor, hceil⟩ := request_bytes hd.sector_pos hreq
  rw [← Int.natCast_mul, ← hdata] at hto
  rw [← hdata] at hceil hT hT1 hlong hcount
  simp only [writeBlocks_eq, bind_ok_iff, get_ok_iff] at hr
  obtain ⟨_, _, ⟨rfl, rfl⟩, _, _, hrange, buf, h1, hbuf, out, h2, hout, hwrite⟩ := hr
  rw [lift_ok_iff] at hrange hout
  obtain ⟨-, rfl⟩ := hrange
  obtain ⟨hout, rfl⟩ := hout
  rw [hfrom, hto, hfloor, hceil] at hbuf
  rw [hfrom, hfloor] at hout hwrite
  obtain ⟨hdrive, rfl⟩ := gathered_ok hd rfl hF hT hF1 hT1 hlong hcount hbuf
  have hblock := hd.block_dvd.trans hF
  rw [hd.block_of hblock (hF1.trans ((Nat.le_add_right ..).trans (hT1.trans hlong)))] at hwrite
  obtain ⟨-, h3, -, rfl⟩ := writeDrive_ok_iff.1 hwrite
  have hout := orThrow_ok hout
  rw [← Int.ofNat_tdiv] at hout
  exact ⟨_, out, hd.byte_of hblock h3, hout, by rw [hdrive]⟩

lemma largeSector_write_run (hd : d.Regular h.drive.blockSize) (hn : n < 2 ^ 31)
    (hdata : data.length = n * h.drive.blockSize)
    (hreq : s * h.drive.blockSize + n * h.drive.blockSize + d.sectorSize ≤ 2 ^ 63)
    (hfit : Fitting d h.drive s n) : ∃ u h', d.writeBlocks s data h = .ok u h' := by
  obtain ⟨hF, hT, hF1, hT1, hlong, hcount⟩ := widened_bounds hd hn.le hreq
  obtain ⟨hfrom, hto, hfloor, hceil⟩ := request_bytes hd.sector_pos hreq
  obtain ⟨hrange, hstart, harray, hinside⟩ := hfit
  have hle := hF1.trans ((Nat.le_add_right ..).trans hT1)
  rw [← Int.natCast_mul, ← hdata] at hto
  rw [← hdata] at hceil hT hT1 hlong hcount harray hinside hle
  have hblock := hd.block_dvd.trans hF
  -- the sectors are encrypted, since there are whole ones, and fit on the drive
  obtain ⟨buf, h1, hbuf⟩ := gathered_run hd rfl hF hT hF1 hT1 hlong hcount hstart harray hinside
  obtain ⟨hdrive, hplain⟩ := gathered_ok hd rfl hF hT hF1 hT1 hlong hcount hbuf
  have hlen : buf.length = _ := (congrArg List.length hplain).trans Bytes.length_slice
  have hsectors := Nat.dvd_sub hT hF
  obtain ⟨out, hout⟩ : ∃ out, d.cipher.cryptSectors true (d.ivTweak +
      ((d.payload h.drive.blockSize).floor (s * h.drive.blockSize) : ℤ).tdiv d.sectorSize) buf =
          some out :=
    SectorCipher.cryptSectors_some (hlen ▸ hsectors)
  have hlen := (SectorCipher.cryptSectors_length hout).trans hlen
  have hsum := blocks_of_range hd.block_pos hblock hle
  obtain ⟨h2, hwrite⟩ : ∃ h2, writeDrive (d.payloadStartBlock + ((d.payload h.drive.blockSize).floor
      (s * h.drive.blockSize) / h.drive.blockSize : ℕ)) out h1 = .ok ⟨⟩ h2 := by
    refine ⟨_, writeDrive_ok_iff.2 ⟨?_, hstart, ?_, rfl⟩⟩
    · rw [hdrive, hlen]
      exact Nat.mod_eq_zero_of_dvd (hd.block_dvd.trans hsectors)
    · rw [hdrive, hlen]
      omega
  refine ⟨⟨⟩, h2, ?_⟩
  simp only [writeBlocks_eq, bind_ok_iff, get_ok_iff]
  refine ⟨_, _, ⟨rfl, rfl⟩, ⟨⟩, _, lift_ok_iff.2 ⟨?_, rfl⟩, ?_⟩
  · rw [hdata, Nat.mul_div_cancel _ hd.block_pos]
    exact (requireInRange_ok_iff (request_blocks hd.sector_pos hd.block_pos hreq)).2 hrange
  · rw [hfrom, hto, hfloor, hceil, hd.block_of hblock (hle.trans hlong)]
    exact ⟨buf, h1, hbuf, out, h1, lift_ok_iff.2 ⟨by rw [hout]; rfl, rfl⟩, hwrite⟩

lemma whole_blocks (hd : d.Regular bs) (hn : 0 < n) (hin : ((s + n : ℕ) : ℤ) ≤ d.blockCount bs) :
    ∃ q : ℕ, s * bs + n * bs ≤ q * d.sectorSize ∧
    ((q * (d.sectorSize / bs) : ℕ) : ℤ) ≤ d.payloadBlocks := by
  obtain ⟨k, hk⟩ := hd.block_dvd
  have hge := hd.blocks_ge
  have hlt := hd.blocks_lt
  obtain ⟨hpos, hneg⟩ := tdiv_mul_bounds d.payloadBlocks k
  unfold LargeSectorXtsDevice.blockCount at hin
  rw [hk, Nat.mul_div_cancel_left k hd.block_pos] at hin ⊢
  rcases Int.le_total 0 d.payloadBlocks with h0 | h0
  · obtain ⟨q, hq⟩ := Int.eq_ofNat_of_zero_le (Int.tdiv_nonneg h0 (Int.natCast_nonneg k))
    obtain ⟨h1, h2⟩ := hpos h0
    rw [hq] at hin h1 h2
    rw [i64_of_range (by omega) (by omega), ← Int.natCast_mul, Int.ofNat_le] at hin
    rw [← Int.natCast_mul] at h2
    refine ⟨q, ?_, h2⟩
    rw [← Nat.add_mul, Nat.mul_left_comm, Nat.mul_comm bs]
    exact Nat.mul_le_mul_right _ hin
  · obtain ⟨h1, h2⟩ := hneg h0
    rw [i64_of_range (by omega) (by omega)] at hin
    omega

lemma LargeSectorXtsDevice.Regular.start_nonneg (hd : d.Regular bs) (h0 : 0 ≤ (d.payload bs).start) :
    0 ≤ d.payloadStartBlock :=
  Int.nonneg_of_mul_nonneg_left h0 (Int.natCast_pos.2 hd.block_pos)

lemma LargeSectorXtsDevice.Regular.count_lt (hd : d.Regular bs)
    (h : n * bs + 2 * d.sectorSize ≤ 2 ^ 31) : n < 2 ^ 31 := by
  have h1 := Nat.le_mul_of_pos_right n hd.block_pos
  have h2 := hd.sector_pos
  omega

lemma fitting_of_inside {w : Machine} (hd : d.Regular w.blockSize)
    (hend : d.payloadStartBlock + d.payloadBlocks ≤ w.blockCount) (h0 : 0 ≤ d.payloadStartBlock)
    (hn : 0 < n) (harray : n * w.blockSize + 2 * d.sectorSize ≤ 2 ^ 31)
    (hin : ((s + n : ℕ) : ℤ) ≤ d.blockCount w.blockSize) :
    Fitting d w s n ∧ s * w.blockSize + n * w.blockSize + d.sectorSize ≤ 2 ^ 63 := by
  obtain ⟨q, hq, hblocks⟩ := whole_blocks hd hn hin
  obtain ⟨hF, hF1, hF2⟩ := (d.payload w.blockSize).floor_bounds hd.sector_pos (s * w.blockSize)
  obtain ⟨hT, hT1, hT2⟩ :=
    (d.payload w.blockSize).ceil_bounds hd.sector_pos (s * w.blockSize + n * w.blockSize)
  change _ < _ + d.sectorSize at hF2 hT2
  have hceil : (d.payload w.blockSize).ceil (s * w.blockSize + n * w.blockSize) ≤ q * d.sectorSize := by
    obtain ⟨t, ht⟩ := hT
    change _ = d.sectorSize * t at ht
    rw [ht, Nat.mul_comm] at hT2 ⊢
    refine Nat.mul_le_mul_right _ (Nat.le_of_lt_succ (Nat.lt_of_mul_lt_mul_right (a := d.sectorSize) ?_))
    rw [Nat.succ_mul]
    omega
  have hwhole : q * d.sectorSize = q * (d.sectorSize / w.blockSize) * w.blockSize := by
    rw [Nat.mul_assoc, Nat.div_mul_cancel hd.block_dvd]
  have hdrive : q * d.sectorSize < 2 ^ 63 := by
    rw [hwhole]
    exact Nat.lt_of_le_of_lt (Nat.mul_le_mul_right _ (by omega)) w.offsets
  refine ⟨⟨hin, Int.add_nonneg h0 (Int.natCast_nonneg _), by omega, ?_⟩, ?_⟩
  · have : (d.payload w.blockSize).ceil (s * w.blockSize + n * w.blockSize) / w.blockSize ≤
        q * (d.sectorSize / w.blockSize) := by
      refine Nat.div_le_of_le_mul ?_
      rwa [Nat.mul_comm w.blockSize (q * _), ← hwhole]
    omega
  · obtain ⟨t, ht⟩ := hd.sector_dvd
    rw [ht, Nat.mul_comm d.sectorSize] at hdrive ⊢
    have : (q + 1) * d.sectorSize ≤ t * d.sectorSize :=
      Nat.mul_le_mul_right _ (Nat.lt_of_mul_lt_mul_right (a := d.sectorSize) hdrive)
    rw [Nat.succ_mul] at this
    omega

end Requests

/-- **The device for large sectors serves its payload.** -/
theorem largeSector_served {n : ℕ} (hd : d.Regular bs)
    (hend : d.payloadStartBlock + d.payloadBlocks ≤ n) :
    (d.payload bs).ServedBy (.largeSector d) bs n where
  reads := by
    rintro w start count data h rfl hcount hreq hr
    rw [Nat.add_mul] at hreq
    exact largeSector_read_ok (h := ⟨w, []⟩) hd hcount hreq hr
  writes := by
    rintro w start count data u h rfl hdata hlen hreq hr
    have hcount : count < 2 ^ 31 := by
      have := Nat.le_mul_of_pos_right count hd.block_pos
      omega
    rw [Nat.add_mul] at hreq
    exact (largeSector_write_ok (h := ⟨w, []⟩) hd hcount hdata hreq hr).result hd.sector_pos
  readable := by
    rintro w start count rfl rfl h0 hpos harray hin
    obtain ⟨hfit, hreq⟩ := fitting_of_inside hd hend (hd.start_nonneg h0) hpos harray hin
    exact largeSector_read_run (h := ⟨w, []⟩) hd (hd.count_lt harray) hreq hfit
  writable := by
    rintro w start count data rfl rfl h0 hpos hdata harray hin
    obtain ⟨hfit, hreq⟩ := fitting_of_inside hd hend (hd.start_nonneg h0) hpos harray hin
    exact largeSector_write_run (h := ⟨w, []⟩) hd (hd.count_lt harray) hdata hreq hfit

end LargeSector

/-! ### Sectors of 512 bytes -/

section NativeSectors

variable {library : Native} {key : Key} {bs : ℕ}

/-- AES-XTS with the key of a volume, in its two halves. The tweak is counted modulo `2 ^ 64`. -/
def aesXts (library : Native) (key : Key) (n : ℕ) : SectorCipher n where
  crypt encrypt tweak l :=
    if l.length % 16 = 0 then
      library.xts .aes (if encrypt then .encrypt else .decrypt) (key.take 32)
        ((key.drop 32).take 32) (u64 tweak) l
    else l
  length encrypt tweak l := by
    split
    · exact library.xts_length ..
    · rfl
  undo tweak l hl := by
    by_cases h16 : l.length % 16 = 0
    · simp only [if_pos h16, library.xts_length, Bool.false_eq_true, if_true, if_false]
      exact library.xts_undo _ _ _ _ _ h16
    · simp only [if_neg h16]

lemma cryptSectorsInPlace_eq (hkey : 64 ≤ key.length) (encrypt : Bool) (tweak : ℤ) {data : List UInt8}
    (hne : data ≠ []) (hsize : 512 ∣ data.length) :
    library.cryptSectorsInPlace aesOnly (if encrypt then .encrypt else .decrypt) key
      (u64 tweak) data data.length =
      (aesXts library key 512).cryptSectors encrypt tweak data := by
  have hcascade : vcCascadeNew aesOnly key = some [⟨.aes, key.take 32, (key.drop 32).take 32⟩] := by
    unfold vcCascadeNew
    rw [if_neg (by simp [aesOnly, maxCascade]; omega)]
    rfl
  have hpos := List.length_pos_iff.2 hne
  unfold Native.cryptSectorsInPlace SectorCipher.cryptSectors
  rw [if_neg (by decide), if_neg (by omega), if_neg (by omega), hcascade, Option.map_some,
    if_neg (not_not.2 (Nat.mod_eq_zero_of_dvd hsize))]
  refine congrArg some ?_
  rw [show ((data.length : ℤ) / 512).toNat = data.length / 512 by omega]
  refine mapUnits_congr (a := u64 tweak) (b := 0) (fun i l hl => ?_) _ 0 data (Nat.div_mul_le_self ..)
  have htweak : (u64 tweak + i) % 2 ^ 64 = u64 (tweak + (0 + i : ℕ)) := by
    unfold u64
    omega
  have h16 : l.length % 16 = 0 := by rw [hl]
  rw [htweak]
  dsimp only [aesXts]
  rw [if_pos h16]
  cases encrypt <;> rfl

lemma cryptSectorsInPlace_ne_nil {ids : List ℕ} {dir : Direction} {start : ℕ} {data out : List UInt8}
    (h : library.cryptSectorsInPlace ids dir key start data data.length = some out) : data ≠ [] := by
  rintro rfl
  unfold Native.cryptSectorsInPlace at h
  split at h
  · cases h
  · rw [if_pos (Or.inl (by simp))] at h
    cases h

def NativeDecryptedBlockDevice.payload (d : NativeDecryptedBlockDevice) (library : Native)
    (bs : ℕ) : Payload :=
  ⟨512, d.volumeDataOffset * bs, d.tweakDataOffset * (bs / 512 : ℕ), aesXts library d.masterKey 512⟩

/-- The device has one cipher and a key for it, and starts where a `Long` can count from. -/
structure NativeDecryptedBlockDevice.Regular (d : NativeDecryptedBlockDevice) (bs : ℕ) : Prop where
  block_pos : 0 < bs
  block_dvd : 512 ∣ bs
  ids : d.cipherNativeIds = aesOnly
  key : 64 ≤ d.masterKey.length
  start_ge : -2 ^ 55 ≤ d.volumeDataOffset
  start_le : d.volumeDataOffset ≤ 2 ^ 55

variable {d : NativeDecryptedBlockDevice} {h h' : Host} {s n : ℕ} {data : List UInt8}

lemma NativeDecryptedBlockDevice.Regular.crypt_eq (hd : d.Regular bs) (library : Native)
    (encrypt : Bool) (hne : data ≠ []) (hsize : bs ∣ data.length) :
    library.cryptSectorsInPlace d.cipherNativeIds (if encrypt then .encrypt else .decrypt) d.masterKey
        (d.firstTweak bs s) data data.length =
      (d.payload library bs).cipher.cryptSectors encrypt
        ((d.payload library bs).tweak + (s * bs / 512 : ℕ)) data := by
  obtain ⟨k, rfl⟩ := hd.block_dvd
  unfold NativeDecryptedBlockDevice.firstTweak
  rw [hd.ids, cryptSectorsInPlace_eq hd.key encrypt _ hne ((Dvd.intro k rfl).trans hsize),
    Nat.mul_left_comm s, Nat.mul_div_cancel_left k (by decide),
    Nat.mul_div_cancel_left (s * k) (by decide), ← Int.natCast_mul]
  unfold NativeDecryptedBlockDevice.payload
  rw [Nat.mul_div_cancel_left k (by decide)]

lemma NativeDecryptedBlockDevice.Regular.whole (hd : d.Regular bs) (m : ℕ) :
    (d.payload library bs).floor (m * bs) = m * bs ∧ (d.payload library bs).ceil (m * bs) = m * bs := by
  obtain ⟨k, rfl⟩ := hd.block_dvd
  have hfloor : m * (512 * k) / 512 * 512 = m * (512 * k) := by
    rw [Nat.mul_left_comm, Nat.mul_div_cancel_left _ (by decide), Nat.mul_comm]
  have hceil : (m * (512 * k) + (512 - 1)) / 512 * 512 = m * (512 * k) := by
    rw [Nat.mul_left_comm, Nat.mul_add_div (by decide), Nat.mul_comm]
    rfl
  exact ⟨hfloor, hceil⟩

lemma NativeDecryptedBlockDevice.Regular.block_of (hd : d.Regular bs) (hs : s * bs + 512 ≤ 2 ^ 63) :
    i64 (s + d.volumeDataOffset) = d.volumeDataOffset + s := by
  have h1 := hd.start_ge
  have h2 := hd.start_le
  have hs : 512 * s ≤ 2 ^ 63 := by
    have := Nat.mul_le_mul_left s (Nat.le_of_dvd hd.block_pos hd.block_dvd)
    omega
  rw [Int.add_comm]
  exact i64_of_range (by omega) (by omega)

lemma NativeDecryptedBlockDevice.Regular.byte_of (library : Native) (bs : ℕ)
    (h0 : 0 ≤ d.volumeDataOffset + s) :
    (((d.volumeDataOffset + s).toNat * bs : ℕ) : ℤ) = (d.payload library bs).start + (s * bs : ℕ) := by
  rw [Int.natCast_mul, Int.toNat_of_nonneg h0, Int.add_mul, ← Int.natCast_mul]
  rfl

variable {w : Machine}

lemma NativeDecryptedBlockDevice.Regular.decrypt_eq (hd : d.Regular w.blockSize) (hn : 0 < n)
    (h0 : 0 ≤ d.volumeDataOffset + s) {encrypted : List UInt8}
    (henc : encrypted = w.bytes.slice ((d.volumeDataOffset + s).toNat * w.blockSize) (n * w.blockSize)) :
    library.cryptSectorsInPlace d.cipherNativeIds .decrypt d.masterKey (d.firstTweak w.blockSize s)
      encrypted
        encrypted.length =
      some (((d.payload library w.blockSize).plainAt w).slice (s * w.blockSize) (n * w.blockSize)) := by
  have hlen : encrypted.length = n * w.blockSize := henc ▸ Bytes.length_slice
  have hne : encrypted ≠ [] := List.length_pos_iff.1 (hlen ▸ Nat.mul_pos hn hd.block_pos)
  have hplace := byte_of library w.blockSize h0
  have hdvd : ∀ m, 512 ∣ m * w.blockSize := fun m => Dvd.dvd.mul_left hd.block_dvd m
  refine (hd.crypt_eq library false hne (hlen ▸ Nat.dvd_mul_left ..)).trans ?_
  rw [henc, show (d.volumeDataOffset + s).toNat * w.blockSize =
    ((d.payload library w.blockSize).start + (s * w.blockSize : ℕ)).toNat by omega]
  exact Payload.decrypt_slice (y := d.payload library w.blockSize) (show 0 < 512 by decide) (hdvd s)
    (hdvd n) (by omega)

/-- **A read of small sectors returns the plaintext**, and it returns where the drive has the
sectors. -/
lemma native_read_ok_iff (hd : d.Regular h.drive.blockSize) (hreq : s * h.drive.blockSize + 512 ≤ 2 ^ 63)
    (hlong : s + n < 2 ^ 63) :
    d.readBlocks library s n h = .ok data h' ↔
      ((s + n : ℕ) : ℤ) ≤ d.decryptedBlockCount ∧ 0 ≤ d.volumeDataOffset + s ∧ 0 < n ∧
        n * h.drive.blockSize < 2 ^ 31 ∧ d.volumeDataOffset + s + n ≤ h.drive.blockCount ∧
        data = ((d.payload library h.drive.blockSize).plainAt h.drive).slice (s * h.drive.blockSize)
          (n * h.drive.blockSize) ∧
        h' = h.logged ⟨false, d.volumeDataOffset + s, n⟩ := by
  simp only [NativeDecryptedBlockDevice.readBlocks, bind_ok_iff, get_ok_iff, readDrive_ok_iff,
    lift_ok_iff]
  constructor
  · rintro ⟨_, _, ⟨rfl, rfl⟩, _, _, ⟨hrange, rfl⟩, encrypted, _, ⟨h1, h2, h3, h4, henc, rfl⟩, hout, rfl⟩
    rw [hd.block_of hreq] at h1 h4 henc ⊢
    rw [← Int.natCast_mul] at h3
    have hout := orThrow_ok hout
    have hn : 0 < n := by
      refine Nat.pos_of_ne_zero fun hzero =>
        cryptSectorsInPlace_ne_nil hout (List.length_eq_zero_iff.1 ?_)
      rw [henc, Bytes.length_slice, hzero]
      exact Nat.zero_mul _
    rw [hd.decrypt_eq hn h1 henc] at hout
    exact ⟨(requireInRange_ok_iff hlong).1 hrange, h1, hn,
      by omega, h4, (Option.some.inj hout).symm, rfl⟩
  · rintro ⟨h1, h2, h3, h4, h5, rfl, rfl⟩
    refine ⟨_, _, ⟨rfl, rfl⟩, ⟨⟩, _, ⟨(requireInRange_ok_iff hlong).2 h1, rfl⟩, ?_⟩
    rw [hd.block_of hreq]
    refine ⟨_, _, ⟨h2, by omega, ?_, h5, rfl, rfl⟩, ?_, rfl⟩
    · rw [← Int.natCast_mul]
      omega
    · rw [Int.toNat_natCast, hd.decrypt_eq h3 h2 rfl]
      rfl

/-- **A write of small sectors encrypts each under its tweak.** -/
lemma native_write_ok {u : PUnit} (hd : d.Regular h.drive.blockSize)
    (hdata : data.length = n * h.drive.blockSize) (hreq : s * h.drive.blockSize + 512 ≤ 2 ^ 63)
    (hr : d.writeBlocks library s data h = .ok u h') :
    (d.payload library h.drive.blockSize).Rewrites h.drive h'.drive (s * h.drive.blockSize) data := by
  simp only [NativeDecryptedBlockDevice.writeBlocks, bind_ok_iff, get_ok_iff, lift_ok_iff] at hr
  obtain ⟨_, _, ⟨rfl, rfl⟩, _, _, ⟨-, rfl⟩, encrypted, _, ⟨hout, rfl⟩, hwrite⟩ := hr
  rw [hd.block_of hreq] at hwrite
  obtain ⟨-, h0, -, rfl⟩ := writeDrive_ok_iff.1 hwrite
  have hout := orThrow_ok hout
  have henc :=
    (hd.crypt_eq library true (cryptSectorsInPlace_ne_nil hout)
      (hdata ▸ Nat.dvd_mul_left ..)).symm.trans hout
  refine ⟨_, encrypted, ?_, ?_, rfl⟩
  · rw [(hd.whole s).1]
    exact NativeDecryptedBlockDevice.Regular.byte_of library _ h0
  · rw [hdata, ← Nat.add_mul, (hd.whole s).1, (hd.whole (s + n)).2, Nat.add_mul,
      Nat.add_sub_cancel_left, ← hdata, slice_overwrite_self]
    exact henc

lemma native_write_range {u : PUnit} (hd : d.Regular h.drive.blockSize)
    (hdata : data.length = n * h.drive.blockSize) (hreq : s * h.drive.blockSize + 512 ≤ 2 ^ 63)
    (hlong : s + n < 2 ^ 63) (hr : d.writeBlocks library s data h = .ok u h') :
    ((s + n : ℕ) : ℤ) ≤ d.decryptedBlockCount ∧ 0 ≤ d.volumeDataOffset + s ∧ 0 < n := by
  simp only [NativeDecryptedBlockDevice.writeBlocks, bind_ok_iff, get_ok_iff, lift_ok_iff] at hr
  obtain ⟨_, _, ⟨rfl, rfl⟩, _, _, ⟨hrange, rfl⟩, encrypted, _, ⟨hout, rfl⟩, hwrite⟩ := hr
  rw [hd.block_of hreq] at hwrite
  rw [hdata, Nat.mul_div_cancel _ hd.block_pos] at hrange
  have hlen := List.length_pos_iff.2 (cryptSectorsInPlace_ne_nil (orThrow_ok hout))
  exact ⟨(requireInRange_ok_iff hlong).1 hrange, (writeDrive_ok_iff.1 hwrite).2.1,
    Nat.pos_of_mul_pos_right (hdata ▸ hlen)⟩

lemma native_write_run (hd : d.Regular h.drive.blockSize) (hdata : data.length = n * h.drive.blockSize)
    (hreq : s * h.drive.blockSize + 512 ≤ 2 ^ 63) (hlong : s + n < 2 ^ 63) (hn : 0 < n)
    (hin : ((s + n : ℕ) : ℤ) ≤ d.decryptedBlockCount) (h0 : 0 ≤ d.volumeDataOffset + s)
    (hend : d.volumeDataOffset + s + n ≤ h.drive.blockCount) :
    ∃ u h', d.writeBlocks library s data h = .ok u h' := by
  have hdvd : h.drive.blockSize ∣ data.length := hdata ▸ Nat.dvd_mul_left ..
  have hne : data ≠ [] := List.length_pos_iff.1 (hdata ▸ Nat.mul_pos hn hd.block_pos)
  have hblocks : data.length / h.drive.blockSize = n := by rw [hdata, Nat.mul_div_cancel _ hd.block_pos]
  obtain ⟨encrypted, henc⟩ : ∃ out, (d.payload library h.drive.blockSize).cipher.cryptSectors true
      ((d.payload library h.drive.blockSize).tweak + (s * h.drive.blockSize / 512 : ℕ)) data =
          some out :=
    SectorCipher.cryptSectors_some (hd.block_dvd.trans hdvd)
  have hlen := SectorCipher.cryptSectors_length henc
  have hout := (hd.crypt_eq library true hne hdvd).trans henc
  obtain ⟨h2, hwrite⟩ : ∃ h2, writeDrive (d.volumeDataOffset + s) encrypted h = .ok ⟨⟩ h2 := by
    refine ⟨_, writeDrive_ok_iff.2 ⟨?_, h0, ?_, rfl⟩⟩
    · rw [hlen]
      exact Nat.mod_eq_zero_of_dvd hdvd
    · rw [hlen, hblocks]
      omega
  refine ⟨⟨⟩, h2, ?_⟩
  simp only [NativeDecryptedBlockDevice.writeBlocks, bind_ok_iff, get_ok_iff, lift_ok_iff]
  refine ⟨_, _, ⟨rfl, rfl⟩, ⟨⟩, _, ⟨?_, rfl⟩, encrypted, _, ⟨?_, rfl⟩, ?_⟩
  · rw [hblocks]
    exact (requireInRange_ok_iff hlong).2 hin
  · exact congrArg (orThrow · _) hout
  · rw [hd.block_of hreq]
    exact hwrite

lemma NativeDecryptedBlockDevice.Regular.inside (hd : d.Regular w.blockSize)
    (hend : d.volumeDataOffset + d.decryptedBlockCount ≤ w.blockCount)
    (h0 : 0 ≤ (d.payload library w.blockSize).start) (hin : ((s + n : ℕ) : ℤ) ≤ d.decryptedBlockCount) :
    0 ≤ d.volumeDataOffset + s ∧ d.volumeDataOffset + s + n ≤ w.blockCount ∧
      (s + n) * w.blockSize + 512 ≤ 2 ^ 63 := by
  have hstart : 0 ≤ d.volumeDataOffset :=
    Int.nonneg_of_mul_nonneg_left h0 (Int.natCast_pos.2 hd.block_pos)
  have hdrive : (s + n) * w.blockSize < 2 ^ 63 :=
    Nat.lt_of_le_of_lt (Nat.mul_le_mul_right _ (by omega)) w.offsets
  refine ⟨by omega, by omega, ?_⟩
  obtain ⟨k, hk⟩ := Dvd.dvd.mul_left hd.block_dvd (s + n)
  omega

/-- Some block of the volume lies on the drive. -/
def NativeDecryptedBlockDevice.HasBlock (d : NativeDecryptedBlockDevice) (bs : ℕ) : Prop :=
  ∃ s : ℕ, 0 ≤ d.volumeDataOffset + s ∧ ((s + 1 : ℕ) : ℤ) ≤ d.decryptedBlockCount ∧
  (s + 1) * bs + 512 ≤ 2 ^ 63

lemma NativeDecryptedBlockDevice.HasBlock.of_request (h0 : 0 ≤ d.volumeDataOffset + s) (hn : 0 < n)
    (hin : ((s + n : ℕ) : ℤ) ≤ d.decryptedBlockCount) (hreq : (s + n) * bs + 512 ≤ 2 ^ 63) :
    d.HasBlock bs :=
  ⟨s, h0, by omega, (Nat.add_le_add_right (Nat.mul_le_mul_right _ (by omega)) _).trans hreq⟩

lemma NativeDecryptedBlockDevice.Regular.idle_served {n : ℕ} (hd : d.Regular bs)
    (hend : d.volumeDataOffset + d.decryptedBlockCount ≤ n) (hnone : ¬d.HasBlock bs) {y : Payload}
    (hsize : y.sectorSize = 512) (hstart : y.start = (d.payload library bs).start) :
    y.ServedBy (.native library d) bs n where
  reads := by
    rintro w start count data h rfl hcount hreq hr
    rw [hsize] at hreq
    have hbytes := hreq
    rw [Nat.add_mul] at hbytes
    obtain ⟨hin, h0, hpos, -⟩ := (native_read_ok_iff (h := ⟨w, []⟩) hd (request_start hbytes)
      (request_blocks (show 0 < 512 by decide) hd.block_pos hbytes)).1 hr
    exact absurd (.of_request h0 hpos hin hreq) hnone
  writes := by
    rintro w start count data u h rfl hdata hlen hreq hr
    rw [hsize] at hreq
    have hbytes := hreq
    rw [Nat.add_mul] at hbytes
    obtain ⟨hin, h0, hpos⟩ := native_write_range (h := ⟨w, []⟩) hd hdata (request_start hbytes)
      (request_blocks (show 0 < 512 by decide) hd.block_pos hbytes) hr
    exact absurd (.of_request h0 hpos hin hreq) hnone
  readable := by
    rintro w start count rfl rfl h0 hpos harray hin
    obtain ⟨hstart, -, hreq⟩ := hd.inside hend (hstart ▸ h0) hin
    exact absurd (.of_request hstart hpos hin hreq) hnone
  writable := by
    rintro w start count data rfl rfl h0 hpos hdata harray hin
    obtain ⟨hstart, -, hreq⟩ := hd.inside hend (hstart ▸ h0) hin
    exact absurd (.of_request hstart hpos hin hreq) hnone

/-- **The device for small sectors serves its payload**, the tweaks of which are those of the
device. -/
theorem native_served {n : ℕ} (hd : d.Regular bs)
    (hend : d.volumeDataOffset + d.decryptedBlockCount ≤ n) :
    (d.payload library bs).ServedBy (.native library d) bs n where
  reads := by
    rintro w start count data h rfl hcount hreq hr
    rw [Nat.add_mul] at hreq
    obtain ⟨-, -, -, -, -, hdata, rfl⟩ := (native_read_ok_iff (h := ⟨w, []⟩) hd (request_start hreq)
      (request_blocks (show 0 < 512 by decide) hd.block_pos hreq)).1 hr
    exact ⟨rfl, hdata⟩
  writes := by
    rintro w start count data u h rfl hdata hlen hreq hr
    rw [Nat.add_mul] at hreq
    exact (native_write_ok (h := ⟨w, []⟩) hd hdata (request_start hreq) hr).result
      (show 0 < 512 by decide)
  readable := by
    rintro w start count rfl rfl h0 hpos harray hin
    obtain ⟨hstart, hinside, hreq⟩ := hd.inside hend h0 hin
    rw [Nat.add_mul] at hreq
    have harray : count * w.blockSize + 2 * 512 ≤ 2 ^ 31 := harray
    exact ⟨_, _, (native_read_ok_iff (h := ⟨w, []⟩) hd (request_start hreq)
      (request_blocks (show 0 < 512 by decide) hd.block_pos hreq)).2
        ⟨hin, hstart, hpos, Nat.lt_of_lt_of_le (Nat.lt_add_of_pos_right (by decide)) harray,
          hinside, rfl, rfl⟩⟩
  writable := by
    rintro w start count data rfl rfl h0 hpos hdata harray hin
    obtain ⟨hstart, hinside, hreq⟩ := hd.inside hend h0 hin
    rw [Nat.add_mul] at hreq
    exact native_write_run (h := ⟨w, []⟩) hd hdata (request_start hreq)
      (request_blocks (show 0 < 512 by decide) hd.block_pos hreq) hpos hin hstart hinside

lemma u64_add_right {x y c : ℤ} (h : u64 (x + c) = u64 (y + c)) : u64 x = u64 y := by
  unfold u64 at *
  omega

/-- A library that flips the bytes under one tweak, and leaves those under the others alone. -/
def flipping (library : Native) (t : ℕ) : Native :=
  { library with
    xts := fun _ _ _ _ unit l => if unit = t then l.map (· ^^^ 255) else l
    xts_length := fun _ _ _ _ unit l => by split <;> simp
    xts_undo := fun _ _ _ unit l _ => by
      split
      · simp [Function.comp_def]
      · rfl }

lemma flipping_zeros (library : Native) (key : Key) (t : ℕ) (start tweak : ℤ)
    (hzero : w.bytes = fun _ => 0) (m : ℕ) :
    Payload.plainAt ⟨512, start, tweak, aesXts (flipping library t) key 512⟩ w (512 * m) =
      if u64 (tweak + m) = t then 255 else 0 := by
  have hsector : ∀ a, w.bytes.slice a 512 = List.replicate 512 0 := fun a => by
    simp [hzero, Bytes.slice]
  unfold Payload.plainAt Payload.plainSector Payload.sector
  simp only [hsector, Nat.mul_div_cancel_left m (show 0 < 512 by decide), Nat.mul_mod_right]
  unfold aesXts flipping
  dsimp only
  rw [if_pos (by rw [List.length_replicate])]
  split <;> simp only [List.map_replicate, List.getD_eq_getElem?_getD, List.getElem?_replicate]
  all_goals rfl

/-- **The tweaks of what is read are those of the device**: a payload at the place of the volume
that it serves, whatever the library does, has the tweaks of the device. -/
lemma tweak_of_served (hd : d.Regular w.blockSize) (hint : w.blockSize < 2 ^ 31)
    (hend : d.volumeDataOffset + d.decryptedBlockCount ≤ w.blockCount)
    (hsome : d.HasBlock w.blockSize) {tweak : ℤ}
    (hserved : ∀ library, Payload.ServedBy ⟨512, d.volumeDataOffset * w.blockSize, tweak,
      aesXts library d.masterKey 512⟩ (.native library d) w.blockSize w.blockCount) (library : Native) :
    u64 tweak = u64 (d.tweakDataOffset * (w.blockSize / 512 : ℕ)) := by
  obtain ⟨s, h0, hin, hreq⟩ := hsome
  obtain ⟨k, hk⟩ := hd.block_dvd
  -- a block of zeros, read with a library that flips its first sector
  obtain ⟨z, hsize, hcount, hzero⟩ : ∃ z : Machine, z.blockSize = w.blockSize ∧
    z.blockCount = w.blockCount ∧
      z.bytes = fun _ => 0 := ⟨{ w with bytes := fun _ => 0 }, rfl, rfl, rfl⟩
  rw [← hsize] at hd hint hreq hserved hk ⊢
  rw [← hcount] at hend hserved
  have hbytes : s * z.blockSize + 1 * z.blockSize + 512 ≤ 2 ^ 63 := by rwa [← Nat.add_mul]
  have hinside : d.volumeDataOffset + s + (1 : ℕ) ≤ z.blockCount := by omega
  have hread :
    d.readBlocks
      (flipping library (u64 (d.tweakDataOffset * (z.blockSize / 512 : ℕ) + (s * k : ℕ)))) s
      (1 : ℕ) ⟨z, []⟩ = .ok _ _ :=
    (native_read_ok_iff (h := ⟨z, []⟩) hd (request_start hbytes)
      (request_blocks (show 0 < 512 by decide) hd.block_pos hbytes)).2
        ⟨hin, h0, Nat.one_pos, by rwa [Nat.one_mul], hinside, rfl, rfl⟩
  have hbyte := congrArg (List.getD · 0 0) ((hserved _).reads z s 1 _ _ rfl (by decide) hreq hread).2
  have hpos : 0 < 1 * z.blockSize := by rw [Nat.one_mul]; exact hd.block_pos
  have hplace : s * z.blockSize = 512 * (s * k) := by rw [hk, Nat.mul_left_comm]
  dsimp only [NativeDecryptedBlockDevice.payload] at hbyte
  rw [Bytes.slice_getD hpos, Bytes.slice_getD hpos, Nat.add_zero, hplace,
    flipping_zeros _ _ _ _ _ hzero, if_pos rfl, flipping_zeros _ _ _ _ _ hzero] at hbyte
  have heq : u64 (tweak + (s * k : ℕ)) =
      u64 (d.tweakDataOffset * (z.blockSize / 512 : ℕ) + (s * k : ℕ)) := by
    by_contra hne
    rw [if_neg hne] at hbyte
    exact absurd hbyte (by decide)
  exact u64_add_right heq

end NativeSectors

end OtgMaster.Unlocked
