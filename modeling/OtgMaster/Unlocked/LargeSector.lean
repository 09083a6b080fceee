import OtgMaster.Bitlocker.Kept
import OtgMaster.Unlocked.Tweaks

/-!
The plaintext of a LUKS2 payload with large sectors is kept by `LargeSectorXtsDevice`, at every
block size that divides the sectors. A request is widened to whole sectors at both ends; of a
payload of whole sectors the widened range is inside it again (`On.widened`), so that a request
inside the payload can fail only when its sectors are too many for an array. What a write leaves on
the drive is the widened plaintext with the data in its place (`Rewrites.plainAt`), whether its
first and last sectors are the same or not.
-/

namespace OtgMaster.Unlocked

open Lib Block Bitlocker

/-! ### What sectors that are encrypted again hold -/

section Payload

variable {y : Payload} {w w' : Machine} {x : ℕ} {data : List UInt8}

lemma Payload.Rewrites.sector_untouched (hpos : 0 < y.sectorSize) (h0 : 0 ≤ y.start)
    (h : y.Rewrites w w' x data) {s : ℕ} (hs : ¬y.Touches x data.length s) :
    y.sector w' s = y.sector w s := by
  refine Bytes.slice_congr fun i hi => (h.result hpos).2 _ fun t ht hin => ?_
  -- a byte is in one sector only
  have hst : s = t := by
    have h1 : t * y.sectorSize < (s + 1) * y.sectorSize := by
      rw [Nat.succ_mul]
      omega
    have h2 : s * y.sectorSize < (t + 1) * y.sectorSize := by omega
    have h1 := Nat.lt_of_mul_lt_mul_right h1
    have h2 := Nat.lt_of_mul_lt_mul_right h2
    omega
  exact hs (hst ▸ ht)

/-- **The plaintext after a write** is the one before with the data in its place. -/
lemma Payload.Rewrites.plainAt (hpos : 0 < y.sectorSize) (h0 : 0 ≤ y.start)
    (h : y.Rewrites w w' x data) : y.plainAt w' = overwrite (y.plainAt w) x data := by
  funext p
  have hp := Nat.div_add_mod' p y.sectorSize
  have hmod := Nat.mod_lt p hpos
  by_cases hs : y.Touches x data.length (p / y.sectorSize)
  · show (y.cipher.crypt false _ (y.sector w' (p / y.sectorSize))).getD _ 0 = _
    rw [(h.result hpos).1 _ hs, y.cipher.undo _ _ Bytes.length_slice, List.getD_eq_getElem _ _ (by
      rw [Bytes.length_slice]; exact hmod)]
    simp only [Bytes.slice, List.getElem_map, List.getElem_range]
    rw [hp]
  · have hout : ¬(x ≤ p ∧ p < x + data.length) := by
      rintro ⟨h1, h2⟩
      refine hs ⟨by omega, ?_⟩
      rw [Nat.succ_mul]
      omega
    rw [overwrite_outside hout]
    show (y.cipher.crypt false _ (y.sector w' (p / y.sectorSize))).getD _ 0 = _
    rw [h.sector_untouched hpos h0 hs]
    rfl

end Payload

namespace LargeSectorXtsDevice

/-! ### The device on its drive -/

/-- The payload lies on the drive, in whole sectors of a size that LUKS2 has, each of whole
blocks. -/
structure On (d : LargeSectorXtsDevice) (w : Machine) : Prop where
  blockSize_pos : 0 < w.blockSize
  sectorSize : d.sectorSize ∈ [512, 1024, 2048, 4096]
  block_dvd : w.blockSize ∣ d.sectorSize
  start_nonneg : 0 ≤ d.payloadStartBlock
  blocks_nonneg : 0 ≤ d.payloadBlocks
  whole : ((d.sectorSize / w.blockSize : ℕ) : ℤ) ∣ d.payloadBlocks
  inside : d.payloadStartBlock + d.payloadBlocks ≤ w.blockCount

def bytes (d : LargeSectorXtsDevice) (bs : ℕ) : ℕ := d.payloadBlocks.toNat * bs

def plainAt (d : LargeSectorXtsDevice) (w : Machine) : Bytes := (d.payload w.blockSize).plainAt w

section On

variable {d : LargeSectorXtsDevice} {w w' : Machine}

lemma On.of_eq (hon : d.On w) (hsize : w'.blockSize = w.blockSize)
    (hcount : w'.blockCount = w.blockCount) : d.On w' := by
  obtain ⟨h1, h2, h3, h4, h5, h6, h7⟩ := hon
  rw [← hsize] at h1 h3 h6
  rw [← hcount] at h7
  exact ⟨h1, h2, h3, h4, h5, h6, h7⟩

lemma On.sector_dvd (hon : d.On w) : d.sectorSize ∣ 2 ^ 63 := by
  have h := hon.sectorSize
  simp only [List.mem_cons, List.not_mem_nil, or_false] at h
  rcases h with h | h | h | h <;> rw [h] <;> decide

lemma On.sector_le (hon : d.On w) : d.sectorSize ≤ 4096 := by
  have h := hon.sectorSize
  simp only [List.mem_cons, List.not_mem_nil, or_false] at h
  omega

lemma On.sector_pos (hon : d.On w) : 0 < d.sectorSize := Nat.pos_of_dvd_of_pos hon.sector_dvd (by decide)

lemma On.blockCount_eq (hon : d.On w) : d.blockCount w.blockSize = d.payloadBlocks := by
  have h1 := hon.inside
  have h2 := hon.start_nonneg
  have h3 : w.blockCount ≤ w.blockCount * w.blockSize := Nat.le_mul_of_pos_right _ hon.blockSize_pos
  have h4 := w.offsets
  unfold blockCount
  rw [Int.tdiv_mul_cancel hon.whole]
  exact i64_of_lt hon.blocks_nonneg (by omega)

lemma On.bytes_lt (hon : d.On w) :
    (d.payloadStartBlock.toNat + d.payloadBlocks.toNat) * w.blockSize < 2 ^ 63 := by
  have h1 := hon.inside
  have h2 := hon.start_nonneg
  have h3 := hon.blocks_nonneg
  exact Nat.lt_of_le_of_lt (Nat.mul_le_mul_right _ (by omega)) w.offsets

lemma On.blocks_lt (hon : d.On w) : d.payloadBlocks < 2 ^ 63 := by
  have h1 := Nat.le_mul_of_pos_right (d.payloadStartBlock.toNat + d.payloadBlocks.toNat)
    hon.blockSize_pos
  have h2 := hon.bytes_lt
  omega

lemma On.whole_bytes (hon : d.On w) : d.sectorSize ∣ d.bytes w.blockSize := by
  have h := hon.whole
  rw [← Int.toNat_of_nonneg hon.blocks_nonneg, Int.natCast_dvd_natCast] at h
  have := Nat.mul_dvd_mul_right h w.blockSize
  rwa [Nat.div_mul_cancel hon.block_dvd] at this

/-- **The sectors that a range of the payload is widened to lie in the payload.** -/
lemma On.widened (hon : d.On w) {F n : ℕ} (hin : F + n ≤ d.bytes w.blockSize) :
    ∃ aF aT : ℕ, floorTo d.sectorSize F = aF ∧ ceilTo d.sectorSize (F + n : ℕ) = aT ∧ d.sectorSize ∣ aF ∧
      d.sectorSize ∣ aT ∧ aF ≤ F ∧ F + n ≤ aT ∧ aT ≤ d.bytes w.blockSize ∧
      aT - aF < n + 2 * d.sectorSize := by
  have hlt := hon.bytes_lt
  rw [Nat.add_mul] at hlt
  exact Block.widened hon.sector_dvd hon.whole_bytes (by unfold bytes; omega) hin

lemma On.block (hon : d.On w) {a : ℕ} (ha : d.sectorSize ∣ a) (hle : a ≤ d.bytes w.blockSize) :
    i64 (d.payloadStartBlock + (a : ℤ).tdiv w.blockSize) =
      (d.payloadStartBlock.toNat + a / w.blockSize : ℕ) ∧
      d.payloadStartBlock.toNat + a / w.blockSize ≤ w.blockCount ∧
      (((d.payloadStartBlock.toNat + a / w.blockSize) * w.blockSize : ℕ) : ℤ) =
        (d.payload w.blockSize).start + a := by
  have h1 := hon.inside
  have h2 := hon.start_nonneg
  have h3 := hon.blocks_nonneg
  have h4 := hon.bytes_lt
  have hpos := hon.blockSize_pos
  have hdiv : a / w.blockSize ≤ d.payloadBlocks.toNat := (Nat.div_le_iff_le_mul_add_pred hpos).2 (by
    unfold bytes at hle; rw [Nat.mul_comm]; omega)
  have hcount := Nat.le_mul_of_pos_right (d.payloadStartBlock.toNat + d.payloadBlocks.toNat) hpos
  refine ⟨?_, by omega, ?_⟩
  · rw [← Int.ofNat_tdiv, ← Int.toNat_of_nonneg h2, ← Int.natCast_add, Int.toNat_natCast,
      i64_natCast (by omega)]
  · rw [Nat.add_mul, Nat.div_mul_cancel (hon.block_dvd.trans ha), Int.natCast_add, Int.natCast_mul,
      Int.toNat_of_nonneg h2]
    rfl

lemma On.payload_start (hon : d.On w) : 0 ≤ (d.payload w.blockSize).start :=
  Int.mul_nonneg hon.start_nonneg (Int.natCast_nonneg _)

end On

/-! ### One request -/

section Requests

variable {d : LargeSectorXtsDevice} {h : Host}

/-- **Whole sectors are read as their plaintext**, unless they are too many for an array. -/
lemma wp_readWhole (hon : d.On h.drive) {aF aT : ℕ} (hF : d.sectorSize ∣ aF)
    (hT : d.sectorSize ∣ aT) (hle : aF ≤ aT) (hend : aT ≤ d.bytes h.drive.blockSize)
    (hcount : (aT - aF) / h.drive.blockSize < 2 ^ 32) {Q : List UInt8 → Host → Prop}
    {E : Thrown → Host → Prop}
    (hok : aT - aF < 2 ^ 31 → ∀ h', h'.drive = h.drive →
      Q ((d.plainAt h.drive).slice aF (aT - aF)) h')
    (herr : 2 ^ 31 ≤ aT - aF → ∀ e h', h'.drive = h.drive → E e h') :
    wp (d.readWhole h.drive.blockSize aF aT) Q E h := by
  obtain ⟨hstart, -, hplace⟩ := hon.block hF (hle.trans hend)
  obtain ⟨-, hinside, -⟩ := hon.block hT hend
  have hdvd := Nat.dvd_sub hT hF
  have hblocks := blocks_of_range hon.blockSize_pos (hon.block_dvd.trans hF) hle
  have hbytes := Nat.div_mul_cancel (hon.block_dvd.trans hdvd)
  by_cases hsmall : aT - aF < 2 ^ 31
  all_goals
    unfold readWhole
    rw [wp_bind, hstart, ← Int.ofNat_sub hle, ← Int.ofNat_tdiv]
  · rw [i32_natCast (Nat.lt_of_le_of_lt (Nat.div_le_self ..) hsmall)]
    refine wp_readDrive_run (by omega) (by rw [hbytes]; exact hsmall) ?_
    have hdec : d.cipher.cryptSectors false (d.ivTweak + (aF / d.sectorSize : ℕ)) (h.drive.bytes.slice
        ((d.payloadStartBlock.toNat + aF / h.drive.blockSize) * h.drive.blockSize) (aT - aF)) =
          some ((d.plainAt h.drive).slice aF (aT - aF)) := by
      have hdec :=
        Payload.decrypt_slice (y := d.payload h.drive.blockSize) (w := h.drive) hon.sector_pos hF
          hdvd
        (by have := hon.payload_start; omega)
      rwa [← hplace, Int.toNat_natCast] at hdec
    rw [hbytes, ← Int.ofNat_tdiv, hdec]
    refine wp_lift.2 ⟨fun plain hp => ?_, fun e he => by cases he⟩
    cases hp
    exact hok hsmall _ rfl
  · -- the drive is asked for more than an array can hold
    generalize hc : i32 ((aT - aF) / h.drive.blockSize : ℕ) = c
    refine wp_readDrive (fun _ h2 h3 => ?_) (fun e => herr (not_lt.1 hsmall) e (h.logged _) rfl)
    rw [← hc] at h2 h3
    have hint : (aT - aF) / h.drive.blockSize < 2 ^ 31 :=
      lt_of_not_ge fun hge => absurd h2 (not_le.2 (i32_neg hge hcount))
    rw [i32_natCast hint, ← Int.natCast_mul, hbytes] at h3
    omega

/-- The request is for blocks of the payload, an `Int` of them or an array of whole blocks. -/
def Inside (d : LargeSectorXtsDevice) (bs : ℕ) : Request → Prop
  | .read start count => 0 ≤ start ∧ 0 ≤ count ∧ start + count ≤ d.payloadBlocks ∧ count < 2 ^ 31
  | .write start data => 0 ≤ start ∧ start + (data.length / bs : ℕ) ≤ d.payloadBlocks ∧
    bs ∣ data.length ∧
      data.length < 2 ^ 31

/-- The sectors of the `len` bytes from block `start` on fit in an array. -/
def Fits (d : LargeSectorXtsDevice) (bs : ℕ) (start : ℤ) (len : ℕ) : Prop :=
  ceilTo d.sectorSize (start.toNat * bs + len : ℕ) - floorTo d.sectorSize (start.toNat * bs : ℕ) < 2 ^ 31

lemma On.request (hon : d.On h.drive) {s n : ℕ}
    (hin : s * h.drive.blockSize + n ≤ d.bytes h.drive.blockSize) :
    i64 ((s : ℤ) * h.drive.blockSize) = (s * h.drive.blockSize : ℕ) ∧
      i64 (((s * h.drive.blockSize : ℕ) : ℤ) + n) = (s * h.drive.blockSize + n : ℕ) := by
  have hlt := hon.bytes_lt
  rw [Nat.add_mul] at hlt
  unfold bytes at hin
  constructor
  · rw [← Int.natCast_mul, i64_natCast (by omega)]
  · rw [← Int.natCast_add, i64_natCast (by omega)]

/-- **A read inside the payload** returns the plaintext, if the sectors around it fit in an
array. -/
lemma wp_readBlocks (hon : d.On h.drive) {start count : ℤ}
    (hin : d.Inside h.drive.blockSize (.read start count)) : wp (d.readBlocks start count)
      (fun data h' => h'.drive = h.drive ∧
        data = (d.plainAt h.drive).slice (start.toNat * h.drive.blockSize)
          (count.toNat * h.drive.blockSize))
      (fun _ h' => h'.drive = h.drive ∧
        ¬d.Fits h.drive.blockSize start (count.toNat * h.drive.blockSize)) h := by
  obtain ⟨h1, h2, h3, h4⟩ := hin
  obtain ⟨s, rfl⟩ := Int.eq_ofNat_of_zero_le h1
  obtain ⟨c, rfl⟩ := Int.eq_ofNat_of_zero_le h2
  have hbytes : s * h.drive.blockSize + c * h.drive.blockSize ≤ d.bytes h.drive.blockSize := by
    rw [← Nat.add_mul]
    exact Nat.mul_le_mul_right _ (by omega)
  obtain ⟨hfrom, hto⟩ := hon.request hbytes
  obtain ⟨aF, aT, hfloor, hceil, hdvdF, hdvdT, hF, hT, hend, hwide⟩ := hon.widened hbytes
  have hcount : (aT - aF) / h.drive.blockSize < 2 ^ 32 := by
    have hsector : 2 * d.sectorSize ≤ 8192 * h.drive.blockSize :=
      (Nat.mul_le_mul_left 2 hon.sector_le).trans (Nat.le_mul_of_pos_right _ hon.blockSize_pos)
    refine (Nat.div_lt_iff_lt_mul hon.blockSize_pos).2 (Nat.lt_of_lt_of_le hwide ?_)
    have : (c + 8192) * h.drive.blockSize ≤ 2 ^ 32 * h.drive.blockSize :=
      Nat.mul_le_mul_right _ (by omega)
    rw [Nat.add_mul] at this
    omega
  unfold readBlocks Fits
  simp only [wp_bind, wp_get]
  rw [hon.blockCount_eq, requireInRange_run h1 h2 h3 hon.blocks_lt]
  refine wp_lift.2 ⟨fun _ _ => ?_, fun e he => by cases he⟩
  simp only [Int.toNat_natCast]
  rw [hfrom, ← Int.natCast_mul, hto, hfloor, hceil]
  refine wp_readWhole hon hdvdF hdvdT (by omega) hend hcount (fun hsmall h' hd => ?_)
    (fun hbig e h' hd => ⟨hd, by omega⟩)
  exact wp_of_ok ((cut_ok_iff hF hT hsmall).2 ⟨rfl, rfl⟩) |>.2 ⟨hd, rfl⟩

lemma wp_writeWhole (hon : d.On h.drive) {x aF aT : ℕ} {data : List UInt8} {e : Thrown}
    (haF : (d.payload h.drive.blockSize).floor x = aF)
    (haT : (d.payload h.drive.blockSize).ceil (x + data.length) = aT) (hF : d.sectorSize ∣ aF)
    (hT : d.sectorSize ∣ aT) (hle : aF ≤ aT) (hend : aT ≤ d.bytes h.drive.blockSize) {g : Host}
    (hg : g.drive = h.drive) {E : Thrown → Host → Prop} {buf : List UInt8}
    (hbuf : buf = Bytes.slice (overwrite (d.plainAt h.drive) x data) aF (aT - aF)) :
    wp (show D PUnit from do
        let buf ← orThrow (d.cipher.cryptSectors true (d.ivTweak + (aF : ℤ).tdiv d.sectorSize) buf) e
        writeDrive (i64 (d.payloadStartBlock + (aF : ℤ).tdiv h.drive.blockSize)) buf)
      (fun _ h' => h'.drive.blockSize = h.drive.blockSize ∧ h'.drive.blockCount = h.drive.blockCount ∧
        d.plainAt h'.drive = overwrite (d.plainAt h.drive) x data) E g := by
  obtain ⟨hstart, -, hplace⟩ := hon.block hF (hle.trans hend)
  obtain ⟨-, hinside, -⟩ := hon.block hT hend
  have hdvd := Nat.dvd_sub hT hF
  have hblocks := blocks_of_range hon.blockSize_pos (hon.block_dvd.trans hF) hle
  obtain ⟨out, hout⟩ : ∃ out, d.cipher.cryptSectors true (d.ivTweak + (aF / d.sectorSize : ℕ))
      (Bytes.slice (overwrite (d.plainAt h.drive) x data) aF (aT - aF)) = some out :=
    SectorCipher.cryptSectors_some (by rw [Bytes.length_slice]; exact hdvd)
  have hlen := SectorCipher.cryptSectors_length hout
  rw [Bytes.length_slice] at hlen
  rw [wp_bind, hstart, ← Int.ofNat_tdiv, hbuf, hout]
  refine wp_lift.2 ⟨fun buf hbuf => ?_, fun e he => by cases he⟩
  cases hbuf
  refine wp_writeDrive_run (by rw [hlen, hg]; exact Nat.mod_eq_zero_of_dvd (hon.block_dvd.trans hdvd))
    (by rw [hlen, hg]; omega) ?_
  rw [hg]
  refine ⟨rfl, rfl, ?_⟩
  have hrewrites : (d.payload h.drive.blockSize).Rewrites h.drive (h.drive.written
      (d.payloadStartBlock.toNat + aF / h.drive.blockSize) out) x data := by
    refine ⟨_, out, ?_, ?_, rfl⟩
    · rw [haF]
      exact hplace
    · rw [haF, haT]
      exact hout
  exact hrewrites.plainAt hon.sector_pos hon.payload_start

/-- **A write inside the payload** puts the data into the plaintext, if the sectors around it fit in
an array. -/
lemma wp_writeBlocks (hon : d.On h.drive) {start : ℤ} {data : List UInt8}
    (hin : d.Inside h.drive.blockSize (.write start data)) :
    wp (d.writeBlocks start data)
      (fun _ h' => h'.drive.blockSize = h.drive.blockSize ∧ h'.drive.blockCount = h.drive.blockCount ∧
        d.plainAt h'.drive = overwrite (d.plainAt h.drive) (start.toNat * h.drive.blockSize) data)
      (fun _ h' => h'.drive = h.drive ∧ ¬d.Fits h.drive.blockSize start data.length) h := by
  obtain ⟨h1, h2, h3, h4⟩ := hin
  obtain ⟨s, rfl⟩ := Int.eq_ofNat_of_zero_le h1
  have hbytes : s * h.drive.blockSize + data.length ≤ d.bytes h.drive.blockSize := by
    rw [← Nat.div_mul_cancel h3, ← Nat.add_mul]
    exact Nat.mul_le_mul_right _ (by omega)
  obtain ⟨hfrom, hto⟩ := hon.request hbytes
  obtain ⟨aF, aT, hfloor, hceil, hdvdF, hdvdT, hF, hT, hend, hwide⟩ := hon.widened hbytes
  have hlt := hon.bytes_lt
  rw [Nat.add_mul] at hlt
  have haF : (d.payload h.drive.blockSize).floor (s * h.drive.blockSize) = aF := by
    rw [floorTo_natCast (by unfold bytes at hbytes; omega)] at hfloor
    exact Int.ofNat_inj.1 hfloor
  have haT : (d.payload h.drive.blockSize).ceil (s * h.drive.blockSize + data.length) = aT := by
    have hwrap := add_le_long hon.sector_dvd hon.whole_bytes (by unfold bytes; omega)
    have hpos := hon.sector_pos
    rw [ceilTo_natCast hpos (by omega)] at hceil
    exact Int.ofNat_inj.1 hceil
  have hcount : (aT - aF) / h.drive.blockSize < 2 ^ 32 := by
    have := hon.sector_le
    exact Nat.lt_of_le_of_lt (Nat.div_le_self ..) (by omega)
  rw [writeBlocks_eq]
  unfold gathered Fits
  rw [wp_bind, wp_get]
  dsimp only
  rw [wp_bind, hon.blockCount_eq, requireInRange_run h1 (Int.natCast_nonneg _) h2 hon.blocks_lt]
  rw [wp_lift]
  refine ⟨fun _ _ => ?_, fun e he => by cases he⟩
  simp only [Int.toNat_natCast]
  rw [hfrom, hto, hfloor, hceil, wp_bind, wp_ite]
  refine ⟨fun heq => ?_, fun _ => ?_⟩
  · refine wp_writeWhole hon haF haT hdvdF hdvdT (by omega) hend rfl ?_
    rw [show aF = s * h.drive.blockSize by omega, show aT - s * h.drive.blockSize = data.length by omega,
      slice_overwrite_self]
  · rw [wp_bind]
    refine wp_readWhole hon hdvdF hdvdT (by omega) hend hcount (fun hsmall h' hd => ?_)
      (fun hbig e h' hd => ⟨hd, by omega⟩)
    rw [arraycopy_slice hF hT hsmall]
    refine wp_lift.2 ⟨fun x hx => ?_, fun e he => by cases he⟩
    cases hx
    exact wp_writeWhole hon haF haT hdvdF hdvdT (by omega) hend hd rfl

end Requests

/-! ### Whole runs -/

/-- What a request makes of the drive, and of the plaintext that the writes so far should have
left. -/
def step (d : LargeSectorXtsDevice) (s : Story) : Request → Story
  | .read start count =>
    match d.readBlocks start count s.host with
    | .ok _ h | .error _ h => ⟨h, s.latest⟩
  | .write start data =>
    match d.writeBlocks start data s.host with
    | .ok _ h => ⟨h, overwrite s.latest (start.toNat * h.drive.blockSize) data⟩
    | .error _ h => ⟨h, s.latest⟩

structure Kept (d : LargeSectorXtsDevice) (s : Story) : Prop where
  /-- Every byte is the one last written. -/
  plaintext : d.plainAt s.host.drive = s.latest
  /-- A read inside the payload returns these bytes, if its sectors fit in an array. -/
  read : ∀ start count, d.Inside s.host.drive.blockSize (.read start count) →
    match d.readBlocks start count s.host with
    | .ok data _ => data = s.latest.slice (start.toNat * s.host.drive.blockSize)
      (count.toNat * s.host.drive.blockSize)
    | .error _ _ => ¬d.Fits s.host.drive.blockSize start (count.toNat * s.host.drive.blockSize)
  /-- A write inside the payload changes no byte of the plaintext outside its range; if its sectors
  do not fit in an array it changes nothing. -/
  write : ∀ start data, d.Inside s.host.drive.blockSize (.write start data) →
    match d.writeBlocks start data s.host with
    | .ok _ h => ∀ p, ¬(start.toNat * s.host.drive.blockSize ≤ p ∧
        p < start.toNat * s.host.drive.blockSize + data.length) →
        d.plainAt h.drive p = d.plainAt s.host.drive p
    | .error _ h => h.drive = s.host.drive ∧ ¬d.Fits s.host.drive.blockSize start data.length

section Runs

variable {d : LargeSectorXtsDevice} {s : Story}

structure Inv (d : LargeSectorXtsDevice) (s : Story) : Prop where
  on : d.On s.host.drive
  plaintext : d.plainAt s.host.drive = s.latest

lemma Inv.read_keeps (hi : d.Inv s) {start count : ℤ}
    (hin : d.Inside s.host.drive.blockSize (.read start count)) :
    d.Inv (d.step s (.read start count)) := by
  have hread := wp_readBlocks hi.on hin
  unfold wp at hread
  cases hrun : d.readBlocks start count s.host with
  | ok data g =>
    rw [hrun] at hread
    simp only [step, hrun]
    exact ⟨hread.1 ▸ hi.on, hread.1 ▸ hi.plaintext⟩
  | error e g =>
    rw [hrun] at hread
    simp only [step, hrun]
    exact ⟨hread.1 ▸ hi.on, hread.1 ▸ hi.plaintext⟩

lemma Inv.write_keeps (hi : d.Inv s) {start : ℤ} {data : List UInt8}
    (hin : d.Inside s.host.drive.blockSize (.write start data)) :
    d.Inv (d.step s (.write start data)) := by
  have hwrite := wp_writeBlocks hi.on hin
  unfold wp at hwrite
  cases hrun : d.writeBlocks start data s.host with
  | ok _ g =>
    rw [hrun] at hwrite
    obtain ⟨hsize, hcount, hplain⟩ := hwrite
    simp only [step, hrun]
    refine ⟨hi.on.of_eq hsize hcount, hplain.trans ?_⟩
    rw [hi.plaintext, hsize]
  | error e g =>
    rw [hrun] at hwrite
    simp only [step, hrun]
    exact ⟨hwrite.1 ▸ hi.on, hwrite.1 ▸ hi.plaintext⟩

lemma Inv.kept (hi : d.Inv s) : d.Kept s where
  plaintext := hi.plaintext
  read start count hin := by
    have hread := wp_readBlocks hi.on hin
    unfold wp at hread
    split at hread
    · rename_i hrun
      rw [hrun, ← hi.plaintext]
      exact hread.2
    · rename_i hrun
      rw [hrun]
      exact hread.2
  write start data hin := by
    have hwrite := wp_writeBlocks hi.on hin
    unfold wp at hwrite
    split at hwrite
    · rename_i hrun
      rw [hrun]
      intro p hp
      rw [hwrite.2.2, overwrite_outside hp]
    · rename_i hrun
      rw [hrun]
      exact hwrite

end Runs

/-- **A payload of large sectors holds what was written to it**, through any run of requests inside
it, at any block offsets and of any lengths. -/
theorem large_sectors_kept (d : LargeSectorXtsDevice) (w : Machine) (hon : d.On w) :
    ∀ s, Reaches (fun s a s' => s' = d.step s a) (fun s => d.Inside s.host.drive.blockSize)
      ⟨⟨w, []⟩, d.plainAt w⟩ s → d.Kept s := by
  intro s hr
  refine Inv.kept (hr.invariant (I := d.Inv) ⟨hon, rfl⟩ fun s a s' hi hin hs => ?_)
  subst hs
  cases a with
  | read start count => exact hi.read_keeps hin
  | write start data => exact hi.write_keeps hin

/-- A payload of four sectors of 4096 bytes, from block 8 of the drive on. -/
def sampleDevice : LargeSectorXtsDevice where
  payloadStartBlock := 8
  payloadBlocks := 32
  sectorSize := 4096
  ivTweak := 0
  cipher := ⟨fun _ _ l => l.reverse, fun _ _ _ => List.length_reverse,
    fun _ l _ => List.reverse_reverse l⟩

def sampleDrive : Machine := ⟨512, 64, fun _ => 0, fun _ => 0, by decide⟩

theorem large_sectors_kept_across :
    sampleDevice.Kept (sampleDevice.step ⟨⟨sampleDrive, []⟩, sampleDevice.plainAt sampleDrive⟩
      (.write 6 (List.replicate 1536 1))) := by
  refine large_sectors_kept sampleDevice sampleDrive ?_ _ (Reaches.init.step ?_ rfl)
  · exact ⟨by decide, by decide, by decide, by decide, by decide, by decide, by decide⟩
  · refine ⟨by decide, ?_, ?_, ?_⟩ <;> rw [List.length_replicate] <;> decide

end LargeSectorXtsDevice

end OtgMaster.Unlocked
