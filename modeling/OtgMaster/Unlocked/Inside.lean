import OtgMaster.Unlocked.Devices
import OtgMaster.Bitlocker.Kept

/-!
Where the calls of an unlocked volume fall on the drive. A volume stays inside its partition
(`StaysInside`) if and only if the values of its header place it there (`Fits`): the payload of a
LUKS volume must not start before the partition; of a BitLocker volume the moved first bytes must
lie in the partition, and its last encryption sector too, unless it is never crypted
(`calls_inside_iff`). The unlockers check none of this (`calls_outside`).
-/

namespace OtgMaster.Unlocked

open Lib Block Veracrypt Luks Bitlocker BitLockerHeader

/-- Through requests in the range of the `Long`s, the volume touches blocks of the partition
only. -/
def StaysInside (bs : ℕ) (p : Slice) (v : Volume) : Prop :=
  ∀ (w : Machine) (r : Request), w.blockSize = bs → r.Sane bs → ∀ c ∈ callsOf (v.serve r) w, c.Inside p

/-- The end of the encryption sectors that a partition of `length` bytes reaches into. -/
def sectorEnd (es length : ℕ) : ℕ := (length + (es - 1)) / es * es

/-- The values of the header place the volume in the partition. -/
def Fits (bs : ℕ) (p : Slice) : Volume → Prop
  | .native _ d => (p.firstBlock : ℤ) ≤ d.volumeDataOffset
  | .largeSector d => (p.firstBlock : ℤ) ≤ d.payloadStartBlock ∨
    d.payloadBlocks < (d.sectorSize / bs : ℕ)
  | .bitlocker d =>
    (p.blockCount = 0 ∨
      d.header.volumeHeaderOffset + min d.header.volumeHeaderSize
        (sectorEnd d.es (p.blockCount * bs)) ≤ (p.blockCount * bs : ℕ)) ∧
    (d.es ∣ p.blockCount * bs ∨ (p.blockCount * bs / d.es * d.es : ℕ) < d.header.volumeHeaderSize ∨
      d.header.holes.any (·.contains (p.blockCount * bs / d.es * d.es : ℕ)) = true)

/-- Blocks of 512 bytes or more; encryption sectors of whole blocks, that end before the `Long`s
do. -/
def Regular (bs : ℕ) (p : Slice) : Volume → Prop
  | .bitlocker d => 512 ≤ bs ∧ bs ∣ d.es ∧ p.blockCount * bs + d.es ≤ 2 ^ 63
  | _ => 512 ≤ bs

/-! ### Offsets and counts -/

lemma inside_of {p : Slice} {write : Bool} {start count : ℤ}
    (h : 0 < count → (p.firstBlock : ℤ) ≤ start ∧ start + count ≤ p.firstBlock + p.blockCount) :
    (⟨write, start, count⟩ : DriveCall).Inside p := by
  intro b h1 h2
  dsimp only at h1 h2
  have := h (by omega)
  omega

lemma bounds_of_inside {p : Slice} {write : Bool} {start count : ℤ}
    (h : (⟨write, start, count⟩ : DriveCall).Inside p) (hcount : 0 < count) :
    (p.firstBlock : ℤ) ≤ start ∧ start + count ≤ p.firstBlock + p.blockCount := by
  have h1 := h start le_rfl (by dsimp only; omega)
  have h2 := h (start + count - 1) (by dsimp only; omega) (by dsimp only; omega)
  omega

lemma offset_nonneg {first count : ℕ} {offset : ℤ} (hlong : first + count < 2 ^ 63)
    (h1 : -2 ^ 63 ≤ offset) (h2 : offset < 2 ^ 63) (hfits : (first : ℤ) ≤ i64 (first + offset)) :
    0 ≤ offset ∧ i64 (first + offset) = first + offset ∧ i64 (count - offset) = count - offset := by
  obtain ⟨k, hk, hlo, hhi⟩ := i64_eq (first + offset)
  have h0 : 0 ≤ offset := by
    by_contra hneg
    rw [i64_of_range (by omega) (by omega)] at hfits
    omega
  exact ⟨h0, i64_of_range (by omega) (by omega), i64_of_range (by omega) (by omega)⟩

lemma i32_le {x : ℤ} (h : 0 ≤ x) : i32 x ≤ x := by
  obtain ⟨k, hk, -, hlt⟩ := i32_eq x
  omega

lemma i32_sub_le {x y : ℤ} (h : y ≤ x) : i32 x - i32 y ≤ x - y := by
  obtain ⟨k, hk, h1, h2⟩ := i32_eq x
  obtain ⟨l, hl, h3, h4⟩ := i32_eq y
  omega

/-! ### VeraCrypt and LUKS -/

section Native

variable {bs : ℕ} {p : Slice} {offset : ℤ} {library : Native} {masterKey : Key} {ids : List ℕ}
  {tweak : ℤ}

lemma native_stays (hlong : p.firstBlock + p.blockCount < 2 ^ 63) (h1 : -2 ^ 63 ≤ offset)
    (h2 : offset < 2 ^ 63) (hfits : (p.firstBlock : ℤ) ≤ i64 (p.firstBlock + offset)) :
    StaysInside bs p (.native library (decryptedAt p offset masterKey ids tweak)) := by
  obtain ⟨h0, hstart, hcount⟩ := offset_nonneg hlong h1 h2 hfits
  -- the call for a request that was let through
  have hcall : ∀ {write : Bool} {start count : ℤ}, 0 ≤ start → 0 ≤ count →
      start + count ≤ i64 (p.blockCount - offset) →
      (⟨write, i64 (start + i64 (p.firstBlock + offset)), count⟩ : DriveCall).Inside p := by
    intro write start count hs hc hle
    rw [hcount] at hle
    rw [hstart, i64_of_range (by omega) (by omega)]
    exact inside_of fun _ => by omega
  intro w r hw hsane
  have hempty : (⟨w, []⟩ : Host).Within bs (DriveCall.Inside p) :=
    ⟨hw, fun _ hc => absurd hc List.not_mem_nil⟩
  cases r with
  | read start count =>
    refine callsOf_within bs ?_
    simp only [Volume.serve, NativeDecryptedBlockDevice.readBlocks, wp_bind, wp_get]
    refine wp_lift.2 ⟨fun _ hr => ?_, fun _ _ => hempty⟩
    obtain ⟨hs, hc, hle⟩ := requireInRange_ok hr hsane
    refine hempty.read (hcall hs hc hle) (fun data h' _ _ hh => ?_) (fun _ _ hh => hh)
    exact wp_lift.2 ⟨fun _ _ => hh, fun _ _ => hh⟩
  | write start data =>
    refine callsOf_within bs ?_
    simp only [Volume.serve, NativeDecryptedBlockDevice.writeBlocks, wp_bind, wp_get]
    rw [hw]
    refine wp_lift.2 ⟨fun _ hr => ?_, fun _ _ => hempty⟩
    obtain ⟨hs, hc, hle⟩ := requireInRange_ok hr hsane.2.2
    refine wp_lift.2 ⟨fun out hout => ?_, fun _ _ => hempty⟩
    have hlen := library.cryptSectorsInPlace_length (orThrow_ok hout)
    refine hempty.write ?_ (fun _ hh => hh) (fun _ _ hh => hh)
    rw [hlen]
    exact hcall hs hc hle

lemma native_fits (hp : p.firstBlock + p.blockCount < 2 ^ 62) (h1 : -2 ^ 62 ≤ offset)
    (h2 : offset ≤ 2 ^ 62)
    (hstays : StaysInside bs p (.native library (decryptedAt p offset masterKey ids tweak))) :
    (p.firstBlock : ℤ) ≤ i64 (p.firstBlock + offset) := by
  rw [i64_of_range (by omega) (by omega)]
  by_contra hneg
  have hcount : (decryptedAt p offset masterKey ids tweak).decryptedBlockCount = p.blockCount - offset :=
    i64_of_range (by omega) (by omega)
  have hmem : (⟨false, i64 (0 + i64 (p.firstBlock + offset)), 1⟩ : DriveCall) ∈
      callsOf (Volume.serve (.native library (decryptedAt p offset masterKey ids tweak)) (.read 0 1))
        ⟨bs, 0, fun _ => 0, fun _ => 0, by omega⟩ := by
    refine mem_callsOf ?_
    simp only [Volume.serve, NativeDecryptedBlockDevice.readBlocks, wp_bind, wp_get]
    rw [requireInRange_run le_rfl (by decide) (by omega) (by omega)]
    exact wp_lift.2
      ⟨fun _ _ => wp_readDrive_logged (fun _ _ hc => wp_lift.2 ⟨fun _ _ => hc, fun _ _ => hc⟩) fun _
        _ hc => hc, fun _ he => (by cases he)⟩
  have hin := hstays _ (.read 0 1) rfl (show (0 : ℤ) + 1 < 2 ^ 63 by decide) _ hmem
  rw [i64_of_range (x := p.firstBlock + offset) (by omega) (by omega),
    i64_of_range (by omega) (by omega)] at hin
  have := (bounds_of_inside hin (by decide)).1
  omega

end Native

/-! ### LUKS2 with large sectors -/

section LargeSector

variable {bs : ℕ} {p : Slice} {offset ivTweak : ℤ} {k : ℕ} {cipher : SectorCipher (k * bs)}

abbrev largeSectorAt (p : Slice) (offset ivTweak : ℤ) (cipher : SectorCipher (k * bs)) :
    LargeSectorXtsDevice :=
  ⟨i64 (p.firstBlock + offset), i64 (p.blockCount - offset), k * bs, ivTweak, cipher⟩

lemma blockCount_eq (hbs : 0 < bs) : (largeSectorAt p offset ivTweak cipher).blockCount bs =
    (i64 (p.blockCount - offset)).tdiv k * k := by
  unfold LargeSectorXtsDevice.blockCount
  obtain ⟨-, -, hlo, hhi⟩ := i64_eq (p.blockCount - offset)
  dsimp only
  rw [Nat.mul_div_cancel k hbs]
  obtain ⟨h1, h2⟩ := tdiv_mul_bounds (i64 (p.blockCount - offset)) k
  rcases le_total 0 (i64 (p.blockCount - offset)) with h | h
  · have := h1 h
    exact i64_of_range (by omega) (by omega)
  · have := h2 h
    exact i64_of_range (by omega) (by omega)

lemma largeSector_range (hbs : 0 < bs) (hn : k * bs ∣ 2 ^ 63)
    (hlong : (p.firstBlock + p.blockCount) * bs < 2 ^ 63) (h1 : -2 ^ 63 ≤ offset) (h2 : offset < 2 ^ 63)
    (hfits : (p.firstBlock : ℤ) ≤ i64 (p.firstBlock + offset) ∨ i64 (p.blockCount - offset) < k)
    {s n : ℕ} (hin : ((s + n : ℕ) : ℤ) ≤ (largeSectorAt p offset ivTweak cipher).blockCount bs) :
    ∃ aF aT : ℕ, i64 ((s : ℤ) * bs) = (s * bs : ℕ) ∧
      i64 ((s * bs : ℕ) + (n : ℤ) * bs) = (s * bs + n * bs : ℕ) ∧
      floorTo (k * bs) (s * bs : ℕ) = aF ∧ ceilTo (k * bs) (s * bs + n * bs : ℕ) = aT ∧ aF ≤ s * bs ∧
      s * bs + n * bs ≤ aT ∧ ∀ (write : Bool) (count : ℤ), count ≤ ((aT - aF) / bs : ℕ) →
        (⟨write, i64 (i64 (p.firstBlock + offset) + (aF : ℤ).tdiv bs), count⟩ : DriveCall).Inside p := by
  have hblocks : p.firstBlock + p.blockCount < 2 ^ 63 :=
    Nat.lt_of_le_of_lt (Nat.le_mul_of_pos_right _ hbs) hlong
  rw [blockCount_eq hbs] at hin
  obtain ⟨hpos, hneg⟩ := tdiv_mul_bounds (i64 (p.blockCount - offset)) k
  -- either there is no whole sector, or the payload lies in the partition
  have hcases : (i64 (p.blockCount - offset)).tdiv k * k = 0 ∨ 0 ≤ offset ∧
      i64 (p.firstBlock + offset) = p.firstBlock + offset ∧
      i64 (p.blockCount - offset) = p.blockCount - offset ∧
      0 ≤ i64 (p.blockCount - offset) := by
    rcases le_total (i64 (p.blockCount - offset)) 0 with h | h
    · have := hneg h
      left
      omega
    · rcases hfits with hf | hf
      · obtain ⟨h0, h3, h4⟩ := offset_nonneg hblocks h1 h2 hf
        exact .inr ⟨h0, h3, h4, h⟩
      · left
        rw [Int.tdiv_eq_zero_of_lt h hf, Int.zero_mul]
  obtain ⟨b, hb⟩ := Int.eq_ofNat_of_zero_le (show 0 ≤ (i64 (p.blockCount - offset)).tdiv k * k by omega)
  have hdvd : k * bs ∣ b * bs := by
    refine Nat.mul_dvd_mul_right (Int.natCast_dvd_natCast.1 ?_) bs
    rw [← hb]
    exact Dvd.intro_left _ rfl
  have hle : b ≤ p.blockCount := by
    rcases hcases with h | ⟨h0, -, h4, h5⟩
    · omega
    · have := hpos h5
      omega
  have hbytes : b * bs < 2 ^ 63 :=
    Nat.lt_of_le_of_lt (Nat.mul_le_mul_right _ (hle.trans (Nat.le_add_left ..))) hlong
  have hrange : s * bs + n * bs ≤ b * bs := by
    rw [← Nat.add_mul]
    exact Nat.mul_le_mul_right _ (by omega)
  obtain ⟨aF, aT, hfloor, hceil, -, -, hF, hT, hend, -⟩ := Block.widened hn hdvd hbytes hrange
  refine ⟨aF, aT, ?_, ?_, hfloor, hceil, hF, hT, fun write count hcount => inside_of fun hc => ?_⟩
  · rw [← Int.natCast_mul, i64_natCast (by omega)]
  · rw [← Int.natCast_mul, ← Int.natCast_add, i64_natCast (by omega)]
  · have hdiv : aF / bs + (aT - aF) / bs ≤ b := by
      refine (Nat.div_add_div_le_add_div ..).trans ?_
      rw [Nat.add_sub_cancel' (by omega)]
      exact Nat.div_le_of_le_mul (by rw [Nat.mul_comm]; exact hend)
    rw [← Int.ofNat_tdiv]
    generalize aF / bs = first at *
    generalize (aT - aF) / bs = blocks at *
    rcases hcases with h | ⟨h0, h3, h4, h5⟩
    · omega
    · have := hpos h5
      rw [h3, i64_of_range (by omega) (by omega)]
      omega

lemma largeSector_stays (hbs : 0 < bs) (hn : k * bs ∣ 2 ^ 63)
    (hlong : (p.firstBlock + p.blockCount) * bs < 2 ^ 63) (h1 : -2 ^ 63 ≤ offset) (h2 : offset < 2 ^ 63)
    (hfits : (p.firstBlock : ℤ) ≤ i64 (p.firstBlock + offset) ∨ i64 (p.blockCount - offset) < k) :
    StaysInside bs p (.largeSector (largeSectorAt p offset ivTweak cipher)) := by
  intro w r hw hsane
  have hempty : (⟨w, []⟩ : Host).Within bs (DriveCall.Inside p) :=
    ⟨hw, fun _ hc => absurd hc List.not_mem_nil⟩
  cases r with
  | read start count =>
    refine callsOf_within bs ?_
    simp only [Volume.serve, LargeSectorXtsDevice.readBlocks, LargeSectorXtsDevice.readWhole,
      wp_bind, wp_get, hw]
    refine wp_lift.2 ⟨fun _ hr => ?_, fun _ _ => hempty⟩
    obtain ⟨hs, hc, hle⟩ := requireInRange_ok hr hsane
    obtain ⟨s, rfl⟩ := Int.eq_ofNat_of_zero_le hs
    obtain ⟨n, rfl⟩ := Int.eq_ofNat_of_zero_le hc
    obtain ⟨aF, aT, hfrom, hto, hfloor, hceil, hF, hT, hcall⟩ :=
      largeSector_range hbs hn hlong h1 h2 hfits (s := s) (n := n) hle
    rw [hfrom, hto, hfloor, hceil]
    refine hempty.read (hcall _ _ ?_) (fun data h' _ _ hh => ?_) (fun _ _ hh => hh)
    · rw [← Int.ofNat_sub (hF.trans ((Nat.le_add_right ..).trans hT)), ← Int.ofNat_tdiv]
      exact i32_le (Int.natCast_nonneg _)
    · refine wp_lift.2 ⟨fun _ _ => wp_ite.2 ⟨fun _ => hh, fun _ => ?_⟩, fun _ _ => hh⟩
      exact wp_lift.2 ⟨fun _ _ => hh, fun _ _ => hh⟩
  | write start data =>
    obtain ⟨⟨n, hlen⟩, -, hlong'⟩ := hsane
    have hblocks : data.length / bs = n := by rw [hlen, Nat.mul_div_cancel_left n hbs]
    refine callsOf_within bs ?_
    simp only [Volume.serve, LargeSectorXtsDevice.writeBlocks, LargeSectorXtsDevice.readWhole,
      wp_bind, wp_get, hw]
    refine wp_lift.2 ⟨fun _ hr => ?_, fun _ _ => hempty⟩
    rw [wp_ite]
    obtain ⟨hs, -, hle⟩ := requireInRange_ok hr hlong'
    rw [hblocks] at hle
    obtain ⟨s, rfl⟩ := Int.eq_ofNat_of_zero_le hs
    obtain ⟨aF, aT, hfrom, hto, hfloor, hceil, hF, hT, hcall⟩ :=
      largeSector_range hbs hn hlong h1 h2 hfits (s := s) (n := n) hle
    have hlen' : (data.length : ℤ) = (n : ℤ) * bs := by rw [hlen, Int.natCast_mul, Int.mul_comm]
    have haFT : aF ≤ aT := hF.trans ((Nat.le_add_right ..).trans hT)
    rw [hfrom, hlen', hto, hfloor, hceil, ← Int.ofNat_sub haFT, ← Int.ofNat_tdiv (aT - aF) bs]
    -- the buffer is as long as the widened range, or shorter
    have hwrite : ∀ (h : Host) (buf : List UInt8), h.Within bs (DriveCall.Inside p) →
      buf.length / bs ≤ (aT - aF) / bs →
        wp (do
          let out ← (liftM (orThrow (cipher.cryptSectors true (ivTweak + (aF : ℤ).tdiv (k * bs : ℕ)) buf)
            ⟨.io, s!"LUKS2 encryption failed at byte {(aF : ℤ)} (rc=-1)"⟩) : D (List UInt8))
          writeDrive (i64 (i64 (p.firstBlock + offset) + (aF : ℤ).tdiv bs)) out)
          (fun _ h' => h'.Within bs (DriveCall.Inside p))
              (fun _ h' => h'.Within bs (DriveCall.Inside p)) h := by
      intro h buf hh hbuf
      rw [wp_bind]
      refine wp_lift.2 ⟨fun out hout => ?_, fun _ _ => hh⟩
      refine hh.write (hcall _ _ ?_) (fun _ hh => hh) (fun _ _ hh => hh)
      rw [SectorCipher.cryptSectors_length (orThrow_ok hout)]
      exact Int.ofNat_le.2 hbuf
    refine ⟨fun heq => ?_, fun _ => ?_⟩
    · rw [wp_bind, wp_pure]
      refine hwrite _ _ hempty ?_
      have h1 : aF = s * bs := Int.ofNat_inj.1 heq.1
      have h2 : aT = s * bs + n * bs := Int.ofNat_inj.1 heq.2
      rw [h1, h2, Nat.add_sub_cancel_left, hlen, Nat.mul_comm]
    · simp only [wp_bind]
      have hcount := i32_le (Int.natCast_nonneg ((aT - aF) / bs))
      refine hempty.read (hcall _ _ hcount) (fun whole h' _ hwhole hh => ?_) (fun _ _ hh => hh)
      refine wp_lift.2 ⟨fun plain hplain => ?_, fun _ _ => hh⟩
      refine wp_lift.2 ⟨fun buf hbuf => ?_, fun _ _ => hh⟩
      have hlength : buf.length = (i32 ((aT - aF) / bs : ℕ)).toNat * bs := by
        rw [arraycopy_length hbuf, SectorCipher.cryptSectors_length (orThrow_ok hplain), hwhole]
      have hgo := hwrite h' buf hh (by
        rw [hlength, Nat.mul_div_cancel _ hbs]
        exact Int.toNat_le.2 hcount)
      rwa [wp_bind] at hgo

lemma largeSector_logged (d : LargeSectorXtsDevice) (w : Machine) (start count : ℤ) {aF aT : ℤ}
    (h1 : 0 ≤ start) (h2 : 0 ≤ count) (h3 : start + count ≤ d.blockCount w.blockSize)
    (hF : floorTo d.sectorSize (i64 (start * w.blockSize)) = aF)
    (hT : ceilTo d.sectorSize (i64 (i64 (start * w.blockSize) + count * w.blockSize)) = aT) :
    (⟨false, i64 (d.payloadStartBlock + aF.tdiv w.blockSize), i32 ((aT - aF).tdiv w.blockSize)⟩ :
      DriveCall) ∈
      callsOf (Volume.serve (.largeSector d) (.read start count)) w := by
  refine mem_callsOf ?_
  simp only [Volume.serve, LargeSectorXtsDevice.readBlocks, LargeSectorXtsDevice.readWhole, wp_bind,
    wp_get]
  rw [requireInRange_run h1 h2 h3 (i64_eq _).choose_spec.2.2, hF, hT]
  refine wp_lift.2 ⟨fun _ _ => ?_, fun _ he => (by cases he)⟩
  refine wp_readDrive_logged (fun _ _ hc => ?_) (fun _ _ hc => hc)
  refine wp_lift.2 ⟨fun _ _ => wp_ite.2 ⟨fun _ => hc, fun _ => ?_⟩, fun _ _ => hc⟩
  exact wp_lift.2 ⟨fun _ _ => hc, fun _ _ => hc⟩

lemma ceilTo_one (hk : 0 < k) (hbs : 0 < bs) (hsize : k * bs < 2 ^ 31) :
    ceilTo (k * bs) bs = (k * bs : ℕ) := by
  have hle : bs ≤ k * bs := Nat.le_mul_of_pos_left bs hk
  have hdiv : (bs + (k * bs - 1)) / (k * bs) = 1 := Nat.div_eq_of_lt_le (by omega) (by omega)
  rw [ceilTo_natCast (Nat.mul_pos hk hbs) (by omega), hdiv, Nat.one_mul]

lemma largeSector_fits (hk : 0 < k) (hbs : 0 < bs) (hsize : k * bs < 2 ^ 31)
    (hp : p.firstBlock + p.blockCount < 2 ^ 62) (h1 : -2 ^ 62 ≤ offset) (h2 : offset ≤ 2 ^ 62)
    (hstays : StaysInside bs p (.largeSector (largeSectorAt p offset ivTweak cipher))) :
    (p.firstBlock : ℤ) ≤ i64 (p.firstBlock + offset) ∨ i64 (p.blockCount - offset) < k := by
  by_contra hnot
  rw [i64_of_range (x := p.firstBlock + offset) (by omega) (by omega),
    i64_of_range (x := p.blockCount - offset) (by omega) (by omega)] at hnot
  have hcount : (largeSectorAt p offset ivTweak cipher).blockCount bs =
      (p.blockCount - offset).tdiv k * k := by
    rw [blockCount_eq hbs, i64_of_range (by omega) (by omega)]
  have hsome : 1 ≤ (p.blockCount - offset).tdiv k * k := by
    obtain ⟨m, hm⟩ := Int.eq_ofNat_of_zero_le (show 0 ≤ p.blockCount - offset by omega)
    rw [hm, ← Int.ofNat_tdiv, ← Int.natCast_mul]
    have : 1 * 1 ≤ m / k * k := Nat.mul_le_mul (Nat.div_pos (by omega) hk) hk
    omega
  have hlt : (p.blockCount - offset).tdiv k * k < 2 ^ 63 := by
    have := ((tdiv_mul_bounds (p.blockCount - offset) k).1 (by omega)).2
    omega
  have hceil := ceilTo_one hk hbs hsize
  have hmem :=
    @largeSector_logged (largeSectorAt p offset ivTweak cipher) ⟨bs, 0, fun _ => 0, fun _ => 0,
      by omega⟩
    0 1 0 (k * bs : ℕ) le_rfl (by decide) (by dsimp only; omega) ?_ ?_
  · have hin := hstays _ (.read 0 1) rfl (show (0 : ℤ) + 1 < 2 ^ 63 by decide) _ hmem
    dsimp only at hin
    rw [Int.zero_tdiv, Int.add_zero, Int.sub_zero, ← Int.ofNat_tdiv, Nat.mul_div_cancel k hbs,
      i32_natCast (Nat.lt_of_le_of_lt (Nat.le_mul_of_pos_right k hbs) hsize),
      i64_of_range (x := p.firstBlock + offset) (by omega) (by omega),
      i64_of_range (by omega) (by omega)] at hin
    have := (bounds_of_inside hin (by omega)).1
    omega
  · have hfloor := floorTo_natCast (n := k * bs) (F := 0) (by decide)
    rw [Nat.zero_div, Nat.zero_mul] at hfloor
    dsimp only
    rw [Int.zero_mul]
    exact hfloor
  · dsimp only
    rw [Int.zero_mul, Int.one_mul, show i64 0 = 0 from rfl, Int.zero_add,
      i64_natCast (Nat.lt_of_le_of_lt (Nat.le_mul_of_pos_left bs hk) (by omega))]
    exact hceil

end LargeSector

/-! ### BitLocker -/

section Bitlocker

variable {bs : ℕ} {p : Slice} {d : BitLockerBlockDevice}

open BitLockerBlockDevice

lemma Cover_mem {h : BitLockerHeader} {hi : ℤ} : ∀ {rs : List Run} {lo : ℤ}, Cover h lo hi rs → ∀ r ∈ rs,
    lo ≤ r.start ∧ r.start < r.stop ∧ r.stop ≤ hi ∧
      ∀ q, r.start ≤ q → q < r.stop → h.shift q = if r.zero then none else some r.delta := by
  intro rs
  induction rs with
  | nil => exact fun _ r hr => absurd hr List.not_mem_nil
  | cons r rs ih =>
    intro lo hc s hs
    obtain ⟨hstart, hlt, hshift, hrest⟩ := hc
    rcases List.mem_cons.1 hs with rfl | hs
    · exact ⟨hstart.ge, hlt, hrest.le, hshift⟩
    · obtain ⟨h1, h2⟩ := ih hrest s hs
      exact ⟨by omega, h2⟩

lemma runs_lt {h : BitLockerHeader} {lo hi : ℤ} : ∀ r ∈ h.runs lo hi, r.start < r.stop := by
  intro r hr
  rcases lt_or_ge hi lo with hlt | hle
  · rw [runs_nil (by omega)] at hr
    cases hr
  · exact (Cover_mem (runs_cover h lo hi hle) r hr).2.1

lemma le_of_dvd_of_lt {n a b : ℤ} (hn : 0 < n) (ha : n ∣ a) (hb : n ∣ b) (h : a < b + n) : a ≤ b := by
  obtain ⟨x, rfl⟩ := ha
  obtain ⟨y, rfl⟩ := hb
  rw [← Int.mul_one n, Int.mul_assoc, Int.mul_assoc, ← Int.mul_add, Int.one_mul] at h
  exact Int.mul_le_mul_of_nonneg_left (by have := Int.lt_of_mul_lt_mul_left h hn.le; omega) hn.le

lemma sectorEnd_bounds {es : ℕ} (hes : 0 < es) (length : ℕ) :
    length ≤ sectorEnd es length ∧ sectorEnd es length < length + es ∧ es ∣ sectorEnd es length := by
  have h1 := Nat.div_add_mod' (length + (es - 1)) es
  have h2 := Nat.mod_lt (length + (es - 1)) hes
  unfold sectorEnd
  exact ⟨by omega, by omega, Dvd.intro_left _ rfl⟩

/-- Every byte of the sectors that the partition reaches into has its place in the partition. -/
lemma place_inside (hfits : Fits bs p (.bitlocker d)) {q δ : ℤ} (h0 : 0 ≤ q)
    (hq : q < sectorEnd d.es (p.blockCount * bs)) (hs : d.header.shift q = some δ) :
    0 ≤ q + δ ∧ q + δ < (p.blockCount * bs : ℕ) := by
  obtain ⟨hheader, htail⟩ := hfits
  have hpos : (0 : ℤ) < d.es := Int.natCast_pos.2 es_pos
  obtain ⟨hL, hend, hdvd⟩ := sectorEnd_bounds (es_pos (d := d)) (p.blockCount * bs)
  have hdvd : (d.es : ℤ) ∣ sectorEnd d.es (p.blockCount * bs) := Int.natCast_dvd_natCast.2 hdvd
  have ht := Nat.div_add_mod' (p.blockCount * bs) d.es
  have hmod := Nat.mod_lt (p.blockCount * bs) (es_pos (d := d))
  have htdvd : (d.es : ℤ) ∣ (p.blockCount * bs / d.es * d.es : ℕ) :=
    Int.natCast_dvd_natCast.2 (Dvd.intro_left _ rfl)
  obtain ⟨hoff, hsize, hsizedvd, -⟩ := aligned_of_supported d.supported
  rcases shift_cases hs with ⟨hlt, rfl⟩ | ⟨hge, hout, rfl⟩
  · rcases hheader with h | h
    · rw [h, Nat.zero_mul] at hq hend
      have := le_of_dvd_of_lt hpos hdvd (Dvd.intro 0 (Int.mul_zero _)) (by rw [h, Nat.zero_mul]; omega)
      rw [h, Nat.zero_mul] at this
      omega
    · omega
  · -- a byte behind the partition is in its last sector, which is then in a hole
    refine ⟨by omega, ?_⟩
    by_contra hpast
    generalize p.blockCount * bs / d.es * d.es = t at *
    have hnext : (sectorEnd d.es (p.blockCount * bs) : ℤ) ≤ t + d.es :=
      le_of_dvd_of_lt hpos hdvd (Int.dvd_add htdvd (Int.dvd_refl _)) (by omega)
    rcases htail with h | h | h
    · have := le_of_dvd_of_lt hpos hdvd (Int.natCast_dvd_natCast.2 h) (by omega)
      omega
    · have := le_of_dvd_of_lt hpos (Int.dvd_add htdvd (Int.dvd_refl _)) hsizedvd (by omega)
      omega
    · obtain ⟨hole, hmem, hc⟩ := List.any_eq_true.1 h
      have hq := List.any_eq_false.1 hout hole hmem
      simp only [LongRange.contains, Bool.and_eq_true, decide_eq_true_eq] at hc hq
      rcases holes_aligned hmem with rfl | ⟨-, hlast⟩
      · dsimp only at hc
        omega
      · have := le_of_dvd_of_lt hpos (Int.dvd_add htdvd (Int.dvd_refl _)) hlast (by omega)
        omega

lemma run_inside (hfits : Fits bs p (.bitlocker d)) {aF aT : ℤ} (h0 : 0 ≤ aF)
    (hT : aT ≤ sectorEnd d.es (p.blockCount * bs)) : ∀ r ∈ d.header.runs aF aT, r.zero = false →
      aF ≤ r.start ∧ r.start < r.stop ∧ 0 ≤ r.start + r.delta ∧
      r.stop + r.delta ≤ (p.blockCount * bs : ℕ) := by
  intro r hr hz
  rcases lt_or_ge aT aF with hlt | hle
  · rw [runs_nil (by omega)] at hr
    cases hr
  obtain ⟨h1, h2, h3, hshift⟩ := Cover_mem (runs_cover d.header aF aT hle) r hr
  rw [hz] at hshift
  obtain ⟨h4, -⟩ := place_inside hfits (by omega) (by omega) (hshift r.start le_rfl h2)
  obtain ⟨-, h5⟩ := place_inside hfits (by omega) (by omega) (hshift (r.stop - 1) (by omega) (by omega))
  exact ⟨h1, h2, h4, by omega⟩

lemma run_call (hbs : 0 < bs) (hlong : (p.firstBlock + p.blockCount) * bs < 2 ^ 63) {a b : ℤ}
    (h0 : 0 ≤ a) (hb : b ≤ (p.blockCount * bs : ℕ)) {write : Bool} {count : ℤ}
    (hcount : count ≤ ((b - a).toNat / bs : ℕ)) :
    (⟨write, i64 (p.firstBlock + (i64 a).tdiv bs), count⟩ : DriveCall).Inside p := by
  refine inside_of fun hc => ?_
  obtain ⟨n, rfl⟩ := Int.eq_ofNat_of_zero_le h0
  have hle : p.blockCount * bs ≤ (p.firstBlock + p.blockCount) * bs :=
    Nat.mul_le_mul_right _ (Nat.le_add_left ..)
  have hb' : (n : ℤ) ≤ b := by
    by_contra hlt
    rw [Int.toNat_of_nonpos (by omega), Nat.zero_div] at hcount
    omega
  have hdiv : n / bs + (b - n).toNat / bs ≤ p.blockCount := by
    refine (Nat.div_add_div_le_add_div ..).trans (Nat.div_le_of_le_mul ?_)
    rw [Nat.mul_comm]
    omega
  have hblocks : p.firstBlock + p.blockCount < 2 ^ 63 :=
    Nat.lt_of_le_of_lt (Nat.le_mul_of_pos_right _ hbs) hlong
  rw [i64_natCast (by omega), ← Int.ofNat_tdiv]
  generalize n / bs = first at *
  generalize (b - n).toNat / bs = blocks at *
  rw [← Int.natCast_add, i64_natCast (by omega)]
  omega

lemma bitlocker_range (hlong : (p.firstBlock + p.blockCount) * bs < 2 ^ 63) {s m : ℕ}
    (hin : s * bs + m ≤ p.blockCount * bs) :
    i64 ((s : ℤ) * bs) = (s * bs : ℕ) ∧ i64 ((s * bs : ℕ) + (m : ℤ)) = (s * bs + m : ℕ) ∧
      0 ≤ floorTo d.es (s * bs : ℕ) ∧
      ceilTo d.es (s * bs + m : ℕ) ≤ sectorEnd d.es (p.blockCount * bs) := by
  have hle : p.blockCount * bs ≤ (p.firstBlock + p.blockCount) * bs :=
    Nat.mul_le_mul_right _ (Nat.le_add_left ..)
  refine ⟨?_, ?_, ?_, ?_⟩
  · rw [← Int.natCast_mul, i64_natCast (by omega)]
  · rw [← Int.natCast_add, i64_natCast (by omega)]
  · rw [floorTo_natCast (by omega)]
    exact Int.natCast_nonneg _
  · exact ceilTo_le es_pos (Nat.lt_of_le_of_lt es_le (by decide)) hin (by omega)

lemma readRuns_within {P : DriveCall → Prop} {F : ℤ} : ∀ (rs : List Run) (out : List UInt8) (h : Host),
    (∀ r ∈ rs, r.zero = false → P ⟨false, i64 (d.startBlock + (i64 (r.start + r.delta)).tdiv bs),
      i32 ((r.stop - r.start).tdiv bs)⟩) → h.Within bs P →
    wp (rs.foldlM (d.readRun bs F) out) (fun _ h' => h'.Within bs P) (fun _ h' => h'.Within bs P) h := by
  intro rs
  induction rs with
  | nil => exact fun _ _ _ hh => hh
  | cons r rs ih =>
    intro out h hrs hh
    have ih := fun out h hh => ih out h (fun r hr => hrs r (List.mem_cons_of_mem _ hr)) hh
    rw [List.foldlM_cons, wp_bind]
    unfold readRun
    rw [wp_ite]
    refine ⟨fun _ => ih _ _ hh, fun hz => ?_⟩
    simp only [wp_bind]
    refine hh.read (hrs r List.mem_cons_self (by simpa using hz)) (fun data h' _ _ hh' => ?_)
      (fun _ _ hh' => hh')
    refine wp_lift.2 ⟨fun _ _ => ?_, fun _ _ => hh'⟩
    exact wp_lift.2 ⟨fun _ _ => ih _ _ hh', fun _ _ => hh'⟩

lemma writeRuns_within {P : DriveCall → Prop} {aF : ℤ} {plain : List UInt8} :
    ∀ (rs : List Run) (h : Host),
    (∀ r ∈ rs, r.zero = false → ∀ n : ℕ, (n : ℤ) ≤ r.stop - r.start →
      P ⟨true, i64 (d.startBlock + (i64 (r.start + r.delta)).tdiv bs), (n / bs : ℕ)⟩) →
    (∀ r ∈ rs, r.start < r.stop) → h.Within bs P →
    wp (rs.forM (d.writeRun bs aF plain)) (fun _ h' => h'.Within bs P) (fun _ h' => h'.Within bs P)
      h := by
  intro rs
  induction rs with
  | nil => exact fun _ _ _ hh => hh
  | cons r rs ih =>
    intro h hrs hlt hh
    have ih := fun h hh => ih h (fun r hr => hrs r (List.mem_cons_of_mem _ hr))
      (fun r hr => hlt r (List.mem_cons_of_mem _ hr)) hh
    change wp (d.writeRun bs aF plain r >>= fun _ => rs.forM (d.writeRun bs aF plain)) _ _ h
    unfold writeRun
    simp only [wp_bind, wp_throwIf]
    refine ⟨fun _ => hh, fun hz => ?_⟩
    refine wp_lift.2 ⟨fun chunk hchunk => ?_, fun _ _ => hh⟩
    refine wp_lift.2 ⟨fun out hout => ?_, fun _ _ => hh⟩
    refine hh.write (hrs r List.mem_cons_self (by simpa using hz) _ ?_) (fun h' hh' => ih _ hh')
      (fun _ _ hh' => hh')
    have := hlt r List.mem_cons_self
    rw [SectorCipher.cryptSectors_length (orThrow_ok hout), copyOfRange_length hchunk]
    refine (i32_sub_le (by omega)).trans (by omega)

lemma readPlain_within (hbs : 0 < bs) (hlong : (p.firstBlock + p.blockCount) * bs < 2 ^ 63)
    (hstart : d.startBlock = p.firstBlock) (hfits : Fits bs p (.bitlocker d)) {aF aT : ℤ} (h0 : 0 ≤ aF)
    (hT : aT ≤ sectorEnd d.es (p.blockCount * bs)) {h : Host} (hh : h.Within bs (DriveCall.Inside p))
    {Q : List UInt8 → Host → Prop} {E : Thrown → Host → Prop}
    (hok : ∀ out h', h'.Within bs (DriveCall.Inside p) → Q out h')
    (herr : ∀ e h', h'.Within bs (DriveCall.Inside p) → E e h') : wp (d.readPlain bs aF aT) Q E h := by
  unfold readPlain
  simp only [wp_bind, wp_throwIf]
  refine ⟨fun _ => herr _ _ hh, fun _ => ?_⟩
  refine wp_mono (readRuns_within _ _ _ (fun r hr hz => ?_) hh) hok herr
  obtain ⟨h1, h2, h3, h4⟩ := run_inside hfits h0 hT r hr hz
  rw [hstart]
  refine run_call hbs hlong h3 h4 ?_
  obtain ⟨n, hn⟩ := Int.eq_ofNat_of_zero_le (show 0 ≤ r.stop - r.start by omega)
  rw [show r.stop + r.delta - (r.start + r.delta) = n by omega, hn, ← Int.ofNat_tdiv]
  exact i32_le (Int.natCast_nonneg _)

lemma bitlocker_stays (hbs : 0 < bs) (hlong : (p.firstBlock + p.blockCount) * bs < 2 ^ 63)
    (hstart : d.startBlock = p.firstBlock) (hcount : d.partitionBlocks = p.blockCount)
    (hfits : Fits bs p (.bitlocker d)) : StaysInside bs p (.bitlocker d) := by
  intro w r hw hsane
  have hempty : (⟨w, []⟩ : Host).Within bs (DriveCall.Inside p) :=
    ⟨hw, fun _ hc => absurd hc List.not_mem_nil⟩
  cases r with
  | read start count =>
    refine callsOf_within bs ?_
    simp only [Volume.serve, BitLockerBlockDevice.readBlocks, wp_bind, wp_get, hw]
    refine wp_lift.2 ⟨fun _ hr => ?_, fun _ _ => hempty⟩
    obtain ⟨hs, hc, hle⟩ := requireInRange_ok hr hsane
    obtain ⟨s, hs⟩ := Int.eq_ofNat_of_zero_le hs
    obtain ⟨n, hn⟩ := Int.eq_ofNat_of_zero_le hc
    rw [hs, hn, hcount] at hle
    have hin : s * bs + n * bs ≤ p.blockCount * bs := by
      rw [← Nat.add_mul]
      exact Nat.mul_le_mul_right _ (by omega)
    obtain ⟨hfrom, hto, h0, hT⟩ := bitlocker_range (d := d) hlong hin
    rw [hs, hn, hfrom, ← Int.natCast_mul n bs, hto]
    refine readPlain_within hbs hlong hstart hfits h0 hT hempty (fun _ _ hh => ?_) (fun _ _ hh => hh)
    rw [wp_ite]
    refine ⟨fun _ => hh, fun _ => ?_⟩
    rw [wp_lift]
    exact ⟨fun _ _ => hh, fun _ _ => hh⟩
  | write start data =>
    obtain ⟨⟨n, hlen⟩, -, hlong'⟩ := hsane
    have hblocks : data.length / bs = n := by rw [hlen, Nat.mul_div_cancel_left n hbs]
    refine callsOf_within bs ?_
    simp only [Volume.serve, BitLockerBlockDevice.writeBlocks, wp_bind, wp_get, hw]
    refine wp_lift.2 ⟨fun _ hr => ?_, fun _ _ => hempty⟩
    rw [wp_ite]
    obtain ⟨hs, -, hle⟩ := requireInRange_ok hr hlong'
    obtain ⟨s, hs⟩ := Int.eq_ofNat_of_zero_le hs
    rw [hs, hblocks, hcount] at hle
    have hin : s * bs + data.length ≤ p.blockCount * bs := by
      rw [hlen, Nat.mul_comm bs n, ← Nat.add_mul]
      exact Nat.mul_le_mul_right _ (by omega)
    obtain ⟨hfrom, hto, h0, hT⟩ := bitlocker_range (d := d) hlong hin
    rw [hs, hfrom, hto]
    have hwrite : ∀ (plain : List UInt8) (h : Host), h.Within bs (DriveCall.Inside p) →
        wp ((d.header.runs (floorTo d.es (s * bs : ℕ)) (ceilTo d.es (s * bs + data.length : ℕ))).forM
          (d.writeRun bs (floorTo d.es (s * bs : ℕ)) plain))
            (fun _ h' => h'.Within bs (DriveCall.Inside p))
          (fun _ h' => h'.Within bs (DriveCall.Inside p)) h := by
      intro plain h hh
      refine writeRuns_within _ _ (fun r hr hz m hm => ?_) (fun r hr => ?_) hh
      · obtain ⟨h1, h2, h3, h4⟩ := run_inside hfits h0 hT r hr hz
        rw [hstart]
        refine run_call hbs hlong h3 h4 (Int.ofNat_le.2 (Nat.div_le_div_right ?_))
        omega
      · exact runs_lt r hr
    refine ⟨fun _ => ?_, fun _ => ?_⟩
    · rw [wp_bind, wp_pure]
      exact hwrite _ _ hempty
    · rw [wp_bind]
      refine readPlain_within hbs hlong hstart hfits h0 hT hempty (fun _ _ hh => ?_) (fun _ _ hh => hh)
      rw [wp_bind, wp_lift]
      exact ⟨fun _ _ => hwrite _ _ hh, fun _ _ => hh⟩

lemma runs_sector {σ : ℤ} (hσ : (d.es : ℤ) ∣ σ) : ∃ r, d.header.runs σ (σ + d.es) = [r] ∧ r.start = σ ∧
    r.stop = σ + d.es ∧ d.header.shift σ = if r.zero then none else some r.delta := by
  have hpos : (0 : ℤ) < d.es := Int.natCast_pos.2 es_pos
  have hcover := runs_cover d.header σ (σ + d.es) (by omega)
  have haligned := runs_aligned (d := d) hσ (Int.dvd_add hσ (Int.dvd_refl _))
  cases hruns : d.header.runs σ (σ + d.es) with
  | nil =>
    rw [hruns] at hcover
    have : σ = σ + d.es := hcover
    omega
  | cons r rs =>
    rw [hruns] at hcover haligned
    obtain ⟨hstart, hlt, hshift, hrest⟩ := hcover
    have hstop : r.stop = σ + d.es := by
      have h1 := le_of_dvd_of_lt hpos (Int.dvd_add hσ (Int.dvd_refl _))
        (haligned r List.mem_cons_self).2 (by omega)
      have h2 := hrest.le
      omega
    have hshift := hshift σ (by omega) (by omega)
    cases rs with
    | nil => exact ⟨r, rfl, hstart, hstop, hshift⟩
    | cons r' rs =>
      obtain ⟨h1, h2, -, h4⟩ := hrest
      have := h4.le
      omega

lemma bitlocker_logged (w : Machine) (start count aF aT : ℤ) {r : Run} (h1 : 0 ≤ start) (h2 : 0 ≤ count)
    (h3 : start + count ≤ d.partitionBlocks) (hlong : (d.partitionBlocks : ℤ) < 2 ^ 63)
    (hF : floorTo d.es (i64 (start * w.blockSize)) = aF)
    (hT : ceilTo d.es (i64 (i64 (start * w.blockSize) + count * w.blockSize)) = aT)
    (hsize : ¬i32 (aT - aF) < 0) (hruns : d.header.runs aF aT = [r]) (hz : ¬r.zero = true) :
    (⟨false, i64 (d.startBlock + (i64 (r.start + r.delta)).tdiv w.blockSize),
      i32 ((r.stop - r.start).tdiv w.blockSize)⟩ : DriveCall) ∈
      callsOf (Volume.serve (.bitlocker d) (.read start count)) w := by
  refine mem_callsOf ?_
  simp only [Volume.serve, BitLockerBlockDevice.readBlocks, wp_bind, wp_get]
  rw [requireInRange_run h1 h2 h3 hlong, hF, hT]
  refine wp_lift.2 ⟨fun _ _ => ?_, fun _ he => (by cases he)⟩
  unfold readPlain
  simp only [wp_bind, wp_throwIf]
  refine ⟨fun h => absurd h hsize, fun _ => ?_⟩
  rw [hruns, List.foldlM_cons, wp_bind]
  unfold readRun
  rw [wp_ite]
  refine ⟨fun h => absurd h hz, fun _ => ?_⟩
  simp only [wp_bind]
  refine wp_readDrive_logged (fun _ _ hc => ?_) (fun _ _ hc => hc)
  rw [wp_lift]
  refine ⟨fun _ _ => ?_, fun _ _ => hc⟩
  rw [wp_lift]
  refine ⟨fun out _ => ?_, fun _ _ => hc⟩
  rw [List.foldlM_nil, wp_pure, wp_ite]
  refine ⟨fun _ => hc, fun _ => ?_⟩
  rw [wp_lift]
  exact ⟨fun _ _ => hc, fun _ _ => hc⟩

lemma sector_logged {w : Machine} {σ : ℕ} {δ : ℤ} (hbs : 0 < w.blockSize)
    (hdvd : w.blockSize ∣ d.es) (hσ : d.es ∣ σ) (hlt : σ < d.partitionBlocks * w.blockSize)
    (hlong : d.partitionBlocks * w.blockSize + d.es ≤ 2 ^ 63) (hs : d.header.shift σ = some δ) :
    (⟨false, i64 (d.startBlock + (i64 (σ + δ)).tdiv w.blockSize), (d.es / w.blockSize : ℕ)⟩ :
      DriveCall) ∈
      callsOf (Volume.serve (.bitlocker d) (.read (σ / w.blockSize : ℕ) 1)) w := by
  have hpos := es_pos (d := d)
  have hes := es_le (d := d)
  have hbsle : w.blockSize ≤ d.es := Nat.le_of_dvd hpos hdvd
  have hblock : σ / w.blockSize * w.blockSize = σ := Nat.div_mul_cancel (hdvd.trans hσ)
  have hindex : σ / w.blockSize < d.partitionBlocks :=
    Nat.div_lt_of_lt_mul (by rw [Nat.mul_comm]; exact hlt)
  have hend : σ + w.blockSize ≤ d.partitionBlocks * w.blockSize := by
    rw [← hblock, ← Nat.succ_mul]
    exact Nat.mul_le_mul_right _ hindex
  have hblocks : d.partitionBlocks ≤ d.partitionBlocks * w.blockSize := Nat.le_mul_of_pos_right _ hbs
  have hσlt : σ < 2 ^ 63 := by omega
  have hendlt : σ + w.blockSize < 2 ^ 63 := by omega
  have hceillt : σ + w.blockSize + (d.es - 1) < 2 ^ 63 := by omega
  have heslt : d.es < 2 ^ 31 := by omega
  have hcountlt : (d.partitionBlocks : ℤ) < 2 ^ 63 := by omega
  have hdiv : (σ + w.blockSize + (d.es - 1)) / d.es * d.es = σ + d.es := by
    obtain ⟨k, hk⟩ := hσ
    have : (σ + w.blockSize + (d.es - 1)) / d.es = k + 1 := by
      refine Nat.div_eq_of_lt_le ?_ ?_
      · rw [Nat.add_mul, Nat.mul_comm, ← hk]
        omega
      · rw [Nat.add_mul, Nat.add_mul, Nat.mul_comm k, ← hk]
        omega
    rw [this, Nat.add_mul, Nat.mul_comm k, ← hk, Nat.one_mul]
  have hcount : i32 ((d.es : ℤ).tdiv w.blockSize) = (d.es / w.blockSize : ℕ) := by
    rw [← Int.ofNat_tdiv, i32_natCast (Nat.lt_of_le_of_lt (Nat.div_le_self ..) heslt)]
  have hsub : (σ : ℤ) + d.es - σ = d.es := by omega
  obtain ⟨r, hruns, hrs, hrt, hshift⟩ := runs_sector (d := d) (Int.natCast_dvd_natCast.2 hσ)
  have hz : ¬r.zero = true := by
    intro hz
    rw [hs, if_pos hz] at hshift
    cases hshift
  rw [hs, if_neg hz] at hshift
  have hfrom : i64 (((σ / w.blockSize : ℕ) : ℤ) * w.blockSize) = σ := by
    rw [← Int.natCast_mul, hblock, i64_natCast hσlt]
  have hmem := bitlocker_logged w (σ / w.blockSize : ℕ) 1 σ (σ + d.es)
    (Int.natCast_nonneg _) (by decide) (Int.add_one_le_of_lt (Int.ofNat_lt.2 hindex)) hcountlt ?_ ?_
      ?_ hruns hz
  · rwa [hrs, hrt, ← Option.some.inj hshift, hsub, hcount] at hmem
  · rw [hfrom, floorTo_natCast hσlt, Nat.div_mul_cancel hσ]
  · rw [hfrom, Int.one_mul, ← Int.natCast_add, i64_natCast hendlt, ceilTo_natCast hpos hceillt, hdiv,
      Int.natCast_add]
  · rw [hsub, i32_natCast heslt]
    exact Int.not_lt.2 (Int.natCast_nonneg _)

lemma end_le_of_inside {a : ℤ} (hbs : 512 ≤ bs) (hdvd : bs ∣ d.es) (hp : p.firstBlock < 2 ^ 62)
    (h0 : 0 ≤ a) (ha : a < 2 ^ 64) (hes : (d.es : ℤ) ∣ a)
    (hin : (⟨false, i64 (p.firstBlock + (i64 a).tdiv bs), (d.es / bs : ℕ)⟩ : DriveCall).Inside p) :
    a + d.es ≤ (p.blockCount * bs : ℕ) := by
  have hpos : (0 : ℤ) < d.es := Int.natCast_pos.2 es_pos
  have hbs0 : 0 < bs := by omega
  have hbsle : bs ≤ d.es := Nat.le_of_dvd es_pos hdvd
  have hcount : 0 < d.es / bs := Nat.div_pos hbsle hbs0
  obtain ⟨h1, h2⟩ := bounds_of_inside hin (Int.natCast_pos.2 hcount)
  have hphys := es_dvd_i64 (d := d) hes
  obtain ⟨k, hk, hlo, hhi⟩ := i64_eq a
  generalize i64 a = phys at *
  rcases lt_or_ge phys 0 with hneg | hnonneg
  · -- a sector before the start of the drive
    obtain ⟨m, hm⟩ := Int.eq_ofNat_of_zero_le (show 0 ≤ -phys by omega)
    have hle := le_of_dvd_of_lt hpos (Int.dvd_refl _) ((Int.dvd_neg).2 hphys) (by omega)
    have hblocks : 1 ≤ m / bs := Nat.div_pos (by omega) hbs0
    have hle' : m / bs ≤ m := Nat.div_le_self ..
    rw [show phys = -(m : ℤ) by omega, Int.neg_tdiv, ← Int.ofNat_tdiv] at h1
    generalize m / bs = blocks at *
    rw [i64_of_range (by omega) (by omega)] at h1
    omega
  · obtain ⟨m, rfl⟩ := Int.eq_ofNat_of_zero_le hnonneg
    have hm : bs ∣ m := hdvd.trans (Int.natCast_dvd_natCast.1 hphys)
    have hle' : m / bs * 2 ≤ m := (Nat.mul_le_mul_left _ (by omega)).trans (Nat.div_mul_le_self m bs)
    have hsum : m / bs + d.es / bs ≤ p.blockCount := by
      rw [← Int.ofNat_tdiv] at h2
      generalize m / bs = blocks at *
      generalize d.es / bs = sectors at *
      rw [i64_of_range (by omega) (by omega)] at h2
      omega
    have := Nat.mul_le_mul_right bs hsum
    rw [Nat.add_mul, Nat.div_mul_cancel hm, Nat.div_mul_cancel hdvd] at this
    omega

lemma bitlocker_fits (hbs : 512 ≤ bs) (hdvd : bs ∣ d.es) (hlong : p.blockCount * bs + d.es ≤ 2 ^ 63)
    (hp : p.firstBlock < 2 ^ 62) (hstart : d.startBlock = p.firstBlock)
    (hcount : d.partitionBlocks = p.blockCount) (hoffset : d.header.volumeHeaderOffset < 2 ^ 63)
    (hstays : StaysInside bs p (.bitlocker d)) : Fits bs p (.bitlocker d) := by
  have hpos : (0 : ℤ) < d.es := Int.natCast_pos.2 es_pos
  obtain ⟨h0, hsize, hsizedvd, hoffdvd, -⟩ := aligned_of_supported d.supported
  have hplace : ∀ {σ : ℕ} {δ : ℤ}, d.es ∣ σ → σ < p.blockCount * bs → d.header.shift σ = some δ →
      (σ : ℤ) + δ + d.es ≤ (p.blockCount * bs : ℕ) := by
    intro σ δ hσ hlt hs
    have hmem :=
      sector_logged (w := ⟨bs, 0, fun _ => 0, fun _ => 0, by omega⟩) (by dsimp only; omega) hdvd hσ
      (by rwa [hcount]) (by rwa [hcount]) hs
    have hin := hstays _ (.read (σ / bs : ℕ) 1) rfl ?_ _ hmem
    · dsimp only at hin
      rw [hstart] at hin
      refine end_le_of_inside hbs hdvd hp ?_ ?_ ?_ hin
      · rcases shift_cases hs with ⟨-, rfl⟩ | ⟨-, -, rfl⟩ <;> omega
      · rcases shift_cases hs with ⟨-, rfl⟩ | ⟨-, -, rfl⟩ <;> omega
      · refine Int.dvd_add (Int.natCast_dvd_natCast.2 hσ) ?_
        rcases shift_cases hs with ⟨-, rfl⟩ | ⟨-, -, rfl⟩
        · exact hoffdvd
        · exact Int.dvd_zero _
    · have hle : σ / bs ≤ σ := Nat.div_le_self ..
      show ((σ / bs : ℕ) : ℤ) + 1 < 2 ^ 63
      generalize σ / bs = block at *
      omega
  obtain ⟨hL, hend, hdvdEnd⟩ := sectorEnd_bounds (es_pos (d := d)) (p.blockCount * bs)
  refine ⟨?_, ?_⟩
  · rcases Nat.eq_zero_or_pos p.blockCount with hzero | hsome
    · exact .inl hzero
    -- the last sector of the moved bytes
    have hlen : 0 < p.blockCount * bs := Nat.mul_pos hsome (by omega)
    have hmin : (d.es : ℤ) ∣ min d.header.volumeHeaderSize (sectorEnd d.es (p.blockCount * bs)) := by
      rcases min_choice d.header.volumeHeaderSize (sectorEnd d.es (p.blockCount * bs) : ℤ) with h
        | h <;> rw [h]
      · exact hsizedvd
      · exact Int.natCast_dvd_natCast.2 hdvdEnd
    have hle := le_of_dvd_of_lt hpos (Int.dvd_refl _) hmin (by omega)
    obtain ⟨σ, hσ⟩ := Int.eq_ofNat_of_zero_le
      (show 0 ≤ min d.header.volumeHeaderSize (sectorEnd d.es (p.blockCount * bs)) - d.es by omega)
    have hshift : d.header.shift σ = some d.header.volumeHeaderOffset := if_pos (by omega)
    have := hplace (Int.natCast_dvd_natCast.1 (hσ ▸ Int.dvd_sub hmin (Int.dvd_refl _))) (by omega) hshift
    exact .inr (by omega)
  · -- the sector that the partition ends in
    by_contra hnot
    obtain ⟨hndvd, hge, hhole⟩ : ¬d.es ∣ p.blockCount * bs ∧
        ¬((p.blockCount * bs / d.es * d.es : ℕ) : ℤ) < d.header.volumeHeaderSize ∧
        ¬d.header.holes.any (·.contains (p.blockCount * bs / d.es * d.es : ℕ)) = true := by
      simpa only [not_or] using hnot
    have hdiv := Nat.div_add_mod' (p.blockCount * bs) d.es
    have hmod := Nat.mod_lt (p.blockCount * bs) (es_pos (d := d))
    have hrest : p.blockCount * bs % d.es ≠ 0 := fun h => hndvd (Nat.dvd_of_mod_eq_zero h)
    have hshift : d.header.shift (p.blockCount * bs / d.es * d.es : ℕ) = some 0 := by
      rw [shift, if_neg hge, if_neg hhole]
    have := hplace (Dvd.intro_left _ rfl) (by omega) hshift
    omega

end Bitlocker

/-! ### All volumes -/

lemma sectorSize_dvd {n : ℕ} (h : n ∈ [1024, 2048, 4096]) : n ∣ 2 ^ 63 ∧ 0 < n ∧ n < 2 ^ 31 := by
  simp only [List.mem_cons, List.not_mem_nil, or_false] at h
  rcases h with rfl | rfl | rfl <;> decide

/-- **A volume stays inside its partition if the header places it there**, and only then where its
sectors are made of whole blocks. -/
theorem calls_inside_iff {bs : ℕ} {p : Slice} {v : Volume} (hbs : 0 < bs)
    (hlong : (p.firstBlock + p.blockCount) * bs < 2 ^ 63) (hmade : MadeFrom bs p v) :
    (Fits bs p v → StaysInside bs p v) ∧ (Regular bs p v → (StaysInside bs p v ↔ Fits bs p v)) := by
  have hblocks : p.firstBlock + p.blockCount < 2 ^ 63 :=
    Nat.lt_of_le_of_lt (Nat.le_mul_of_pos_right _ hbs) hlong
  have hsmall : 512 ≤ bs → p.firstBlock + p.blockCount < 2 ^ 62 := fun h => by
    have := Nat.mul_le_mul_left (p.firstBlock + p.blockCount) h
    omega
  have hoffset : ∀ n : ℤ, -2 ^ 63 ≤ payloadOffsetBlocks bs n ∧ payloadOffsetBlocks bs n < 2 ^ 63 := by
    intro n
    obtain ⟨-, -, hlo, hhi⟩ := i64_eq (n * 512)
    unfold payloadOffsetBlocks
    generalize i64 (n * 512) = a at *
    rcases le_total 0 a with h | h
    · obtain ⟨m, rfl⟩ := Int.eq_ofNat_of_zero_le h
      have hle := Nat.div_le_self m bs
      rw [← Int.ofNat_tdiv]
      generalize m / bs = blocks at *
      omega
    · obtain ⟨m, hm⟩ := Int.eq_ofNat_of_zero_le (show 0 ≤ -a by omega)
      have hle := Nat.div_le_self m bs
      rw [show a = -(m : ℤ) by omega, Int.neg_tdiv, ← Int.ofNat_tdiv]
      generalize m / bs = blocks at *
      omega
  cases hmade with
  | veracrypt library masterKey ids =>
    have hle : 131072 / bs ≤ 131072 := Nat.div_le_self ..
    generalize 131072 / bs = offset at *
    obtain ⟨n, hn⟩ : ∃ n : ℤ, n = offset := ⟨_, rfl⟩
    rw [← hn]
    have hstays : Fits bs p (.native library (decryptedAt p n masterKey ids n)) →
        StaysInside bs p (.native library (decryptedAt p n masterKey ids n)) :=
      fun h => native_stays hblocks (by omega) (by omega) h
    exact ⟨hstays, fun h => ⟨native_fits (hsmall h) (by omega) (by omega), hstays⟩⟩
  | luks library masterKey n _ =>
    have hstays :
    Fits bs p (.native library (decryptedAt p (payloadOffsetBlocks bs n) masterKey aesOnly 0)) →
        StaysInside bs p
            (.native library (decryptedAt p (payloadOffsetBlocks bs n) masterKey aesOnly 0)) :=
      fun h => native_stays hblocks (hoffset n).1 (hoffset n).2 h
    refine ⟨hstays, fun h => ⟨fun hs => ?_, hstays⟩⟩
    obtain ⟨h1, h2⟩ := payloadOffsetBlocks_bounds h n
    exact native_fits (hsmall h) (by omega) (by omega) hs
  | @largeSector n ivTweak sectorSize hsize hdvd cipher =>
    obtain ⟨h63, hpos, h31⟩ := sectorSize_dvd hsize
    obtain ⟨k, rfl⟩ : ∃ k, sectorSize = k * bs :=
      ⟨_, (Nat.div_mul_cancel (Nat.dvd_of_mod_eq_zero hdvd)).symm⟩
    have hk : 0 < k := Nat.pos_of_mul_pos_right hpos
    have hfits : Fits bs p (.largeSector (largeSectorAt p (payloadOffsetBlocks bs n) ivTweak cipher)) ↔
        ((p.firstBlock : ℤ) ≤ i64 (p.firstBlock + payloadOffsetBlocks bs n) ∨
          i64 (p.blockCount - payloadOffsetBlocks bs n) < k) := by
      show (_ ∨ _ < ((k * bs / bs : ℕ) : ℤ)) ↔ _
      rw [Nat.mul_div_cancel k hbs]
    have hstays : _ →
        StaysInside bs p
            (.largeSector (largeSectorAt p (payloadOffsetBlocks bs n) ivTweak cipher)) :=
      fun h => largeSector_stays hbs h63 hlong (hoffset n).1 (hoffset n).2 (hfits.1 h)
    refine ⟨hstays, fun h => ⟨fun hs => hfits.2 ?_, hstays⟩⟩
    obtain ⟨h1, h2⟩ := payloadOffsetBlocks_bounds h n
    exact largeSector_fits hk hbs h31 (hsmall h) (by omega) (by omega) hs
  | bitlocker d hstart hcount hoff =>
    have hstays : Fits bs p (.bitlocker d) → StaysInside bs p _ :=
      bitlocker_stays hbs hlong hstart hcount
    refine ⟨hstays, fun h => ⟨fun hs => ?_, hstays⟩⟩
    have := hsmall h.1
    exact bitlocker_fits h.1 h.2.1 h.2.2 (by omega) hstart hcount hoff hs

/-- A partition of 16 blocks behind another one, on a drive of zeros. -/
def samplePartition : Slice := ⟨8, 16⟩

def sampleDrive : Machine := ⟨512, 1024, fun _ => 0, fun _ => 0, by decide⟩

def sampleLuks (payloadOffsetSectors : ℤ) : Volume :=
  .native plainNative (decryptedAt samplePartition (payloadOffsetBlocks 512 payloadOffsetSectors)
    (List.replicate 64 0) aesOnly 0)

/-- The parser accepts an offset of -512 bytes, and the volume then reads the block before its
partition. The last block of an odd BitLocker partition is written together with seven blocks of the
next partition. -/
theorem calls_outside :
    toLong ['-', '5', '1', '2'] = .ok (-512) ∧ MadeFrom 512 samplePartition (sampleLuks (-1)) ∧
    callsOf ((sampleLuks (-1)).serve (.read 0 1)) sampleDrive = [⟨false, 7, 1⟩] ∧
    MadeFrom 512 ⟨0, 513⟩ (.bitlocker BitLockerBlockDevice.unevenDevice) ∧
    callsOf (Volume.serve (.bitlocker BitLockerBlockDevice.unevenDevice)
      (.write 512 (List.replicate 512 1))) sampleDrive =
      [⟨false, 512, 8⟩, ⟨true, 512, 8⟩] ∧
    ¬(⟨false, 7, 1⟩ : DriveCall).Inside samplePartition ∧
    ¬(⟨true, 512, 8⟩ : DriveCall).Inside ⟨0, 513⟩ := by
  refine ⟨rfl, .luks plainNative _ (-1) (by decide),
    by decide +kernel, .bitlocker BitLockerBlockDevice.unevenDevice rfl rfl (by decide),
    by decide +kernel, fun h => ?_, fun h => ?_⟩
  · have := (bounds_of_inside h (by decide)).1
    exact absurd this (by decide)
  · have := (bounds_of_inside h (by decide)).2
    exact absurd this (by decide)

theorem calls_inside_iff_sample : MadeFrom 512 samplePartition (sampleLuks 4) ∧
    StaysInside 512 samplePartition (sampleLuks 4) := by
  have hmade : MadeFrom 512 samplePartition (sampleLuks 4) := .luks plainNative _ 4 (by decide)
  exact ⟨hmade, (calls_inside_iff (by decide) (by decide) hmade).1 (by show (8 : ℤ) ≤ _; decide)⟩

end OtgMaster.Unlocked
