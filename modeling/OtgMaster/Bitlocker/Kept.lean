import OtgMaster.Bitlocker.Sound

/-!
An unlocked BitLocker volume over whole runs of requests. Beside the drive, a `Story` keeps what the
requests have made of the plaintext (`latest`): a write that returns puts its data there, and of one
that fails only the bytes of its range may have changed. As long as the requests are ones that the
check of the range can judge (`Careful`), that is the plaintext that the drive holds
(`plaintext_kept`). The check adds the start and the length in a `Long`, and the sum wraps: a
request for the last block of all `Long`s is let through, and writes a sector that it does not name
(`wrapped_write`).
-/

namespace OtgMaster.Bitlocker

open Lib Block BitLockerHeader

/-- The drive, and the plaintext that the requests so far should have left. -/
structure Story where
  host : Host
  latest : Bytes

namespace BitLockerBlockDevice

/-- The range of the request ends before the `Long`s do, and holds whole blocks and an array's worth
of bytes. -/
def Careful (s : Story) : Request → Prop
  | .read start count => start + count < 2 ^ 63 ∧ count * s.host.drive.blockSize < 2 ^ 31
  | .write start data => s.host.drive.blockSize ∣ data.length ∧ data.length < 2 ^ 31 ∧
      start + (data.length / s.host.drive.blockSize : ℕ) < 2 ^ 63

variable (d : BitLockerBlockDevice)

def step (s : Story) : Request → Story
  | .read start count =>
    match d.readBlocks start count s.host with
    | .ok _ h | .error _ h => ⟨h, s.latest⟩
  | .write start data =>
    match d.writeBlocks start data s.host with
    | .ok _ h => ⟨h, overwrite s.latest (start * h.drive.blockSize).toNat data⟩
    | .error _ h =>
      let fromByte := start * h.drive.blockSize
      ⟨h, fun p => if fromByte ≤ p ∧ p < fromByte + data.length then d.plainAt h.drive p else s.latest p⟩

def SparesMetadata (blockSize : ℕ) (c : DriveCall) : Prop :=
  ∀ b : ℤ, c.start * blockSize ≤ b → b < (c.start + c.count) * blockSize →
    ¬InMetadata d.header (b - d.startBlock * blockSize)

/-- What holds of a volume after the requests of `s`. -/
structure Kept (s : Story) : Prop where
  /-- Every byte is the one last written. -/
  plaintext : d.plainAt s.host.drive = s.latest
  /-- A read returns these bytes. -/
  read : ∀ start count data h, Careful s (.read start count) →
    d.readBlocks start count s.host = .ok data h →
    data = s.latest.slice (start * s.host.drive.blockSize).toNat (count * s.host.drive.blockSize).toNat
  /-- A read inside the partition returns. -/
  reads : ∀ start count : ℤ, Careful s (.read start count) → 0 ≤ count →
    d.Servable s.host.drive start count.toNat (count.toNat * s.host.drive.blockSize) →
    ∃ data h, d.readBlocks start count s.host = .ok data h
  /-- A write inside the partition returns, if there is no reserved byte among its sectors. -/
  writes : ∀ start data, Careful s (.write start data) →
    d.Servable s.host.drive start (data.length / s.host.drive.blockSize) data.length →
    (∀ q, ¬d.FirstReserved s.host.drive start data q) → ∃ h, d.writeBlocks start data s.host = .ok ⟨⟩ h
  reserved : ∀ p : ℕ, Reserved d.header p → s.latest p = 0
  metadata : ∀ c ∈ s.host.calls, c.write = true → d.SparesMetadata s.host.drive.blockSize c

section Steps

variable {d} {s : Story} {h h' : Host}

lemma Served.spares (hon : d.On h.drive)
    (hs : d.Served 0 (d.partitionBlocks * h.drive.blockSize) true h h')
    (hbefore : ∀ c ∈ h.calls, c.write = true → d.SparesMetadata h.drive.blockSize c) :
    ∀ c ∈ h'.calls, c.write = true → d.SparesMetadata h.drive.blockSize c := by
  obtain ⟨cs, hcs, hall⟩ := hs
  intro c hc hw
  rw [hcs] at hc
  rcases List.mem_append.1 hc with hc | hc
  · exact hbefore c hc hw
  obtain ⟨-, a, n, δ, -, hn, hrun, hstart, hcount⟩ := hall c hc
  intro b hb hb'
  rw [Int.add_mul, hstart, hcount] at hb'
  rw [hstart] at hb
  have hplace := hrun (b - d.startBlock * h.drive.blockSize - δ) (by omega) (by omega)
  have hspared := place_not_metadata hon.areas d.headerSize_pos hon.length_lt (by omega) hplace
  rwa [Int.sub_add_cancel] at hspared

lemma Served.spares_read (hs : d.Served 0 (d.partitionBlocks * h.drive.blockSize) false h h')
    (hbefore : ∀ c ∈ h.calls, c.write = true → d.SparesMetadata h.drive.blockSize c) :
    ∀ c ∈ h'.calls, c.write = true → d.SparesMetadata h.drive.blockSize c := by
  obtain ⟨cs, hcs, hall⟩ := hs
  intro c hc hw
  rw [hcs] at hc
  rcases List.mem_append.1 hc with hc | hc
  · exact hbefore c hc hw
  · rw [(hall c hc).1] at hw
    cases hw

structure Inv (d : BitLockerBlockDevice) (s : Story) : Prop where
  on : d.On s.host.drive
  plaintext : d.plainAt s.host.drive = s.latest
  metadata : ∀ c ∈ s.host.calls, c.write = true → d.SparesMetadata s.host.drive.blockSize c

lemma Inv.read_keeps (hi : d.Inv s) {start count : ℤ} (hc : Careful s (.read start count)) :
    d.Inv (d.step s (.read start count)) := by
  have hread := wp_readBlocks hi.on hc.1 hc.2
  have hkeeps : ∀ g : Host, g.drive = s.host.drive →
      d.Served 0 (d.partitionBlocks * s.host.drive.blockSize) false s.host g → d.Inv ⟨g, s.latest⟩ := by
    intro g hg hserved
    have hspared := hserved.spares_read hi.metadata
    rw [← hg] at hspared
    exact ⟨hg ▸ hi.on, hg ▸ hi.plaintext, hspared⟩
  unfold wp at hread
  cases hrun : d.readBlocks start count s.host with
  | ok data g =>
    rw [hrun] at hread
    simp only [step, hrun]
    exact hkeeps _ hread.2.2.2.2.1 hread.2.2.2.2.2
  | error e g =>
    rw [hrun] at hread
    simp only [step, hrun]
    exact hkeeps _ hread.1 hread.2.1

lemma Wrote.inv (hi : d.Inv s) {g : Host} (hw : d.Wrote s.host g) {latest : Bytes}
    (hp : d.plainAt g.drive = latest) : d.Inv ⟨g, latest⟩ := by
  obtain ⟨mid, hreads, hmid, hwrites⟩ := hw.calls
  have hspared := hreads.spares_read hi.metadata
  rw [← hmid] at hspared hwrites
  have hspared := hwrites.spares (hmid ▸ hi.on) hspared
  rw [hmid, ← hw.blockSize] at hspared
  exact ⟨hi.on.of_eq hw.blockSize hw.blockCount, hp, hspared⟩

lemma Inv.write_keeps (hi : d.Inv s) {start : ℤ} {data : List UInt8}
    (hc : Careful s (.write start data)) : d.Inv (d.step s (.write start data)) := by
  have hwrite := wp_writeBlocks hi.on hc.1 hc.2.2 hc.2.1
  unfold wp at hwrite
  cases hrun : d.writeBlocks start data s.host with
  | ok _ g =>
    rw [hrun] at hwrite
    obtain ⟨h0, hw, hp⟩ := hwrite
    simp only [step, hrun]
    refine hw.inv hi (hp.trans ?_)
    rw [hi.plaintext, hw.blockSize, Int.toNat_mul h0 (Int.natCast_nonneg _), Int.toNat_natCast]
  | error e g =>
    rw [hrun] at hwrite
    obtain ⟨hw, hp⟩ := hwrite
    simp only [step, hrun]
    refine hw.inv hi (funext fun p => ?_)
    split
    · rfl
    · rename_i hout
      rw [hw.blockSize] at hout
      rw [← hi.plaintext]
      rcases hp with hp | ⟨h0, hp⟩
      · rw [hp]
      · refine hp p fun hin => hout ?_
        rw [← Int.toNat_of_nonneg h0, ← Int.natCast_mul]
        omega

end Steps

/-- **An unlocked volume holds what was written to it.** The places of the bytes that can be written
are distinct, a range is split into runs that cover it once and in order, and through any run of
careful requests every byte is the one last written, reads and writes inside the partition return,
reserved bytes are zeros, and no write reaches a metadata area. -/
theorem plaintext_kept (d : BitLockerBlockDevice) (w : Machine) (hon : d.On w) :
    (∀ p q δ δ' : ℤ, 0 ≤ p → 0 ≤ q → d.header.shift p = some δ → d.header.shift q = some δ' →
      p + δ = q + δ' → p = q) ∧
      (∀ lo hi : ℤ, lo ≤ hi → Cover d.header lo hi (d.header.runs lo hi)) ∧
      ∀ s, Reaches (fun s a s' => s' = d.step s a) Careful ⟨⟨w, []⟩, d.plainAt w⟩ s → d.Kept s := by
  refine ⟨fun p q δ δ' => place_inj hon.areas d.headerSize_pos hon.length_lt,
    fun lo hi h => runs_cover _ _ _ h, fun s hr => ?_⟩
  have hi : d.Inv s := by
    refine hr.invariant (I := d.Inv) ⟨hon, rfl, fun _ hc => absurd hc List.not_mem_nil⟩ fun s a s'
      hi hc hs => ?_
    subst hs
    cases a with
    | read start count => exact hi.read_keeps hc
    | write start data => exact hi.write_keeps hc
  refine ⟨hi.plaintext, fun start count data h hc hok => ?_, fun start count hc h0 hserve => ?_,
    fun start data hc hserve hfree => ?_, fun p hp => ?_, hi.metadata⟩
  · have hread := wp_readBlocks hi.on hc.1 hc.2
    unfold wp at hread
    rw [hok] at hread
    obtain ⟨h1, h2, -, hdata, -⟩ := hread
    rw [hdata, hi.plaintext, Int.toNat_mul h1 (Int.natCast_nonneg _),
      Int.toNat_mul h2 (Int.natCast_nonneg _), Int.toNat_natCast]
  · have hread := wp_readBlocks hi.on hc.1 hc.2
    cases hrun : d.readBlocks start count s.host with
    | ok data h => exact ⟨data, h, rfl⟩
    | error e h => exact absurd hserve ((wp_error hread hrun).2.2 h0)
  · have hwrite := wp_writeBlocks_cut hi.on hc.1 hc.2.2 hc.2.1
    cases hrun : d.writeBlocks start data s.host with
    | ok _ h => exact ⟨h, rfl⟩
    | error e h =>
      rcases wp_error hwrite hrun with ⟨-, -, hnot⟩ | ⟨q, -, hq, -⟩
      · exact absurd hserve hnot
      · exact absurd hq (hfree q)
  · rw [← hi.plaintext]
    exact plainAt_reserved hi.on hp

/-! ### A small volume -/

def sampleHeader : BitLockerHeader where
  sectorSize := 512
  metadataOffsets := [65536, 131072, 196608]
  volumeHeaderOffset := 1024
  volumeHeaderSize := 512
  guidNormal := true
  currState := 4
  nextState := 4
  fvek := true
  encryption := 0x8004
  sectorSize_eq := .inl rfl
  threeCopies := rfl

def sampleDevice : BitLockerBlockDevice where
  startBlock := 0
  partitionBlocks := 512
  header := sampleHeader
  supported := rfl
  cipher := ⟨fun _ _ l => l, fun _ _ _ => rfl, fun _ _ _ => rfl⟩

/-- A volume of 4 KiB sectors, the last one not whole. -/
def unevenDevice : BitLockerBlockDevice where
  startBlock := 0
  partitionBlocks := 513
  header := { sampleHeader with
    sectorSize := 4096, volumeHeaderOffset := 16384, volumeHeaderSize := 4096,
    sectorSize_eq := .inr rfl }
  supported := rfl
  cipher := ⟨fun _ _ l => l, fun _ _ _ => rfl, fun _ _ _ => rfl⟩

def sampleDrive : Machine := ⟨512, 512, fun _ => 0, fun _ => 0, by decide⟩

lemma sample_on : sampleDevice.On sampleDrive where
  blockSize_pos := by decide
  block_dvd := by decide
  whole := by decide
  inside := by decide
  areas := ⟨by decide, by decide, by decide, by decide, by decide, by decide⟩

/-- A write of one block at the largest `Long` is let through, and changes the block at byte 512. -/
theorem wrapped_write : sampleDevice.On sampleDrive ∧
    ∃ h, sampleDevice.writeBlocks (2 ^ 63 - 1) (List.replicate 512 1) ⟨sampleDrive, []⟩ = .ok ⟨⟩ h ∧
      sampleDevice.plainAt sampleDrive 512 = 0 ∧ sampleDevice.plainAt h.drive 512 = 1 := by
  have hplain :
      (match sampleDevice.writeBlocks (2 ^ 63 - 1) (List.replicate 512 1) ⟨sampleDrive, []⟩ with
      | .ok _ h => decide (sampleDevice.plainAt h.drive 512 = 1)
      | .error _ _ => false) = true := by
    decide +kernel
  refine ⟨sample_on, ?_⟩
  generalize sampleDevice.writeBlocks (2 ^ 63 - 1) (List.replicate 512 1) ⟨sampleDrive, []⟩ =
    result at hplain ⊢
  cases result with
  | ok _ h => exact ⟨h, rfl, by decide +kernel, of_decide_eq_true hplain⟩
  | error _ _ => cases hplain

/-- Blocks are written over one another, in the moved first sector and up to a hole, which refuses
the rest, and some are read. -/
def sampleRequests : List Request :=
  [.write 5 (List.replicate 1536 1), .write 0 (List.replicate 512 2), .write 6 (List.replicate 512 3),
    .write 1 (List.replicate 1024 4), .read 0 8, .read 1000 1]

instance Careful.instDecidable (s : Story) : ∀ r, Decidable (Careful s r)
  | .read .. => inferInstanceAs (Decidable (_ ∧ _))
  | .write .. => inferInstanceAs (Decidable (_ ∧ _ ∧ _))

theorem plaintext_kept_sample :
    ∃ s, sampleRequests.foldlM (fun s r => some (sampleDevice.step s r))
        ⟨⟨sampleDrive, []⟩, sampleDevice.plainAt sampleDrive⟩ = some s ∧ sampleDevice.Kept s ∧
      s.latest 0 = 2 ∧ s.latest 512 = 4 ∧ s.latest 1024 = 0 ∧ s.latest 2560 = 1 ∧ s.latest 3072 = 3 := by
  have hrun : (sampleRequests.foldlM (fun s r => some (sampleDevice.step s r))
      ⟨⟨sampleDrive, []⟩, sampleDevice.plainAt sampleDrive⟩).any (fun s => s.latest 0 = 2 ∧
      s.latest 512 = 4 ∧
        s.latest 1024 = 0 ∧ s.latest 2560 = 1 ∧ s.latest 3072 = 3) = true := by decide +kernel
  have hmet : Met (fun s r => some (sampleDevice.step s r)) Careful
      ⟨⟨sampleDrive, []⟩, sampleDevice.plainAt sampleDrive⟩ sampleRequests := by decide +kernel
  obtain ⟨s, hs, hlatest⟩ := (Option.any_eq_true ..).1 hrun
  refine ⟨s, hs, (plaintext_kept sampleDevice sampleDrive sample_on).2.2 s ?_, of_decide_eq_true hlatest⟩
  have hreach := Reaches.init.of_run hmet hs
  clear hs hlatest
  induction hreach with
  | init => exact .init
  | step _ hcareful hstep ih => exact ih.step hcareful (Option.some.inj hstep).symm

end BitLockerBlockDevice

end OtgMaster.Bitlocker
