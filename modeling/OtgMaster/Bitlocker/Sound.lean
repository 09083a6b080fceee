import OtgMaster.Bitlocker.BlockDevice
import OtgMaster.Lib.Run
import Mathlib.Data.List.GetD

/-!
The plaintext of a BitLocker volume is kept by its block device: a read returns what was last
written, a write changes its own range only, and no write reaches a metadata area.

The plaintext is a function of the bytes of the drive (`plainAt`). Each byte that can be written has
one place on the partition (`place_inj`), and the sectors of a run lie where the bytes of the run
have their places, so that a run written to the drive is the same run written to the plaintext
(`plainAt_written`).
-/

namespace OtgMaster.Bitlocker

open Lib Block BitLockerHeader

/-! ### The areas of the header -/

section Header

variable {h : BitLockerHeader}

lemma aligned_of_supported (hs : h.unsupportedReason = none) :
    0 ≤ h.volumeHeaderOffset ∧ 0 < h.volumeHeaderSize ∧ (h.sectorSize : ℤ) ∣ h.volumeHeaderSize ∧
      (h.sectorSize : ℤ) ∣ h.volumeHeaderOffset ∧ ∀ o ∈ h.metadataOffsets, (h.sectorSize : ℤ) ∣ o := by
  unfold unsupportedReason at hs
  split at hs
  · cases hs
  split at hs
  · cases hs
  split at hs
  · cases hs
  split at hs
  · cases hs
  split at hs
  · cases hs
  rename_i h1 h2
  simp only [ne_eq, List.any_eq_true, decide_eq_true_eq, not_or, not_not, not_exists, not_and] at h1 h2
  refine ⟨by omega, by
    omega, Int.dvd_of_tmod_eq_zero h2.1, Int.dvd_of_tmod_eq_zero h2.2.1, fun o ho => ?_⟩
  exact Int.dvd_of_tmod_eq_zero (h2.2.2 o ho)

def InMetadata (h : BitLockerHeader) (p : ℤ) : Prop :=
  ∃ o ∈ h.metadataOffsets, o ≤ p ∧ p < o + METADATA_AREA_SIZE

/-- The bytes that are reserved: the metadata areas, and the place that the first bytes were moved
to. -/
def Reserved (h : BitLockerHeader) (p : ℤ) : Prop :=
  InMetadata h p ∨ h.volumeHeaderOffset ≤ p ∧ p < h.volumeHeaderOffset + h.volumeHeaderSize

/-- The areas of the header lie inside the first `length` bytes, without a byte in common. -/
structure AreasApart (h : BitLockerHeader) (length : ℤ) : Prop where
  metadata_inside : ∀ o ∈ h.metadataOffsets, 0 ≤ o ∧ o + METADATA_AREA_SIZE ≤ length
  relocated_inside : 0 ≤ h.volumeHeaderOffset ∧ h.volumeHeaderOffset + h.volumeHeaderSize ≤ length
  metadata_apart : h.metadataOffsets.Pairwise fun o o' => o + METADATA_AREA_SIZE ≤ o' ∨
    o' + METADATA_AREA_SIZE ≤ o
  relocated_apart : ∀ o ∈ h.metadataOffsets, o + METADATA_AREA_SIZE ≤ h.volumeHeaderOffset ∨
    h.volumeHeaderOffset + h.volumeHeaderSize ≤ o
  leading_metadata : ∀ o ∈ h.metadataOffsets, h.volumeHeaderSize ≤ o
  leading_relocated : h.volumeHeaderSize ≤ h.volumeHeaderOffset

variable {length p q δ δ' : ℤ}

lemma until_contains {lo hi : ℤ} (hhi : -2 ^ 63 < hi) : (LongRange.until lo hi).contains p = true ↔
    lo ≤ p ∧ p < hi := by
  rw [LongRange.until, if_neg (by omega)]
  simp only [LongRange.contains, Bool.and_eq_true, decide_eq_true_eq]
  omega

lemma holes_any (ha : AreasApart h length) (hpos : 0 < h.volumeHeaderSize) (hlong : length < 2 ^ 63) :
    h.holes.any (·.contains p) = true ↔ Reserved h p := by
  have hmem : ∀ r, r ∈ h.holes ↔
    r ∈ h.metadataOffsets.map (fun o => LongRange.until o (i64 (o + METADATA_AREA_SIZE))) ∨
      r = LongRange.until h.volumeHeaderOffset (i64 (h.volumeHeaderOffset + h.volumeHeaderSize)) := by
    intro r
    rw [holes, List.mem_insertionSort, List.mem_append, List.mem_singleton]
  have hmeta : ∀ o ∈ h.metadataOffsets, i64 (o + METADATA_AREA_SIZE) = o + METADATA_AREA_SIZE := by
    intro o ho
    have := ha.metadata_inside o ho
    exact i64_of_lt (by unfold METADATA_AREA_SIZE at *; omega) (by omega)
  have hrel : i64 (h.volumeHeaderOffset + h.volumeHeaderSize) = h.volumeHeaderOffset +
      h.volumeHeaderSize := by
    have := ha.relocated_inside
    exact i64_of_lt (by omega) (by omega)
  have hbound : -2 ^ 63 < h.volumeHeaderOffset + h.volumeHeaderSize := by
    have := ha.relocated_inside
    omega
  rw [List.any_eq_true]
  constructor
  · rintro ⟨r, hr, hc⟩
    rcases (hmem r).1 hr with hr | rfl
    · obtain ⟨o, ho, rfl⟩ := List.mem_map.1 hr
      have hb := (ha.metadata_inside o ho).1
      rw [hmeta o ho, until_contains (by unfold METADATA_AREA_SIZE; omega)] at hc
      exact Or.inl ⟨o, ho, hc⟩
    · rw [hrel, until_contains hbound] at hc
      exact Or.inr hc
  · rintro (⟨o, ho, hc⟩ | hc)
    · refine ⟨_, (hmem _).2 (Or.inl (List.mem_map.2 ⟨o, ho, rfl⟩)), ?_⟩
      have hb := (ha.metadata_inside o ho).1
      rw [hmeta o ho, until_contains (by unfold METADATA_AREA_SIZE; omega)]
      exact hc
    · refine ⟨_, (hmem _).2 (Or.inr rfl), ?_⟩
      rw [hrel, until_contains hbound]
      exact hc

lemma le_of_reserved (ha : AreasApart h length) (hr : Reserved h p) : h.volumeHeaderSize ≤ p := by
  rcases hr with ⟨o, ho, h1, -⟩ | ⟨h1, -⟩
  · have := ha.leading_metadata o ho
    omega
  · have := ha.leading_relocated
    omega

lemma shift_eq_none (ha : AreasApart h length) (hpos : 0 < h.volumeHeaderSize)
    (hlong : length < 2 ^ 63) : h.shift p = none ↔ Reserved h p := by
  unfold shift
  split
  · rename_i hlt
    simp only [reduceCtorEq, false_iff]
    exact fun hr => absurd (le_of_reserved ha hr) (by omega)
  · split
    · rename_i hany
      exact ⟨fun _ => (holes_any ha hpos hlong).1 hany, fun _ => rfl⟩
    · rename_i hany
      simp only [reduceCtorEq, false_iff]
      exact fun hr => hany ((holes_any ha hpos hlong).2 hr)

lemma shift_cases (hs : h.shift p = some δ) :
    p < h.volumeHeaderSize ∧ δ = h.volumeHeaderOffset ∨
      h.volumeHeaderSize ≤ p ∧ h.holes.any (·.contains p) = false ∧ δ = 0 := by
  unfold shift at hs
  split at hs
  · cases hs
    exact Or.inl ⟨‹_›, rfl⟩
  · split at hs
    · cases hs
    · cases hs
      exact Or.inr ⟨by omega, Bool.eq_false_of_not_eq_true ‹_›, rfl⟩

theorem place_inj (ha : AreasApart h length) (hpos : 0 < h.volumeHeaderSize)
    (hlong : length < 2 ^ 63) (hp0 : 0 ≤ p) (hq0 : 0 ≤ q) (hp : h.shift p = some δ)
    (hq : h.shift q = some δ') (heq : p + δ = q + δ') : p = q := by
  -- a byte in place where the first bytes were moved to would be in a hole
  have moved : ∀ {p q}, 0 ≤ p → p < h.volumeHeaderSize → h.holes.any (·.contains q) = false →
      q = p + h.volumeHeaderOffset → False := by
    intro p q h0 hlt hout hq
    rw [(holes_any ha hpos hlong).2 (Or.inr ⟨by omega, by omega⟩)] at hout
    cases hout
  rcases shift_cases hp with ⟨h1, rfl⟩ | ⟨h1, h2, rfl⟩ <;>
    rcases shift_cases hq with ⟨h3, rfl⟩ | ⟨h3, h4, rfl⟩
  · omega
  · exact (moved hp0 h1 h4 (by omega)).elim
  · exact (moved hq0 h3 h2 (by omega)).elim
  · omega

lemma place_not_metadata (ha : AreasApart h length) (hpos : 0 < h.volumeHeaderSize)
    (hlong : length < 2 ^ 63) (hp0 : 0 ≤ p) (hp : h.shift p = some δ) : ¬InMetadata h (p + δ) := by
  rintro ⟨o, ho, h1, h2⟩
  rcases shift_cases hp with ⟨hlt, rfl⟩ | ⟨-, hout, rfl⟩
  · rcases ha.relocated_apart o ho with h3 | h3 <;> omega
  · rw [(holes_any ha hpos hlong).2 (Or.inl ⟨o, ho, by omega, by omega⟩)] at hout
    cases hout

end Header

/-! ### The plaintext -/

namespace BitLockerBlockDevice

variable (d : BitLockerBlockDevice)

/-- The plaintext of byte `q` of the partition: that of its sector, decrypted. -/
def sectorByte (w : Machine) (q : ℕ) : UInt8 :=
  (d.cipher.crypt false (q / d.es : ℕ)
    (w.bytes.slice (d.startBlock * w.blockSize + q / d.es * d.es) d.es)).getD
    (q % d.es) 0

def plainAt (w : Machine) : Bytes := fun p =>
  match d.header.shift p with
  | some δ => d.sectorByte w (p + δ).toNat
  | none => 0

/-- The device lies on the drive as its partition does: whole encryption sectors, of whole blocks,
with the areas of the header inside. -/
structure On (w : Machine) : Prop where
  blockSize_pos : 0 < w.blockSize
  block_dvd : w.blockSize ∣ d.es
  whole : d.es ∣ d.partitionBlocks * w.blockSize
  inside : d.startBlock + d.partitionBlocks ≤ w.blockCount
  areas : AreasApart d.header (d.partitionBlocks * w.blockSize : ℕ)

variable {d} {w w' : Machine}

lemma es_pos : 0 < d.es := by
  rcases d.header.sectorSize_eq with h | h <;> rw [es, h] <;> decide

lemma es_le : d.es ≤ 4096 := by
  rcases d.header.sectorSize_eq with h | h <;> rw [es, h]; decide

lemma es_dvd_long : d.es ∣ 2 ^ 63 := by
  rcases d.header.sectorSize_eq with h | h <;> rw [es, h] <;> decide

lemma headerSize_pos (d : BitLockerBlockDevice) : 0 < d.header.volumeHeaderSize :=
  (aligned_of_supported d.supported).2.1

lemma On.long (hon : d.On w) : (d.startBlock + d.partitionBlocks) * w.blockSize < 2 ^ 63 :=
  Nat.lt_of_le_of_lt (Nat.mul_le_mul_right _ hon.inside) w.offsets

lemma On.length_lt (hon : d.On w) : ((d.partitionBlocks * w.blockSize : ℕ) : ℤ) < 2 ^ 63 := by
  have := hon.long
  rw [Nat.add_mul] at this
  omega

lemma On.blocks_lt (hon : d.On w) : d.startBlock + d.partitionBlocks < 2 ^ 63 :=
  Nat.lt_of_le_of_lt (Nat.le_mul_of_pos_right _ hon.blockSize_pos) hon.long

lemma On.of_eq (hon : d.On w) (hsize : w'.blockSize = w.blockSize)
    (hcount : w'.blockCount = w.blockCount) : d.On w' where
  blockSize_pos := hsize ▸ hon.blockSize_pos
  block_dvd := hsize ▸ hon.block_dvd
  whole := hsize ▸ hon.whole
  inside := hcount ▸ hon.inside
  areas := hsize ▸ hon.areas

lemma On.place_lt (hon : d.On w) {p δ : ℤ} (h0 : 0 ≤ p) (hp : p < (d.partitionBlocks * w.blockSize : ℕ))
    (hs : d.header.shift p = some δ) : 0 ≤ p + δ ∧ p + δ < (d.partitionBlocks * w.blockSize : ℕ) := by
  have := hon.areas.relocated_inside
  rcases shift_cases hs with ⟨h1, rfl⟩ | ⟨-, -, rfl⟩ <;> omega

lemma plainAt_reserved (hon : d.On w) {p : ℕ} (hr : Reserved d.header p) : d.plainAt w p = 0 := by
  unfold plainAt
  rw [(shift_eq_none hon.areas d.headerSize_pos hon.length_lt).2 hr]

/-! ### Sectors -/

lemma sectorByte_eq (w : Machine) (q : ℕ) :
    d.sectorByte w q = d.cipher.plainByte 0 (d.startBlock * w.blockSize) w.bytes q := by
  rw [SectorCipher.plainByte, Int.zero_add]
  rfl

variable {q : ℕ}

lemma cryptSectors_slice (w : Machine) {n : ℕ} (hq : d.es ∣ q) (hn : d.es ∣ n) :
    d.cipher.cryptSectors false (q / d.es : ℕ) (w.bytes.slice (d.startBlock * w.blockSize + q) n) =
      some ((List.range n).map fun j => d.sectorByte w (q + j)) := by
  obtain ⟨s, rfl⟩ := hq
  rw [Nat.mul_div_cancel_left s es_pos, SectorCipher.cryptSectors_slice es_pos _ _ hn]
  congr 1
  refine List.map_congr_left fun j _ => ?_
  rw [sectorByte_eq, SectorCipher.plainByte_add es_pos, Int.zero_add]

lemma cryptSectors_sectorByte (w : Machine) {n : ℕ} (hq : d.es ∣ q) (hn : d.es ∣ n) :
    d.cipher.cryptSectors true (q / d.es : ℕ) ((List.range n).map fun j => d.sectorByte w (q + j)) =
      some (w.bytes.slice (d.startBlock * w.blockSize + q) n) := by
  obtain ⟨s, rfl⟩ := hq
  rw [Nat.mul_div_cancel_left s es_pos, ← SectorCipher.cryptSectors_plain (c := d.cipher) es_pos _ _ hn]
  congr 1
  refine List.map_congr_left fun j _ => ?_
  rw [sectorByte_eq, SectorCipher.plainByte_add es_pos, Int.zero_add]

lemma sectorByte_written {chunk out : List UInt8} (hblock : w.blockSize ∣ d.es) (hq : d.es ∣ q)
    (hn : d.es ∣ chunk.length) (hout : d.cipher.cryptSectors true (q / d.es : ℕ) chunk = some out)
    (x : ℕ) : d.sectorByte (w.written (d.startBlock + q / w.blockSize) out) x =
      overwrite (d.sectorByte w) q chunk x := by
  have hpos := es_pos (d := d)
  have hlen := SectorCipher.cryptSectors_length hout
  have hunit := SectorCipher.unit_cryptSectors hpos hout
  have hat : (d.startBlock + q / w.blockSize) * w.blockSize = d.startBlock * w.blockSize + q := by
    rw [Nat.add_mul, Nat.div_mul_cancel (hblock.trans hq)]
  obtain ⟨s, rfl⟩ := hq
  obtain ⟨k, hk⟩ := hn
  unfold sectorByte
  rw [show (w.written (d.startBlock + d.es * s / w.blockSize) out).blockSize = w.blockSize from rfl]
  by_cases hin : d.es * s ≤ x ∧ x < d.es * s + chunk.length
  · -- the sector is one of those written
    obtain ⟨j, rfl⟩ := Nat.exists_eq_add_of_le hin.1
    have hj : (j / d.es + 1) * d.es ≤ chunk.length := by
      rw [hk, Nat.mul_comm d.es k]
      exact Nat.mul_le_mul_right _ (Nat.div_lt_of_lt_mul (by omega))
    have hj' : j / d.es * d.es + d.es ≤ chunk.length := by rwa [Nat.succ_mul] at hj
    have hslice := Machine.slice_written_part (w := w) (d.startBlock + d.es * s / w.blockSize)
      (hj'.trans_eq hlen.symm)
    have hplace : d.startBlock * w.blockSize + (s + j / d.es) * d.es =
        (d.startBlock + d.es * s / w.blockSize) * w.blockSize + j / d.es * d.es := by
      rw [hat, Nat.add_mul, Nat.mul_comm s, Nat.add_assoc]
    have hfirst : ((d.es * s / d.es : ℕ) : ℤ) + (j / d.es : ℕ) = (s + j / d.es : ℕ) := by
      rw [Nat.mul_div_cancel_left s hpos, Int.natCast_add]
    have hunitlen : ((chunk.drop (j / d.es * d.es)).take d.es).length = d.es := by
      rw [List.length_take, List.length_drop]
      omega
    rw [Nat.mul_add_div hpos, Nat.mul_add_mod, hplace, hslice, hunit _ hj, hfirst,
      d.cipher.undo _ _ hunitlen, ← SectorCipher.getD_unit hpos, overwrite,
      if_pos (Nat.le_add_right ..), Nat.add_sub_cancel_left, List.getElem?_eq_getElem (by omega),
      List.getD_eq_getElem?_getD, List.getElem?_eq_getElem (by omega)]
    rfl
  · -- the sector lies before those written or after them
    have hsector : ¬(d.es * s < x / d.es * d.es + d.es ∧ x / d.es * d.es < d.es * s + chunk.length) := by
      rintro ⟨h1, h2⟩
      rw [← Nat.succ_mul, Nat.mul_comm] at h1
      rw [hk, ← Nat.mul_add, Nat.mul_comm] at h2
      have h1 := Nat.lt_of_mul_lt_mul_right h1
      have h2 := Nat.lt_of_mul_lt_mul_left h2
      refine hin ⟨?_, ?_⟩
      · rw [Nat.mul_comm]
        exact (Nat.le_div_iff_mul_le hpos).1 (Nat.le_of_lt_succ h1)
      · rw [hk, ← Nat.mul_add]
        exact (Nat.div_lt_iff_lt_mul hpos).1 h2 |>.trans_eq (Nat.mul_comm ..)
    rw [overwrite_outside hin, Machine.slice_written_outside (by rw [hat, hlen]; omega)]

/-- **A run written to the partition is written to the plaintext.** -/
lemma plainAt_written (hon : d.On w) {a : ℕ} {δ : ℤ} {chunk out : List UInt8}
    (hq : (d.es : ℤ) ∣ a + δ) (hq0 : 0 ≤ a + δ) (hn : d.es ∣ chunk.length)
    (hrun : ∀ p : ℤ, a ≤ p → p < a + chunk.length → d.header.shift p = some δ)
    (hout : d.cipher.cryptSectors true ((a + δ).toNat / d.es : ℕ) chunk = some out) :
    d.plainAt (w.written (d.startBlock + (a + δ).toNat / w.blockSize) out) =
      overwrite (d.plainAt w) a chunk := by
  have hq' : d.es ∣ (a + δ).toNat := by
    rw [← Int.natCast_dvd_natCast, Int.toNat_of_nonneg hq0]
    exact hq
  have hsector := sectorByte_written (w := w) hon.block_dvd hq' hn hout
  funext p
  show (match d.header.shift p with | some δ => d.sectorByte _ (p + δ).toNat | none => 0) = _
  by_cases hin : a ≤ p ∧ p < a + chunk.length
  · obtain ⟨j, rfl⟩ := Nat.exists_eq_add_of_le hin.1
    rw [hrun _ (by omega) (by omega)]
    dsimp only
    rw [hsector, show (((a + j : ℕ) : ℤ) + δ).toNat = (a + δ).toNat + j by omega, overwrite, overwrite,
      if_pos (Nat.le_add_right ..), if_pos (Nat.le_add_right ..), Nat.add_sub_cancel_left,
      Nat.add_sub_cancel_left, List.getElem?_eq_getElem (by omega)]
    rfl
  · rw [overwrite_outside hin, plainAt]
    split
    · -- a byte with its place among the written sectors would be one of the run
      rename_i δ' hs
      have hplace :
          ¬((a + δ).toNat ≤ (p + δ').toNat ∧ (p + δ').toNat < (a + δ).toNat + chunk.length) := by
        rintro ⟨h1, h2⟩
        have h0 : 0 ≤ (p : ℤ) + δ' := by
          have := hon.areas.relocated_inside
          rcases shift_cases hs with ⟨-, rfl⟩ | ⟨-, -, rfl⟩ <;> omega
        have hrun' := hrun (p + δ' - δ) (by omega) (by omega)
        have := place_inj hon.areas d.headerSize_pos hon.length_lt (Int.natCast_nonneg p)
          (by omega) hs hrun' (by omega)
        omega
      rw [hsector, overwrite_outside hplace]
    · rfl

/-! ### The runs of a range of whole sectors -/

lemma es_dvd_i64 {x : ℤ} (h : (d.es : ℤ) ∣ x) : (d.es : ℤ) ∣ i64 x := by
  obtain ⟨k, hk, -⟩ := i64_eq x
  rw [hk]
  refine Int.dvd_sub h (Dvd.dvd.mul_right ?_ k)
  rcases d.header.sectorSize_eq with h | h <;> rw [es, h] <;> decide

lemma holes_aligned {r : LongRange} (hr : r ∈ d.header.holes) :
    r = ⟨1, 0⟩ ∨ (d.es : ℤ) ∣ r.first ∧ (d.es : ℤ) ∣ r.last + 1 := by
  obtain ⟨-, -, h1, h2, h3⟩ := aligned_of_supported d.supported
  have hsize : (d.es : ℤ) ∣ METADATA_AREA_SIZE := by
    rcases d.header.sectorSize_eq with h | h <;> rw [es, h] <;> decide
  have huntil : ∀ {lo hi : ℤ}, (d.es : ℤ) ∣ lo → (d.es : ℤ) ∣ hi → LongRange.until lo hi = ⟨1, 0⟩ ∨
      (d.es : ℤ) ∣ (LongRange.until lo hi).first ∧ (d.es : ℤ) ∣ (LongRange.until lo hi).last + 1 := by
    intro lo hi hlo hhi
    unfold LongRange.until
    split
    · exact Or.inl rfl
    · exact Or.inr ⟨hlo, by rwa [Int.sub_add_cancel]⟩
  rw [holes, List.mem_insertionSort, List.mem_append, List.mem_singleton] at hr
  rcases hr with hr | rfl
  · obtain ⟨o, ho, rfl⟩ := List.mem_map.1 hr
    exact huntil (h3 o ho) (es_dvd_i64 (Int.dvd_add (h3 o ho) hsize))
  · exact huntil h2 (es_dvd_i64 (Int.dvd_add h2 h1))

lemma runs_aligned {p hi : ℤ} (hp : (d.es : ℤ) ∣ p) (hhi : (d.es : ℤ) ∣ hi) :
    ∀ r ∈ d.header.runs p hi, (d.es : ℤ) ∣ r.start ∧ (d.es : ℤ) ∣ r.stop := by
  obtain ⟨-, hpos, hsize, -⟩ := aligned_of_supported d.supported
  have hmin : ∀ {x}, (d.es : ℤ) ∣ x → (d.es : ℤ) ∣ min hi x := fun hx => by
    rcases min_choice hi _ with h | h <;> rw [h] <;> assumption
  induction p using BitLockerHeader.runs.induct d.header hi with
  | case1 p hlt hhdr _ ih =>
    rw [runs_header hlt hhdr]
    exact List.forall_mem_cons.2 ⟨⟨hp, hmin hsize⟩, ih (hmin hsize)⟩
  | case2 p hlt hhdr hole hfind _ ih =>
    have hstop : (d.es : ℤ) ∣ min hi (hole.last + 1) := by
      rcases holes_aligned (List.mem_of_find?_eq_some hfind) with rfl | h
      · have hc := List.find?_some hfind
        simp only [LongRange.contains, Bool.and_eq_true, decide_eq_true_eq] at hc
        omega
      · exact hmin h.2
    rw [runs_hole hlt hhdr hfind]
    exact List.forall_mem_cons.2 ⟨⟨hp, hstop⟩, ih hstop⟩
  | case3 p hlt hhdr hnone _ ih =>
    have hstop : (d.es : ℤ) ∣ d.header.nextStop p hi := by
      unfold nextStop
      split
      · rename_i nextHole hnext
        obtain ⟨hmem, hafter⟩ := List.mem_filter.1 (List.min?_mem hnext)
        obtain ⟨hole, hhole, rfl⟩ := List.mem_map.1 hmem
        rcases holes_aligned hhole with rfl | h
        · simp only [decide_eq_true_eq] at hafter
          omega
        · exact hmin h.1
      · exact hhi
    rw [runs_free hlt hhdr hnone]
    exact List.forall_mem_cons.2 ⟨⟨hp, hstop⟩, ih hstop⟩
  | case4 p hlt =>
    rw [runs_nil hlt]
    exact fun r hr => absurd hr List.not_mem_nil

/-! ### Requests -/

/-- The calls that were made between two moments, each for bytes from `lo` up to `hi` with one
mapping. -/
def Served (d : BitLockerBlockDevice) (lo hi : ℕ) (write : Bool) (h h' : Host) : Prop :=
  ∃ cs, h'.calls = h.calls ++ cs ∧ ∀ c ∈ cs, c.write = write ∧ ∃ (a n : ℕ) (δ : ℤ), lo ≤ a ∧ a + n ≤ hi ∧
    (∀ p : ℤ, a ≤ p → p < a + n → d.header.shift p = some δ) ∧
    c.start * h.drive.blockSize = d.startBlock * h.drive.blockSize + (a + δ) ∧
      c.count * h.drive.blockSize = n

section Requests

variable {h h' h'' : Host} {lo hi : ℕ} {write : Bool}

lemma Served.refl (d : BitLockerBlockDevice) (lo hi : ℕ) (write : Bool) (h : Host) :
    d.Served lo hi write h h :=
  ⟨[], (List.append_nil _).symm, fun _ hc => absurd hc List.not_mem_nil⟩

lemma Served.trans (hs : d.Served lo hi write h h') (hs' : d.Served lo hi write h' h'')
    (hsize : h'.drive.blockSize = h.drive.blockSize) : d.Served lo hi write h h'' := by
  obtain ⟨cs, hcs, hall⟩ := hs
  obtain ⟨cs', hcs', hall'⟩ := hs'
  refine ⟨cs ++ cs', by rw [hcs', hcs, List.append_assoc], fun c hc => ?_⟩
  rcases List.mem_append.1 hc with hc | hc
  · exact hall c hc
  · exact hsize ▸ hall' c hc

variable {a b : ℕ} {δ : ℤ} {F T : ℕ} {P : Bytes} {Q : List UInt8 → Host → Prop}
    {E : Thrown → Host → Prop} {start : ℤ} {data : List UInt8}

lemma On.run (hon : d.On h.drive) (hab : a < b) (hb : b ≤ d.partitionBlocks * h.drive.blockSize)
    (hes : d.es ∣ a) (hδ : d.header.shift a = some δ) :
    0 ≤ a + δ ∧ d.es ∣ (a + δ).toNat ∧ i64 (a + δ) = (a + δ).toNat ∧
      i64 (d.startBlock + ((a + δ).toNat : ℤ).tdiv h.drive.blockSize) =
        (d.startBlock + (a + δ).toNat / h.drive.blockSize : ℕ) := by
  obtain ⟨h0, hlt⟩ := hon.place_lt (Int.natCast_nonneg a) (by omega) hδ
  have hlong := hon.long
  have hlen := hon.length_lt
  refine ⟨h0, ?_, ?_, ?_⟩
  · obtain ⟨-, -, -, h2, -⟩ := aligned_of_supported d.supported
    rw [← Int.natCast_dvd_natCast, Int.toNat_of_nonneg h0]
    rcases shift_cases hδ with ⟨-, rfl⟩ | ⟨-, -, rfl⟩
    · exact Int.dvd_add (Int.natCast_dvd_natCast.2 hes) h2
    · simpa using Int.natCast_dvd_natCast.2 hes
  · rw [i64_of_lt h0 (by omega), Int.toNat_of_nonneg h0]
  · rw [← Int.ofNat_tdiv, ← Int.natCast_add]
    have hdiv : (a + δ).toNat / h.drive.blockSize < d.partitionBlocks :=
      Nat.div_lt_of_lt_mul (by rw [Nat.mul_comm]; omega)
    exact i64_natCast (Nat.lt_trans (Nat.add_lt_add_left hdiv _) hon.blocks_lt)

lemma On.served (hon : d.On h.drive) (write : Bool) (ha : d.es ∣ a) (hb : d.es ∣ b) (hab : a < b)
    (hF : F ≤ a) (hT : b ≤ T) (h0 : 0 ≤ a + δ) (hq : d.es ∣ (a + δ).toNat)
    (hshift : ∀ p : ℤ, a ≤ p → p < b → d.header.shift p = some δ) :
    d.Served F T write h (h.logged ⟨write, (d.startBlock + (a + δ).toNat / h.drive.blockSize : ℕ),
      ((b - a) / h.drive.blockSize : ℕ)⟩) := by
  refine ⟨_, rfl, fun c hc => ?_⟩
  rw [List.mem_singleton.1 hc]
  refine ⟨rfl, a, b - a, δ, hF, by omega, fun p h1 h2 => hshift p h1 (by omega), ?_, ?_⟩
  · rw [← Int.natCast_mul, Nat.add_mul, Nat.div_mul_cancel (hon.block_dvd.trans hq),
      Int.natCast_add, Int.natCast_mul, Int.toNat_of_nonneg h0]
  · rw [← Int.natCast_mul, Nat.div_mul_cancel (hon.block_dvd.trans (Nat.dvd_sub hb ha))]

lemma plainAt_run (w : Machine) (h0 : 0 ≤ a + δ)
    (hshift : ∀ p : ℤ, a ≤ p → p < b → d.header.shift p = some δ) :
    (List.range (b - a)).map (fun j => d.sectorByte w ((a + δ).toNat + j)) =
      (d.plainAt w).slice a (b - a) := by
  refine List.map_congr_left fun j hj => ?_
  have hj := List.mem_range.1 hj
  have hat : (((a + j : ℕ) : ℤ) + δ).toNat = (a + δ).toNat + j := by omega
  unfold plainAt
  rw [hshift _ (by omega) (by omega)]
  exact congrArg _ hat.symm

lemma On.run_inside (hon : d.On w) (hab : a < b) (hb : b ≤ d.partitionBlocks * w.blockSize)
    (h0 : 0 ≤ a + δ) (hshift : ∀ p : ℤ, a ≤ p → p < b → d.header.shift p = some δ) :
    d.startBlock + (a + δ).toNat / w.blockSize + (b - a) / w.blockSize ≤ w.blockCount := by
  have hlast := (hon.place_lt (p := b - 1) (by omega) (by omega) (hshift _ (by omega) (by omega))).2
  have hsum : (a + δ).toNat / w.blockSize + (b - a) / w.blockSize ≤ d.partitionBlocks := by
    refine Nat.le_of_mul_le_mul_right ?_ hon.blockSize_pos
    have h1 := Nat.div_mul_le_self (a + δ).toNat w.blockSize
    have h2 := Nat.div_mul_le_self (b - a) w.blockSize
    rw [Nat.add_mul]
    omega
  have := hon.inside
  omega

lemma slice_append_zeros (hF : F ≤ a) (hab : a ≤ b) (hT : b ≤ T)
    (hzero : ∀ p, a ≤ p → p < b → P p = 0) :
    P.slice F (a - F) ++ List.replicate (T - a) 0 = P.slice F (b - F) ++ List.replicate (T - b) 0 := by
  have hz : P.slice a (b - a) = List.replicate (b - a) 0 := by
    refine List.eq_replicate_iff.2 ⟨Bytes.length_slice, fun x hx => ?_⟩
    obtain ⟨i, hi, rfl⟩ := List.mem_map.1 hx
    have := List.mem_range.1 hi
    exact hzero _ (by omega) (by omega)
  rw [show b - F = (a - F) + (b - a) by
    omega, Bytes.slice_add, Nat.add_sub_cancel' hF, hz, List.append_assoc,
    List.replicate_append_replicate, show b - a + (T - b) = T - a by omega]

/-- **One run is read**: it is appended to the plaintext read before it. -/
lemma wp_readRun (hon : d.On h.drive) {r : Run} (hstart : r.start = a) (hstop : r.stop = b) (hab : a < b)
    (ha : d.es ∣ a) (hb : d.es ∣ b) (hF : F ≤ a) (hT : b ≤ T)
    (hend : T ≤ d.partitionBlocks * h.drive.blockSize) (hsize : T - F < 2 ^ 31)
    (hshift : ∀ p : ℤ, a ≤ p → p < b → d.header.shift p = if r.zero then none else some r.delta)
        (hok : ∀ h', h'.drive = h.drive → d.Served F T false h h' →
      Q ((d.plainAt h.drive).slice F (b - F) ++ List.replicate (T - b) 0) h') :
    wp (d.readRun h.drive.blockSize F
      ((d.plainAt h.drive).slice F (a - F) ++ List.replicate (T - a) 0) r) Q E h := by
  unfold readRun
  rw [wp_ite]
  refine ⟨fun hz => ?_, fun hz => ?_⟩
  · have hzero : ∀ p, a ≤ p → p < b → d.plainAt h.drive p = 0 := fun p h1 h2 => by
      unfold plainAt
      rw [hshift p (by omega) (by omega), if_pos hz]
    rw [slice_append_zeros hF hab.le hT hzero]
    exact hok h rfl (.refl ..)
  · simp only [hz, if_false, Bool.false_eq_true] at hshift
    have hδ := hshift a (by omega) (by omega)
    obtain ⟨h0, hq, hphys, hblock⟩ := hon.run hab (hT.trans hend) ha hδ
    have hbs : h.drive.blockSize ∣ b - a := hon.block_dvd.trans (Nat.dvd_sub hb ha)
    have hcount : i32 (((b : ℤ) - a).tdiv h.drive.blockSize) = ((b - a) / h.drive.blockSize : ℕ) := by
      rw [← Int.ofNat_sub hab.le, ← Int.ofNat_tdiv]
      exact i32_natCast (Nat.lt_of_le_of_lt (Nat.div_le_self ..) (by omega))
    have hserved := hon.served false ha hb hab hF hT h0 hq hshift
    dsimp only
    rw [hstart, hstop, hphys, hblock, hcount]
    simp only [wp_bind]
    refine wp_readDrive_run (hon.run_inside hab (hT.trans hend) h0 hshift) ?_ ?_
    · rw [Nat.div_mul_cancel hbs]
      omega
    have hdata :
      h.drive.bytes.slice ((d.startBlock + (a + r.delta).toNat / h.drive.blockSize) *
        h.drive.blockSize)
        ((b - a) / h.drive.blockSize * h.drive.blockSize) =
          h.drive.bytes.slice (d.startBlock * h.drive.blockSize + (a + r.delta).toNat) (b - a) := by
      rw [Nat.add_mul, Nat.div_mul_cancel (hon.block_dvd.trans hq), Nat.div_mul_cancel hbs]
    rw [hdata, ← Int.ofNat_tdiv, cryptSectors_slice _ hq (Nat.dvd_sub hb ha), plainAt_run _ h0 hshift]
    have hcopy : arraycopy ((d.plainAt h.drive).slice a (b - a))
        ((d.plainAt h.drive).slice F (a - F) ++ List.replicate (T - a) 0) (i32 (a - F)) =
          .ok ((d.plainAt h.drive).slice F (b - F) ++ List.replicate (T - b) 0) := by
      rw [← Int.ofNat_sub hF, i32_natCast (by omega)]
      unfold arraycopy
      rw [failIf_bind_run (by simp; omega)]
      show Except.ok _ = _
      rw [Int.toNat_natCast, List.take_left' (by simp), Bytes.length_slice, ← List.drop_drop,
        List.drop_left' (by simp), List.drop_replicate, show T - a - (b - a) = T - b by omega,
        show b - F = (a - F) + (b - a) by omega, Bytes.slice_add, Nat.add_sub_cancel' hF]
    refine wp_lift.2 ⟨fun x hx => ?_, fun e he => (by cases he)⟩
    cases hx
    refine wp_lift.2 ⟨fun y hy => ?_, fun e he => (by rw [hcopy] at he; cases he)⟩
    rw [hcopy] at hy
    cases hy
    exact hok _ rfl hserved

lemma wp_readRuns
    (hok : ∀ h', h'.drive = h.drive → d.Served F T false h h' →
      Q ((d.plainAt h.drive).slice F (T - F)) h')
    (hon : d.On h.drive)
    (hend : T ≤ d.partitionBlocks * h.drive.blockSize) (hsize : T - F < 2 ^ 31) :
    ∀ (rs : List Run) (a : ℕ) (g : Host), g.drive = h.drive → d.Served F T false h g → F ≤ a →
      Cover d.header a T rs → (∀ r ∈ rs, (d.es : ℤ) ∣ r.start ∧ (d.es : ℤ) ∣ r.stop) →
      wp (rs.foldlM (d.readRun h.drive.blockSize F)
        ((d.plainAt h.drive).slice F (a - F) ++ List.replicate (T - a) 0)) Q E g := by
  intro rs
  induction rs with
  | nil =>
    intro a g hg hs hF hc _
    have haT : a = T := Int.natCast_inj.1 hc
    subst haT
    rw [Nat.sub_self, List.replicate_zero, List.append_nil]
    exact hok g hg hs
  | cons r rs ih =>
    intro a g hg hs hF hc hal
    obtain ⟨hstart, hlt, hshift, hrest⟩ := hc
    have hle : r.stop ≤ T := hrest.le
    obtain ⟨b, hb⟩ := Int.eq_ofNat_of_zero_le (show 0 ≤ r.stop by omega)
    obtain ⟨hda, hdb⟩ := hal r List.mem_cons_self
    rw [hstart, Int.natCast_dvd_natCast] at hda
    rw [hb, Int.natCast_dvd_natCast] at hdb
    rw [hb] at hrest hle hlt
    rw [hstart] at hshift hlt
    rw [hb] at hshift
    rw [List.foldlM_cons, wp_bind, ← hg]
    refine wp_readRun (hg ▸ hon) hstart hb (by omega) hda hdb hF (by omega) (hg ▸ hend) hsize hshift
      (fun g' hg' hs' => ?_)
    rw [hg]
    exact ih b g' (hg'.trans hg) (hs.trans hs' (by rw [hg])) (by omega) hrest
      fun r' hr' => hal r' (List.mem_cons_of_mem _ hr')

/-- **Whole sectors are read as their plaintext**, unless they are too many for an array. -/
lemma wp_readPlain (hon : d.On h.drive)
    (hF : d.es ∣ F) (hT : d.es ∣ T) (hFT : F ≤ T) (hend : T ≤ d.partitionBlocks * h.drive.blockSize)
    (hsize : T - F < 2 ^ 32)
    (hok : T - F < 2 ^ 31 → ∀ h', h'.drive = h.drive → d.Served F T false h h' →
      Q ((d.plainAt h.drive).slice F (T - F)) h')
    (herr : 2 ^ 31 ≤ T - F → ∀ message, E ⟨.negativeArraySize, message⟩ h) :
    wp (d.readPlain h.drive.blockSize F T) Q E h := by
  unfold readPlain
  dsimp only
  rw [wp_bind, wp_throwIf, ← Int.ofNat_sub hFT]
  refine ⟨fun hn => herr ?_ _, fun hn => ?_⟩
  · by_contra hsmall
    rw [i32_natCast (by omega)] at hn
    omega
  have hsmall : T - F < 2 ^ 31 := by
    by_contra hbig
    exact hn (i32_neg (by omega) hsize)
  rw [i32_natCast hsmall, Int.toNat_natCast]
  have hstart :=
    wp_readRuns (E := E) (hok hsmall) hon hend hsmall (d.header.runs F T) F h rfl (.refl ..) le_rfl
    (runs_cover _ _ _ (by omega))
    (runs_aligned (Int.natCast_dvd_natCast.2 hF) (Int.natCast_dvd_natCast.2 hT))
  rwa [Nat.sub_self, show (d.plainAt h.drive).slice F 0 = [] from rfl, List.nil_append] at hstart

lemma On.widened (hon : d.On h.drive) {n : ℕ} (hin : F + n ≤ d.partitionBlocks * h.drive.blockSize) :
    ∃ aF aT : ℕ, floorTo d.es F = aF ∧ ceilTo d.es (F + n : ℕ) = aT ∧ d.es ∣ aF ∧ d.es ∣ aT ∧
      aF ≤ F ∧ F + n ≤ aT ∧
      aT ≤ d.partitionBlocks * h.drive.blockSize ∧ aT - aF < n + 2 * d.es := by
  have hlong := hon.length_lt
  exact Block.widened es_dvd_long hon.whole (by omega) hin

lemma Served.mono {lo' hi' : ℕ} (hs : d.Served lo hi write h h') (hlo : lo' ≤ lo) (hhi : hi ≤ hi') :
    d.Served lo' hi' write h h' := by
  obtain ⟨cs, hcs, hall⟩ := hs
  refine ⟨cs, hcs, fun c hc => ?_⟩
  obtain ⟨hw, a, n, δ, h1, h2, hrest⟩ := hall c hc
  exact ⟨hw, a, n, δ, by omega, by omega, hrest⟩

/-- The range lies in the partition, and the sectors that it is widened to fit into an array. -/
structure Servable (d : BitLockerBlockDevice) (w : Machine) (start : ℤ) (blocks bytes : ℕ) : Prop where
  start_nonneg : 0 ≤ start
  inside : start + blocks ≤ d.partitionBlocks
  fits : ceilTo d.es (start.toNat * w.blockSize + bytes : ℕ) - floorTo d.es
    (start.toNat * w.blockSize : ℕ) < 2 ^ 31

/-- **A read returns the plaintext**, and fails only if the range cannot be served. -/
lemma wp_readBlocks (hon : d.On h.drive) {count : ℤ} (hlong : start + count < 2 ^ 63)
    (hsize : count * h.drive.blockSize < 2 ^ 31) :
    wp (d.readBlocks start count)
      (fun data h' => 0 ≤ start ∧ 0 ≤ count ∧ start + count ≤ d.partitionBlocks ∧
        data = (d.plainAt h.drive).slice (start.toNat * h.drive.blockSize)
          (count.toNat * h.drive.blockSize) ∧
        h'.drive = h.drive ∧ d.Served 0 (d.partitionBlocks * h.drive.blockSize) false h h')
      (fun _ h' => h'.drive = h.drive ∧ d.Served 0 (d.partitionBlocks * h.drive.blockSize) false h h' ∧
        (0 ≤ count → ¬d.Servable h.drive start count.toNat (count.toNat * h.drive.blockSize))) h := by
  unfold readBlocks
  simp only [wp_bind, wp_get]
  refine wp_lift.2 ⟨fun _ hr => ?_, fun e he => ⟨rfl, .refl .., fun h0 hserve => ?_⟩⟩
  rotate_left
  · have := hon.blocks_lt
    have := hserve.inside
    rw [requireInRange_run hserve.start_nonneg h0 (by omega) (by omega)] at he
    cases he
  obtain ⟨h1, h2, h3⟩ := requireInRange_ok hr hlong
  obtain ⟨s, hs⟩ := Int.eq_ofNat_of_zero_le h1
  obtain ⟨c, hc⟩ := Int.eq_ofNat_of_zero_le h2
  rw [hs] at h3 ⊢
  rw [hc] at h3 ⊢
  rw [hc, ← Int.natCast_mul] at hsize
  have hcount : s + c ≤ d.partitionBlocks := by omega
  have hin : s * h.drive.blockSize + c * h.drive.blockSize ≤ d.partitionBlocks * h.drive.blockSize := by
    rw [← Nat.add_mul]
    exact Nat.mul_le_mul_right _ hcount
  have hsize : c * h.drive.blockSize < 2 ^ 31 := by omega
  have hL := hon.length_lt
  have hfrom : i64 ((s : ℤ) * h.drive.blockSize) = (s * h.drive.blockSize : ℕ) := by
    rw [← Int.natCast_mul, i64_natCast (by omega)]
  have hto : i64 (((s * h.drive.blockSize : ℕ) : ℤ) + (c : ℤ) * h.drive.blockSize) =
      (s * h.drive.blockSize + c * h.drive.blockSize : ℕ) := by
    rw [← Int.natCast_mul, ← Int.natCast_add, i64_natCast (by omega)]
  have hfits : d.Servable h.drive s c (c * h.drive.blockSize) →
      ceilTo d.es (s * h.drive.blockSize + c * h.drive.blockSize : ℕ) - floorTo d.es
          (s * h.drive.blockSize : ℕ) < 2 ^ 31 :=
    fun hserve => hserve.fits
  simp only [Int.toNat_natCast]
  rw [hfrom, hto]
  generalize s * h.drive.blockSize = F at *
  generalize c * h.drive.blockSize = n at *
  obtain ⟨aF, aT, hfloor, hceil, hdvdF, hdvdT, hF, hT, hend, hwide⟩ := hon.widened hin
  have hes := es_le (d := d)
  rw [hfloor, hceil] at hfits ⊢
  refine wp_readPlain hon hdvdF hdvdT (by omega) hend (by omega) (fun hsmall h' hd hs => ?_)
    (fun hbig _ => ⟨rfl, .refl .., fun _ hserve => by have := hfits hserve; omega⟩)
  have hs := hs.mono (Nat.zero_le _) hend
  rw [wp_ite]
  refine ⟨fun heq => ?_, fun _ => ?_⟩
  · have h1 : aF = F := by omega
    have h2 : aT = F + n := by omega
    rw [h1, h2, Nat.add_sub_cancel_left]
    exact ⟨by omega, by omega, by omega, rfl, hd, hs⟩
  · rw [← Int.ofNat_sub hF, ← Int.ofNat_sub (show aF ≤ F + n by omega), i32_natCast (by omega),
      i32_natCast (by omega),
      copyOfRange_run (by omega) (by rw [Bytes.length_slice]; omega), Bytes.take_drop_slice (by omega)]
    refine wp_lift.2 ⟨fun x hx => ?_, fun e he => (by cases he)⟩
    cases hx
    rw [Nat.add_sub_cancel' hF, show F + n - aF - (F - aF) = n by omega]
    exact ⟨by omega, by omega, by omega, rfl, hd, hs⟩

lemma overwrite_slice {b c : Bytes} {n p : ℕ} :
    overwrite b a (c.slice a n) p = if a ≤ p ∧ p < a + n then c p else b p := by
  split
  · rename_i hin
    unfold overwrite
    rw [if_pos hin.1, List.getElem?_eq_getElem (by rw [Bytes.length_slice]; omega)]
    simp only [Bytes.slice, List.getElem_map, List.getElem_range, Option.getD_some]
    rw [Nat.add_sub_cancel' hin.1]
  · rename_i hout
    exact overwrite_outside (by rwa [Bytes.length_slice])

lemma overwrite_slice_self (b : Bytes) (a n : ℕ) : overwrite b a (b.slice a n) = b :=
  funext fun _ => overwrite_slice.trans (ite_self _)

def refusal (p : ℤ) : Thrown :=
  ⟨.io, s!"refusing a write into BitLocker's own metadata at byte {p}: the filesystem " ++
    "should never address it, and writing it would destroy the keys"⟩

/-- **One run is written**, or refused if it is in a hole. The bytes of the drive stay where the
data is the plaintext that they hold. -/
lemma wp_writeRun (hon : d.On h.drive) {r : Run} (hstart : r.start = a) (hstop : r.stop = b)
    (hab : a < b) (ha : d.es ∣ a) (hb : d.es ∣ b) (hF : F ≤ a) (hT : b ≤ T)
    (hend : T ≤ d.partitionBlocks * h.drive.blockSize) (hsize : T - F < 2 ^ 31)
    (hshift : ∀ p : ℤ, a ≤ p → p < b → d.header.shift p = if r.zero then none else some r.delta)
    {Q : PUnit → Host → Prop}
    (hok : ∀ h', r.zero = false → h'.drive.blockSize = h.drive.blockSize →
      h'.drive.blockCount = h.drive.blockCount → d.plainAt h'.drive = overwrite
      (d.plainAt h.drive) a (P.slice a (b - a)) → d.Served F T true h h' →
      (P.slice a (b - a) = (d.plainAt h.drive).slice a (b - a) → h'.drive = h.drive) → Q ⟨⟩ h')
    (herr : r.zero = true → E (refusal a) h) :
    wp (d.writeRun h.drive.blockSize F (P.slice F (T - F)) r) Q E h := by
  unfold writeRun
  simp only [wp_bind, wp_throwIf]
  refine ⟨fun hz => hstart ▸ herr hz, fun hz => ?_⟩
  simp only [hz, if_false, Bool.false_eq_true] at hshift
  have hδ := hshift a (by omega) (by omega)
  obtain ⟨h0, hq, hphys, hblock⟩ := hon.run hab (hT.trans hend) ha hδ
  have hserved := hon.served true ha hb hab hF hT h0 hq hshift
  have hdvdn : d.es ∣ b - a := Nat.dvd_sub hb ha
  rw [hstart, hstop, hphys, hblock, ← Int.ofNat_sub hF, ← Int.ofNat_sub (hF.trans hab.le),
    i32_natCast (by omega),
    i32_natCast (by omega), copyOfRange_run (by omega) (by rw [Bytes.length_slice]; omega),
    Bytes.take_drop_slice (by omega), Nat.add_sub_cancel' hF,
    show b - F - (a - F) = b - a by omega, ← Int.ofNat_tdiv]
  refine wp_lift.2 ⟨fun x hx => ?_, fun e he => (by cases he)⟩
  cases hx
  obtain ⟨out, hcrypt⟩ : ∃ out, d.cipher.cryptSectors true ((a + r.delta).toNat / d.es : ℕ)
      (P.slice a (b - a)) = some out :=
    SectorCipher.cryptSectors_some (by rw [Bytes.length_slice]; exact hdvdn)
  have hlen := SectorCipher.cryptSectors_length hcrypt
  rw [Bytes.length_slice] at hlen
  rw [hcrypt]
  refine wp_lift.2 ⟨fun out' hout => ?_, fun e he => (by cases he)⟩
  cases hout
  refine wp_writeDrive_run (by rw [hlen]; exact Nat.mod_eq_zero_of_dvd (hon.block_dvd.trans hdvdn))
    (by rw [hlen]; exact hon.run_inside hab (hT.trans hend) h0 hshift) ?_
  rw [hlen]
  refine hok _ (Bool.eq_false_of_not_eq_true hz) rfl rfl ?_ hserved fun hsame => ?_
  · have hdvd : (d.es : ℤ) ∣ a + r.delta := by
      rw [← Int.toNat_of_nonneg h0]
      exact Int.natCast_dvd_natCast.2 hq
    refine plainAt_written hon hdvd h0 (by rw [Bytes.length_slice]; exact hdvdn)
      (fun p h1 h2 => ?_) hcrypt
    rw [Bytes.length_slice] at h2
    exact hshift p h1 (by omega)
  · -- the sectors are encrypted to the bytes that they were decrypted from
    rw [hsame, ← plainAt_run _ h0 hshift, cryptSectors_sectorByte _ hq hdvdn] at hcrypt
    cases hcrypt
    have hat : (d.startBlock + (a + r.delta).toNat / h.drive.blockSize) * h.drive.blockSize =
        d.startBlock * h.drive.blockSize + (a + r.delta).toNat := by
      rw [Nat.add_mul, Nat.div_mul_cancel (hon.block_dvd.trans hq)]
    show h.drive.written _ _ = h.drive
    unfold Machine.written
    rw [hat, overwrite_slice_self]

/-- Between `h` and `g`, the plaintext from `F` up to `a` was replaced by that of `P`, with calls
for bytes up to `T`. -/
structure Replaced (d : BitLockerBlockDevice) (P : Bytes) (F T : ℕ) (h : Host) (a : ℕ) (g : Host) :
    Prop where
  blockSize : g.drive.blockSize = h.drive.blockSize
  blockCount : g.drive.blockCount = h.drive.blockCount
  plain : ∀ p, d.plainAt g.drive p = if F ≤ p ∧ p < a then P p else d.plainAt h.drive p
  served : d.Served F T true h g

/-- There is no hole from `F` up to `a`, and the drive stayed as it was if the new plaintext is the
old one there. -/
structure Passed (d : BitLockerBlockDevice) (P : Bytes) (F : ℕ) (h : Host) (a : ℕ) (g : Host) :
    Prop where
  no_hole : ∀ p : ℕ, F ≤ p → p < a → d.header.shift p ≠ none
  same : (∀ p, F ≤ p → p < a → P p = d.plainAt h.drive p) → g.drive = h.drive

/-- **The runs are written one after the other**, up to the first one in a hole. -/
lemma wp_writeRuns (hon : d.On h.drive) (hend : T ≤ d.partitionBlocks * h.drive.blockSize)
    (hsize : T - F < 2 ^ 31) {Q : PUnit → Host → Prop}
    (hok : ∀ h', d.Replaced P F T h T h' → d.Passed P F h T h' → Q ⟨⟩ h')
    (herr : ∀ h' (a : ℕ), F ≤ a → a < T → d.Replaced P F T h a h' → d.Passed P F h a h' →
      d.header.shift a = none → E (refusal a) h') :
    ∀ (rs : List Run) (a : ℕ) (g : Host), d.Replaced P F T h a g → d.Passed P F h a g → F ≤ a →
      Cover d.header a T rs → (∀ r ∈ rs, (d.es : ℤ) ∣ r.start ∧ (d.es : ℤ) ∣ r.stop) →
      wp (rs.forM (d.writeRun h.drive.blockSize F (P.slice F (T - F)))) Q E g := by
  intro rs
  induction rs with
  | nil =>
    intro a g hg hp _ hc _
    have haT : a = T := Int.natCast_inj.1 hc
    subst haT
    exact hok g hg hp
  | cons r rs ih =>
    intro a g hg hp hF hc hal
    obtain ⟨hstart, hlt, hshift, hrest⟩ := hc
    have hle : r.stop ≤ T := hrest.le
    obtain ⟨b, hb⟩ := Int.eq_ofNat_of_zero_le (show 0 ≤ r.stop by omega)
    obtain ⟨hda, hdb⟩ := hal r List.mem_cons_self
    rw [hstart, Int.natCast_dvd_natCast] at hda
    rw [hb, Int.natCast_dvd_natCast] at hdb
    rw [hb] at hrest hle hlt
    rw [hstart] at hshift hlt
    rw [hb] at hshift
    have hab : a < b := by omega
    simp only [List.forM, wp_bind]
    rw [← hg.blockSize]
    refine wp_writeRun (hon.of_eq hg.blockSize hg.blockCount) hstart hb hab hda hdb hF (by omega)
      (hg.blockSize ▸ hend)
      hsize hshift (fun g' hz h1 h2 h3 h4 h5 => ?_) (fun hz => ?_)
    · rw [hg.blockSize]
      refine ih b g' ⟨h1.trans hg.blockSize, h2.trans hg.blockCount, fun p => ?_,
        hg.served.trans h4 hg.blockSize⟩
        ⟨fun p hp1 hp2 => ?_, fun hsame => ?_⟩ (by omega) hrest fun r' hr' =>
          hal r' (List.mem_cons_of_mem _ hr')
      · rw [h3, overwrite_slice, hg.plain]
        split_ifs <;> first | rfl | omega
      · by_cases hpa : p < a
        · exact hp.no_hole p hp1 hpa
        · rw [hshift p (by omega) (by omega), hz]
          simp
      · have hdrive := hp.same fun p h1 h2 => hsame p h1 (by omega)
        refine (h5 ?_).trans hdrive
        rw [hdrive]
        exact Bytes.slice_congr fun i hi => hsame _ (by omega) (by omega)
    · exact herr g a hF (by omega) hg hp (by rw [hshift a (by omega) (by omega), if_pos hz])

/-- What a write has done when it ends: `plain` says of the plaintext what it became. -/
structure Wrote (d : BitLockerBlockDevice) (h h' : Host) : Prop where
  blockSize : h'.drive.blockSize = h.drive.blockSize
  blockCount : h'.drive.blockCount = h.drive.blockCount
  calls : ∃ g, d.Served 0 (d.partitionBlocks * h.drive.blockSize) false h g ∧ g.drive = h.drive ∧
    d.Served 0 (d.partitionBlocks * h.drive.blockSize) true g h'

/-- `q` is the first reserved byte among the sectors that a write inside the partition is widened
to, and these fit into an array. -/
structure FirstReserved (d : BitLockerBlockDevice) (w : Machine) (start : ℤ) (data : List UInt8)
    (q : ℕ) : Prop
    extends d.Servable w start (data.length / w.blockSize) data.length where
  lower : floorTo d.es (start.toNat * w.blockSize : ℕ) ≤ q
  upper : q < ceilTo d.es (start.toNat * w.blockSize + data.length : ℕ)
  reserved : Reserved d.header q
  first : ∀ p : ℕ, floorTo d.es (start.toNat * w.blockSize : ℕ) ≤ p → p < q → ¬Reserved d.header p

/-- A write from byte `F` was cut short at byte `q`. -/
structure CutShort (d : BitLockerBlockDevice) (F : ℕ) (data : List UInt8) (q : ℕ) (h h' : Host) :
    Prop where
  wrote : d.Wrote h h'
  plain : ∀ p, d.plainAt h'.drive p = if p < q then overwrite (d.plainAt h.drive) F data p
    else d.plainAt h.drive p
  same : (∀ p < q, overwrite (d.plainAt h.drive) F data p = d.plainAt h.drive p) → h'.drive = h.drive

lemma wp_writeWidened (hon : d.On h.drive) {aF aT : ℕ} (hF : aF ≤ F) (hT : F + data.length ≤ aT)
    (hend : aT ≤ d.partitionBlocks * h.drive.blockSize) (hdvdF : d.es ∣ aF) (hdvdT : d.es ∣ aT)
    (hsmall : aT - aF < 2 ^ 31) {g : Host} (hg : g.drive = h.drive)
    (hserved : d.Served 0 (d.partitionBlocks * h.drive.blockSize) false h g) :
    wp ((d.header.runs aF aT).forM
        (d.writeRun h.drive.blockSize aF
          (Bytes.slice (overwrite (d.plainAt h.drive) F data) aF (aT - aF))))
      (fun _ h' => d.Wrote h h' ∧ d.plainAt h'.drive = overwrite (d.plainAt h.drive) F data ∧
        ∀ p : ℕ, aF ≤ p → p < aT → d.header.shift p ≠ none)
      (fun e h' => ∃ q : ℕ, e = refusal q ∧ aF ≤ q ∧ q < aT ∧ d.header.shift q = none ∧
        (∀ p : ℕ, aF ≤ p → p < q → d.header.shift p ≠ none) ∧ d.CutShort F data q h h') g := by
  have hwrote : ∀ {a h'}, d.Replaced (overwrite (d.plainAt h.drive) F data) aF aT g a h' →
      d.Wrote h h' := by
    intro a h' hrep
    refine ⟨hrep.blockSize.trans (by rw [hg]), hrep.blockCount.trans (by rw [hg]), g, hserved, hg, ?_⟩
    exact hrep.served.mono (Nat.zero_le _) hend
  have hstart : d.Replaced (overwrite (d.plainAt h.drive) F data) aF aT g aF g :=
    ⟨rfl, rfl, fun p => (if_neg (by omega)).symm, .refl ..⟩
  rw [← hg] at hon hend ⊢
  refine wp_writeRuns hon hend hsmall (fun h' hrep hpass => ?_)
    (fun h' q hq hqT hrep hpass hhole => ?_) _ aF g
    (hg ▸ hstart) ⟨fun p h1 h2 => by omega, fun _ => rfl⟩ le_rfl (runs_cover _ _ _ (by omega))
    (runs_aligned (Int.natCast_dvd_natCast.2 hdvdF) (Int.natCast_dvd_natCast.2 hdvdT))
  · rw [hg] at hrep ⊢
    refine ⟨hwrote hrep, funext fun p => ?_, hpass.no_hole⟩
    rw [hrep.plain, hg]
    split
    · rfl
    · exact (overwrite_outside (by omega)).symm
  · rw [hg] at hrep
    refine ⟨q, rfl, hq, hqT, hhole, hpass.no_hole, hwrote hrep, fun p => ?_, fun hsame => ?_⟩
    · rw [hrep.plain, hg]
      by_cases hp : aF ≤ p
      · simp only [hp, true_and]
      · rw [if_neg (by omega), overwrite_outside (by omega), ite_self]
    · refine (hpass.same fun p _ hpq => ?_).trans hg
      rw [hg]
      exact hsame p hpq

lemma firstReserved_iff (hon : d.On h.drive) {s aF aT q : ℕ}
    (hin : s + data.length / h.drive.blockSize ≤ d.partitionBlocks)
    (hfloor : floorTo d.es (s * h.drive.blockSize : ℕ) = aF)
    (hceil : ceilTo d.es (s * h.drive.blockSize + data.length : ℕ) = aT) :
    d.FirstReserved h.drive s data q ↔ aT - aF < 2 ^ 31 ∧ aF ≤ q ∧ q < aT ∧ d.header.shift q = none ∧
      ∀ p : ℕ, aF ≤ p → p < q → d.header.shift p ≠ none := by
  have hhole : ∀ p : ℤ, d.header.shift p = none ↔ Reserved d.header p := fun p =>
    shift_eq_none hon.areas d.headerSize_pos hon.length_lt
  simp only [ne_eq, hhole]
  constructor
  · rintro ⟨⟨-, -, h2⟩, h3, h4, h5, h6⟩
    rw [Int.toNat_natCast, hfloor] at h2 h3 h6
    rw [Int.toNat_natCast, hceil] at h4
    rw [hceil] at h2
    exact ⟨by omega, by omega, by omega, h5, fun p hp => h6 p (by omega)⟩
  · rintro ⟨h2, h3, h4, h5, h6⟩
    refine ⟨⟨Int.natCast_nonneg s, by omega, ?_⟩, ?_, ?_, h5, fun p hp => ?_⟩
    · rw [Int.toNat_natCast, hfloor, hceil]
      omega
    · rw [Int.toNat_natCast, hfloor]
      omega
    · rw [Int.toNat_natCast, hceil]
      omega
    · rw [Int.toNat_natCast, hfloor] at hp
      exact h6 p (by omega)

/-- **A write changes the plaintext of its range**: all of it if it returns, the bytes before the
first reserved one if it is refused, and nothing if it fails in another way. -/
lemma wp_writeBlocks_cut (hon : d.On h.drive) (hblocks : h.drive.blockSize ∣ data.length)
    (hlong : start + (data.length / h.drive.blockSize : ℕ) < 2 ^ 63) (hsize : data.length < 2 ^ 31) :
    wp (d.writeBlocks start data)
      (fun _ h' => 0 ≤ start ∧ d.Wrote h h' ∧
        d.plainAt h'.drive = overwrite (d.plainAt h.drive) (start.toNat * h.drive.blockSize) data ∧
        ∀ q, ¬d.FirstReserved h.drive start data q)
      (fun e h' => h' = h ∧ (∀ p, e ≠ refusal p) ∧
          ¬d.Servable h.drive start (data.length / h.drive.blockSize) data.length ∨
        ∃ q : ℕ, e = refusal q ∧ d.FirstReserved h.drive start data q ∧
          d.CutShort (start.toNat * h.drive.blockSize) data q h h') h := by
  unfold writeBlocks
  simp only [wp_bind, wp_get]
  refine wp_lift.2 ⟨fun _ hr => ?_, fun e he => .inl ⟨rfl, ?_, fun hq => ?_⟩⟩
  rotate_left
  · rintro p rfl
    cases requireInRange_kind he
  · have := hon.blocks_lt
    rw [requireInRange_run hq.start_nonneg (Int.natCast_nonneg _) hq.inside (by omega)] at he
    cases he
  obtain ⟨h1, -, h3⟩ := requireInRange_ok hr hlong
  obtain ⟨s, rfl⟩ := Int.eq_ofNat_of_zero_le h1
  have hin : s * h.drive.blockSize + data.length ≤ d.partitionBlocks * h.drive.blockSize := by
    rw [← Nat.div_mul_cancel hblocks, ← Nat.add_mul]
    exact Nat.mul_le_mul_right _ (by omega)
  have hL := hon.length_lt
  have hfrom : i64 ((s : ℤ) * h.drive.blockSize) = (s * h.drive.blockSize : ℕ) := by
    rw [← Int.natCast_mul, i64_natCast (by omega)]
  have hto : i64 (((s * h.drive.blockSize : ℕ) : ℤ) + data.length) =
      (s * h.drive.blockSize + data.length : ℕ) := by
    rw [← Int.natCast_add, i64_natCast (by omega)]
  have hes := es_le (d := d)
  have hfirst := fun aF aT q => @firstReserved_iff d h data hon s aF aT q (by omega)
  have hfits : d.Servable h.drive s (data.length / h.drive.blockSize) data.length →
      ceilTo d.es (s * h.drive.blockSize + data.length : ℕ) - floorTo d.es (s * h.drive.blockSize :
          ℕ) < 2 ^ 31 :=
    fun hserve => hserve.fits
  simp only [Int.toNat_natCast]
  rw [hfrom, hto, wp_ite, wp_bind, wp_bind, wp_pure]
  generalize s * h.drive.blockSize = F at *
  clear hfrom hto hlong hr h3 hL
  obtain ⟨aF, aT, hfloor, hceil, hdvdF, hdvdT, hF, hT, hend, hwide⟩ := hon.widened hin
  have hfirst := fun q => hfirst aF aT q hfloor hceil
  have hnone : (∀ p : ℕ, aF ≤ p → p < aT → d.header.shift p ≠ none) →
      ∀ q, ¬d.FirstReserved h.drive s data q := by
    intro hno q hq
    obtain ⟨-, h2, h3, h4, -⟩ := (hfirst q).1 hq
    exact hno q h2 h3 h4
  rw [hfloor, hceil] at hfits ⊢
  refine ⟨fun heq => ?_, fun _ => ?_⟩
  · have hsmall : aT - aF < 2 ^ 31 := by omega
    have hgo := wp_writeWidened hon hF hT hend hdvdF hdvdT hsmall rfl (.refl ..)
    have hdata : Bytes.slice (overwrite (d.plainAt h.drive) F data) aF (aT - aF) = data := by
      rw [show aF = F by omega, show aT - F = data.length by omega, slice_overwrite_self]
    rw [hdata] at hgo
    exact wp_mono hgo (fun _ _ hq => ⟨h1, hq.1, hq.2.1, hnone hq.2.2⟩) fun _ _ hcut => by
        obtain ⟨q, he, h2, h3, h4, h5, h6⟩ := hcut
        exact .inr ⟨q, he, (hfirst q).2 ⟨hsmall, h2, h3, h4, h5⟩, h6⟩
  · refine wp_readPlain hon hdvdF hdvdT (by omega) hend (by omega) (fun hsmall h' hd hserved => ?_)
      (fun hbig message => .inl ⟨rfl, fun p hp => ?_, fun hq => ?_⟩)
    · rw [wp_bind, arraycopy_slice hF hT hsmall]
      refine wp_lift.2 ⟨fun x hx => ?_, fun e he => (by cases he)⟩
      cases hx
      exact wp_mono
        (wp_writeWidened hon hF hT hend hdvdF hdvdT hsmall hd (hserved.mono (Nat.zero_le _) hend))
        (fun _ _ hq => ⟨h1, hq.1, hq.2.1, hnone hq.2.2⟩) fun _ _ hcut => by
        obtain ⟨q, he, h2, h3, h4, h5, h6⟩ := hcut
        exact .inr ⟨q, he, (hfirst q).2 ⟨hsmall, h2, h3, h4, h5⟩, h6⟩
    · cases congrArg Thrown.kind hp
    · have := hfits hq
      omega

lemma wp_writeBlocks (hon : d.On h.drive) (hblocks : h.drive.blockSize ∣ data.length)
    (hlong : start + (data.length / h.drive.blockSize : ℕ) < 2 ^ 63) (hsize : data.length < 2 ^ 31) :
    wp (d.writeBlocks start data)
      (fun _ h' => 0 ≤ start ∧ d.Wrote h h' ∧
        d.plainAt h'.drive = overwrite (d.plainAt h.drive) (start.toNat * h.drive.blockSize) data)
      (fun _ h' => d.Wrote h h' ∧
        (d.plainAt h'.drive = d.plainAt h.drive ∨ 0 ≤ start ∧ ∀ p,
          ¬(start.toNat * h.drive.blockSize ≤ p ∧
            p < start.toNat * h.drive.blockSize + data.length) →
            d.plainAt h'.drive p = d.plainAt h.drive p)) h := by
  refine wp_mono (wp_writeBlocks_cut hon hblocks hlong hsize) (fun _ _ hq => ⟨hq.1, hq.2.1, hq.2.2.1⟩)
    (fun e h' hq => ?_)
  rcases hq with ⟨rfl, -⟩ | ⟨q, -, hfirst, hcut⟩
  · exact ⟨⟨rfl, rfl, h', .refl .., rfl, .refl ..⟩, .inl rfl⟩
  · refine ⟨hcut.wrote, .inr ⟨hfirst.start_nonneg, fun p hp => ?_⟩⟩
    rw [hcut.plain, overwrite_outside hp, ite_self]

end Requests

end BitLockerBlockDevice

end OtgMaster.Bitlocker
