import OtgMaster.Bitlocker.Kept

/-!
A write that BitLocker's own areas refuse. The runs of the range are written in order and each is
looked at when its turn comes, so that what lies before the first reserved byte is on the drive by
the time the refusal is thrown (`cut_write`). Whatever the header, a write is refused only if there
is a reserved byte in its range, and the drive is left as it was when the range begins with one. On
a volume that lies on its drive as it should, it is left as it was just when the data before the
first reserved byte is the plaintext that is there already (`refused_unchanged_iff`).
-/

namespace OtgMaster.Bitlocker

open Lib Block BitLockerHeader

lemma Cover.zero_false {header : BitLockerHeader} {hi : ℤ} :
    ∀ {rs : List Run} {lo : ℤ}, Cover header lo hi rs →
    (∀ p, lo ≤ p → p < hi → header.shift p ≠ none) → ∀ r ∈ rs, r.zero = false
  | [], _, _, _, r, hr => absurd hr List.not_mem_nil
  | r :: rs, lo, hc, hfree, x, hx => by
    obtain ⟨hstart, hlt, hshift, hrest⟩ := hc
    have hle := hrest.le
    rcases List.mem_cons.1 hx with rfl | hx
    · by_contra hz
      have hnone := hshift x.start le_rfl hlt
      rw [if_pos (Bool.eq_true_of_not_eq_false hz)] at hnone
      exact hfree x.start (by omega) (by omega) hnone
    · exact Cover.zero_false hrest (fun p h1 h2 => hfree p (by omega) h2) x hx

namespace BitLockerBlockDevice

variable {d : BitLockerBlockDevice} {h : Host} {start : ℤ} {data : List UInt8}

/-- The first byte of the range of a write, widened to whole sectors. -/
def widenedFrom (d : BitLockerBlockDevice) (w : Machine) (start : ℤ) : ℤ :=
  floorTo d.es (i64 (start * w.blockSize))

def widenedTo (d : BitLockerBlockDevice) (w : Machine) (start : ℤ) (data : List UInt8) : ℤ :=
  ceilTo d.es (i64 (i64 (start * w.blockSize) + data.length))

/-! ### What comes before the runs -/

/-- The exception does not say that a write was refused. -/
def Unrefused (e : Thrown) : Prop := e.kind = .io → e.message.toList.take 3 ≠ ['r', 'e', 'f']

lemma toString_string (s : String) : toString s = s := rfl

lemma not_unrefused (p : ℤ) : ¬Unrefused (refusal p) := fun h =>
  h rfl (by simp [refusal, String.toList_append, toString_string])

lemma unrefused_of_kind {e : Thrown} (h : e.kind ≠ .io) : Unrefused e := fun hio => absurd hio h

lemma arraycopy_unrefused {src dst : List UInt8} {pos : ℤ} {e : Thrown}
    (h : arraycopy src dst pos = .error e) : Unrefused e := by
  rcases failIf_bind_error h with rfl | h
  · exact unrefused_of_kind (fun hk => by cases hk)
  · cases h

lemma copyOfRange_unrefused {l : List UInt8} {a b : ℤ} {e : Thrown} (h : copyOfRange l a b = .error e) :
    Unrefused e := by
  rcases failIf_bind_error h with rfl | h
  · exact unrefused_of_kind (fun hk => by cases hk)
  rcases failIf_bind_error h with rfl | h
  · exact unrefused_of_kind (fun hk => by cases hk)
  rcases failIf_bind_error h with rfl | h
  · exact unrefused_of_kind (fun hk => by cases hk)
  · cases h

lemma readDrive_unrefused (s count : ℤ) (g : Host) :
    wp (readDrive s count) (fun _ g' => g'.drive = g.drive) (fun e g' => g'.drive = g.drive ∧
      Unrefused e) g := by
  unfold readDrive Machine.readBlocks
  simp only [wp_bind, wp_modify, wp_get, wp_throwIf]
  refine ⟨fun _ => ⟨rfl, by simp [Unrefused]⟩,
    fun _ => ⟨fun _ => ⟨rfl, unrefused_of_kind (fun hk => by cases hk)⟩,
    fun _ => wp_lift.2 ⟨fun _ _ => rfl, fun e he => ⟨rfl, ?_⟩⟩⟩⟩
  rcases failIf_bind_error he with rfl | he
  · simp [Unrefused]
  · cases he

lemma wp_readPlain_drive (bs : ℕ) (fromByte toByte : ℤ) : wp (d.readPlain bs fromByte toByte)
    (fun _ h' => h'.drive = h.drive) (fun e h' => h'.drive = h.drive ∧ Unrefused e) h := by
  unfold readPlain
  rw [wp_bind, wp_throwIf]
  refine ⟨fun _ => ⟨rfl, unrefused_of_kind (fun hk => by cases hk)⟩, fun _ => ?_⟩
  refine wp_foldlM (fun _ _ _ g => g.drive = h.drive) (fun _ r _ out g hg => ?_) _ [] _ h rfl
  unfold readRun
  rw [wp_ite]
  refine ⟨fun _ => hg, fun _ => ?_⟩
  simp only [wp_bind]
  refine wp_mono (readDrive_unrefused _ _ g) (fun _ g' hg' => ?_) fun e g' hg' => ⟨hg'.1.trans hg, hg'.2⟩
  refine wp_lift.2
    ⟨fun _ _ => wp_lift.2 ⟨fun _ _ => hg'.trans hg,
      fun e he => ⟨hg'.trans hg, arraycopy_unrefused he⟩⟩, fun e he => ⟨hg'.trans hg, ?_⟩⟩
  rw [orThrow_error he]
  simp [Unrefused, String.toList_append, toString_string]

lemma wp_writeBlocks_runs {Q : PUnit → Host → Prop} {E : Thrown → Host → Prop}
    (hE : ∀ e h', h'.drive = h.drive → Unrefused e → E e h')
    (hruns : ∀ plain h', h'.drive = h.drive → wp ((d.header.runs (d.widenedFrom h.drive start)
      (d.widenedTo h.drive start data)).forM
        (d.writeRun h.drive.blockSize (d.widenedFrom h.drive start) plain)) Q E h') :
    wp (d.writeBlocks start data) Q E h := by
  unfold writeBlocks
  simp only [wp_bind, wp_get]
  refine wp_lift.2 ⟨fun _ _ => ?_, fun e he => hE e h rfl ?_⟩
  · rw [wp_ite, wp_bind, wp_bind, wp_pure]
    refine ⟨fun _ => hruns _ h rfl, fun _ => wp_mono (wp_readPlain_drive ..) (fun whole g hg => ?_)
      fun e g hg => hE e g hg.1 hg.2⟩
    rw [wp_bind]
    exact wp_lift.2 ⟨fun _ _ => hruns _ g hg, fun e he => hE e g hg (arraycopy_unrefused he)⟩
  · rw [failIf_error he]
    exact unrefused_of_kind (fun hk => by cases hk)

/-! ### A range that begins in a hole -/

lemma wp_writeRuns_hole {bs : ℕ} {aF aT : ℤ} {plain : List UInt8} (hhole : d.header.shift aF = none) :
    wp ((d.header.runs aF aT).forM (d.writeRun bs aF plain)) (fun _ _ => True) (fun _ h' => h' = h)
      h := by
  by_cases hlt : aF < aT
  · unfold shift at hhole
    split at hhole
    · cases hhole
    rename_i hhdr
    split at hhole
    · rename_i hany
      obtain ⟨hole, hfind⟩ := Option.isSome_iff_exists.1 (List.find?_isSome.2 (List.any_eq_true.1 hany))
      rw [runs_hole hlt hhdr hfind]
      unfold writeRun
      rw [List.forM, wp_bind, wp_bind, wp_throwIf]
      exact ⟨fun _ => rfl, fun hz => absurd rfl hz⟩
    · cases hhole
  · rw [runs_nil hlt]
    trivial

lemma wp_writeBlocks_hole (hhole : d.header.shift (d.widenedFrom h.drive start) = none) :
    wp (d.writeBlocks start data) (fun _ _ => True) (fun _ h' => h'.drive = h.drive) h :=
  wp_writeBlocks_runs (fun _ _ hg _ => hg) fun _ _ hg =>
    wp_mono (wp_writeRuns_hole hhole) (fun _ _ _ => trivial) fun _ _ hq => hq ▸ hg

/-! ### A range without a reserved byte -/

lemma writeDrive_unrefused (s : ℤ) (g : Host) :
    wp (writeDrive s data) (fun _ _ => True) (fun e _ => Unrefused e) g := by
  unfold writeDrive
  simp only [wp_bind, wp_modify, wp_get, wp_throwIf]
  exact ⟨fun _ => unrefused_of_kind (fun hk => by cases hk), fun _ => ⟨fun _ => by simp [Unrefused],
    fun _ => ⟨fun _ => by simp [Unrefused], fun _ => trivial⟩⟩⟩

lemma writeRun_unrefused {bs : ℕ} {aF : ℤ} {plain : List UInt8} {r : Run} (hr : r.zero = false)
    (g : Host) : wp (d.writeRun bs aF plain r) (fun _ _ => True) (fun e _ => Unrefused e) g := by
  unfold writeRun
  simp only [wp_bind, wp_throwIf]
  refine ⟨fun hz => (by rw [hr] at hz; cases hz), fun _ => wp_lift.2 ⟨fun _ _ => wp_lift.2 ⟨fun _ _ =>
    writeDrive_unrefused _ g, fun e he => ?_⟩, fun e he => copyOfRange_unrefused he⟩⟩
  rw [orThrow_error he]
  simp [Unrefused, String.toList_append, toString_string]

lemma wp_writeBlocks_free
    (hfree : ∀ p, d.widenedFrom h.drive start ≤ p → p < d.widenedTo h.drive start data →
      d.header.shift p ≠ none) :
    wp (d.writeBlocks start data) (fun _ _ => True) (fun e _ => Unrefused e) h := by
  refine wp_writeBlocks_runs (fun _ _ _ he => he) fun plain g _ => ?_
  have hzero : ∀ r ∈ d.header.runs (d.widenedFrom h.drive start) (d.widenedTo h.drive start data),
      r.zero = false := by
    rcases le_or_gt (d.widenedFrom h.drive start) (d.widenedTo h.drive start data) with hle | hgt
    · exact (runs_cover d.header _ _ hle).zero_false hfree
    · rw [runs_nil (by omega)]
      exact fun r hr => absurd hr List.not_mem_nil
  refine wp_mono (wp_forM (fun _ rs _ => ∀ r ∈ rs, r.zero = false) (fun _ r rs g hr => ?_) _ [] g hzero)
    (fun _ _ _ => trivial) fun _ _ he => he
  exact wp_mono (writeRun_unrefused (hr r List.mem_cons_self) g)
    (fun _ _ _ x hx => hr x (List.mem_cons_of_mem _ hx))
    fun _ _ he => he

/-! ### A range that reaches a hole -/

/-- **When a refused write leaves the drive as it was.** Whatever the header says, a write whose
widened range has no reserved byte is not refused, and one whose widened range begins with a
reserved byte leaves the drive as it was. On a volume that lies on its drive as it should, a refused
write leaves the drive as it was just if the data changes nothing of the plaintext before the first
reserved byte. -/
theorem refused_unchanged_iff (d : BitLockerBlockDevice) (h : Host) (start : ℤ) (data : List UInt8) :
    ((∀ p, d.widenedFrom h.drive start ≤ p → p < d.widenedTo h.drive start data →
      d.header.shift p ≠ none) → ∀ p h', d.writeBlocks start data h ≠ .error (refusal p) h') ∧
    (d.header.shift (d.widenedFrom h.drive start) = none →
      ∀ e h', d.writeBlocks start data h = .error e h' → h'.drive = h.drive) ∧
    (d.On h.drive → (Request.write start data).Sane h.drive.blockSize →
      ((∀ p h', d.writeBlocks start data h = .error (refusal p) h' → h'.drive = h.drive) ↔
        ∀ q, d.FirstReserved h.drive start data q → ∀ p < q,
          overwrite (d.plainAt h.drive) (start.toNat * h.drive.blockSize) data p =
            d.plainAt h.drive p)) := by
  refine ⟨fun hfree p h' herr => not_unrefused p ((wp_of_error herr).1 (wp_writeBlocks_free hfree)),
    fun hhole e h' herr => (wp_of_error herr).1 (wp_writeBlocks_hole hhole), fun hon hsane => ?_⟩
  have hwrite := wp_writeBlocks_cut hon hsane.1 hsane.2.2 hsane.2.1
  constructor
  · intro hkept q hq p hp
    unfold wp at hwrite
    cases hrun : d.writeBlocks start data h with
    | ok _ h' =>
      rw [hrun] at hwrite
      exact absurd hq (hwrite.2.2.2 q)
    | error e h' =>
      rw [hrun] at hwrite
      rcases hwrite with ⟨-, -, hnone⟩ | ⟨q', rfl, hq', hcut⟩
      · exact absurd hq.toServable hnone
      · -- there is one first reserved byte
        have hqq : q = q' := by
          rcases Nat.lt_trichotomy q q' with hlt | heq | hgt
          · exact absurd hq.reserved (hq'.first q hq.lower hlt)
          · exact heq
          · exact absurd hq'.reserved (hq.first q' hq'.lower hgt)
        have hplain := hcut.plain p
        rw [hkept _ h' hrun, if_pos (hqq ▸ hp)] at hplain
        exact hplain.symm
  · intro hsame p h' herr
    rcases (wp_of_error herr).1 hwrite with ⟨rfl, -⟩ | ⟨q, -, hq, hcut⟩
    · rfl
    · exact hcut.same (hsame q hq)

def refusedWith {α : Type} (e : Thrown) (a : ℕ) (b : UInt8) : EStateM.Result Thrown Host α → Bool
  | .ok _ _ => false
  | .error e' h => e' = e ∧ h.drive.bytes a = b

/-- Two blocks from block 1 on, the second of them where the first bytes of the volume were moved
to: the write is refused at byte 1024, and byte 512 has changed. -/
theorem cut_write : sampleDevice.On sampleDrive ∧
    ∃ h, sampleDevice.writeBlocks 1 (List.replicate 1024 1) ⟨sampleDrive, []⟩ = .error (refusal 1024) h ∧
      sampleDrive.bytes 512 = 0 ∧ h.drive.bytes 512 = 1 := by
  have hrun : refusedWith (refusal 1024) 512 1
    (sampleDevice.writeBlocks 1 (List.replicate 1024 1) ⟨sampleDrive, []⟩) =
      true := by decide +kernel
  refine ⟨sample_on, ?_⟩
  generalize sampleDevice.writeBlocks 1 (List.replicate 1024 1) ⟨sampleDrive, []⟩ = result at hrun ⊢
  cases result with
  | ok _ _ => cases hrun
  | error e h =>
    obtain ⟨rfl, hbyte⟩ := of_decide_eq_true hrun
    exact ⟨h, rfl, by decide, hbyte⟩

lemma sample_plainAt (p : ℕ) : sampleDevice.plainAt sampleDrive p = 0 := by
  have hslice : ∀ a n i, (Bytes.slice (fun _ => 0) a n).getD i 0 = 0 := fun a n i => by
    rw [List.getD_eq_getElem?_getD, Bytes.slice, List.getElem?_map]
    cases (List.range n)[i]? <;> rfl
  have hcrypt : ∀ encrypt n l, sampleDevice.cipher.crypt encrypt n l = l := fun _ _ _ => rfl
  unfold plainAt
  split
  · rw [sectorByte, hcrypt, show sampleDrive.bytes = fun _ => 0 from rfl, hslice]
  · rfl

lemma overwrite_zeros {b : Bytes} (hb : ∀ p, b p = 0) (a n p : ℕ) :
    overwrite b a (List.replicate n 0) p = b p := by
  unfold overwrite
  split
  · rw [hb, List.getElem?_replicate]
    split <;> rfl
  · rfl

/-- A write that begins in the hole, and one whose block before the hole is written with what it
holds: both are refused, and nothing has changed. On a volume of uneven size, a write of a sector
outside the holes is not refused. -/
theorem refused_unchanged_zeros :
    (∀ e h', sampleDevice.writeBlocks 2 (List.replicate 512 1) ⟨sampleDrive, []⟩ = .error e h' →
      h'.drive = sampleDrive) ∧
    (∀ p h', sampleDevice.writeBlocks 1 (List.replicate 1024 0) ⟨sampleDrive, []⟩ =
      .error (refusal p) h' → h'.drive = sampleDrive) ∧
    ∀ p h', unevenDevice.writeBlocks 8 (List.replicate 4096 1) ⟨sampleDrive, []⟩ ≠
      .error (refusal p) h' := by
  refine ⟨(refused_unchanged_iff sampleDevice ⟨sampleDrive, []⟩ 2 (List.replicate 512 1)).2.1
    (by decide +kernel), ?_,
    (refused_unchanged_iff unevenDevice ⟨sampleDrive, []⟩ 8 (List.replicate 4096 1)).1 fun p h1 h2 => ?_⟩
  · refine ((refused_unchanged_iff sampleDevice ⟨sampleDrive, []⟩ 1 (List.replicate 1024 0)).2.2
      sample_on ?_).2 ?_
    · refine ⟨?_, ?_, ?_⟩ <;> rw [List.length_replicate] <;> decide
    · intro q _ p _
      exact overwrite_zeros sample_plainAt ..
  · have hholes : unevenDevice.header.holes = [⟨16384, 20479⟩, ⟨65536, 131071⟩, ⟨131072, 196607⟩,
        ⟨196608, 262143⟩] := by
      decide +kernel
    have hfrom : unevenDevice.widenedFrom sampleDrive 8 = 4096 := by decide +kernel
    have hto : unevenDevice.widenedTo sampleDrive 8 (List.replicate 4096 1) = 8192 := by decide +kernel
    have hsize : unevenDevice.header.volumeHeaderSize = 4096 := rfl
    rw [hfrom] at h1
    rw [hto] at h2
    rw [shift, if_neg (by omega), hholes, if_neg]
    · exact Option.some_ne_none _
    · simp only [LongRange.contains, List.any_cons, List.any_nil, Bool.or_false, Bool.or_eq_true,
        Bool.and_eq_true, decide_eq_true_eq]
      omega

end BitLockerBlockDevice

end OtgMaster.Bitlocker
