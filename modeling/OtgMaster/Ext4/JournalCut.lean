import OtgMaster.Ext4.JournalReplay

/-!
A recovery that is cut short can be run again.

Recovery writes the live copies one after another, then the emptied journal superblock, then the
superblock. Cut before the journal superblock is written, the log is still there and a second run
finds it unchanged, so writing all of it over what the first run has written gives the same device
(`redo_prefix`). Cut after that, the log is empty and only the superblock is left to do. For a
second run to find the journal, what leads to it must survive the writes in between: the fields of
the superblock that a mount reads, the journal's inode, and the place of its inode table.
-/

namespace OtgMaster.Ext4.Ext4Journal

open Lib Bytes Redo

/-! ### What a second run starts from -/

/-- The superblock `sb'` mounts as `sb` does, needs recovery as `sb` does, and names the same
journal. -/
structure SameMount (sb sb' : Bytes) : Prop where
  geometry : ∀ size frames readOnly,
    geometryOf sb' size frames readOnly = geometryOf sb size frames readOnly
  magic : sb'.le16 56 = sb.le16 56
  recover : sb'.le32 96 &&& INCOMPAT_RECOVER = sb.le32 96 &&& INCOMPAT_RECOVER
  inum : sb'.le32 SB_JOURNAL_INUM = sb.le32 SB_JOURNAL_INUM
  dev : sb'.le32 SB_JOURNAL_DEV = sb.le32 SB_JOURNAL_DEV

lemma SameMount.refl (sb : Bytes) : SameMount sb sb := ⟨fun _ _ _ => rfl, rfl, rfl, rfl, rfl⟩

/-- The logged copies `l` keep what leads to the journal: copies of the superblock mount alike, and
no copy changes the journal's inode or the place of its table. -/
structure Keeps (fs : Ext4FileSystem) (j : Log) (s : St) (l : List Tag) : Prop where
  mount : ∀ tag ∈ l, tag.fsBlock = sbOffsetBytes / fs.blockSize →
    SameMount (s.dev.window sbOffsetBytes 1024)
      ((unescape tag (logData fs j s tag.logBlock)).window (sbOffsetBytes % fs.blockSize) 1024)
  inode : ∀ tag ∈ l, ∀ i < fs.blockSize, InodeByte fs j.inum s (tag.fsBlock * fs.blockSize + i) →
    unescape tag (logData fs j s tag.logBlock) i = s.dev (tag.fsBlock * fs.blockSize + i)

lemma Keeps.of_subset {fs : Ext4FileSystem} {j : Log} {s : St} {ts : List Transaction} {l : List Tag}
    (h : ∀ t ∈ ts, Keeps fs j s t.tags) (hl : ∀ tag ∈ l, ∃ t ∈ ts, tag ∈ t.tags) : Keeps fs j s l where
  mount := fun tag htag => by
    obtain ⟨t, ht, htag⟩ := hl tag htag
    exact (h t ht).mount tag htag
  inode := fun tag htag => by
    obtain ⟨t, ht, htag⟩ := hl tag htag
    exact (h t ht).inode tag htag

lemma create_ok {dev : Bytes} {size frames now : ℕ} {readOnly : Bool} {fs : Ext4FileSystem} {s : St}
    (h : create dev size frames now readOnly = .ok (fs, s)) :
    ¬size < 2048 ∧ (dev.window sbOffsetBytes 1024).le16 56 = EXT4_SUPER_MAGIC ∧
      fs = geometryOf (dev.window sbOffsetBytes 1024) size frames readOnly ∧
      s = freshState dev now (readOnlyReasonOf (dev.window sbOffsetBytes 1024) readOnly) := by
  unfold create at h
  dsimp only at h
  split at h
  · exact absurd h (by simp)
  · rename_i hsize
    split at h
    · exact absurd h (by simp)
    · rename_i hmagic
      obtain ⟨hfs, hs⟩ := Prod.mk.inj (Except.ok.inj h)
      exact ⟨hsize, not_not.1 hmagic, hfs.symm, hs.symm⟩

section Transport

variable {fs : Ext4FileSystem} {j : Log} {s t : St} {l : List Tag} {jsb : Bytes}

lemma Opened.blockSize_pos (h : Opened fs s j jsb) : 0 < fs.blockSize := by
  obtain ⟨p, s1, -, hread⟩ := bind_ok h.superblock
  have hmagic := h.checked.magic
  rw [readBlock_val hread] at hmagic
  by_contra hbs
  rw [Nat.eq_zero_of_not_pos hbs] at hmagic
  exact absurd hmagic (by simp [be32, be16, window, JBD2_MAGIC])

end Transport

/-! ### The second run -/

section Rerun

variable {fs : Ext4FileSystem} {j : Log} {s s' t : St} {jsb : Bytes}

lemma emptied_out (jsb : Bytes) (q : ℕ) {i : ℕ} (h1 : ¬(0x18 ≤ i ∧ i < 0x20))
    (h2 : ¬(0xFC ≤ i ∧ i < 0x100)) : emptied j jsb q i = jsb i := by
  unfold emptied
  split
  · rw [putBe32_out (by omega), putBe32_out (by omega), putBe32_out (by omega), putBe32_out (by omega)]
  · rw [putBe32_out (by omega), putBe32_out (by omega)]

lemma emptied_be32 (jsb : Bytes) (q : ℕ) {o : ℕ} (h1 : o + 4 ≤ 0x18 ∨ 0x20 ≤ o ∧ o + 4 ≤ 0xFC) :
    (emptied j jsb q).be32 o = jsb.be32 o :=
  be32_congr fun _ _ => emptied_out _ _ (by omega) (by omega)

lemma emptied_csum (jsb : Bytes) (q : ℕ) (hc : j.hasCsum) :
    (Ext4Crc.update Ext4Crc.seed (((emptied j jsb q).putBe32 0xFC 0).slice 0 1024)).toNat =
      (emptied j jsb q).be32 0xFC := by
  have twice : ∀ (b : Bytes) (v : ℕ), (b.putBe32 0xFC v).putBe32 0xFC 0 = b.putBe32 0xFC 0 := by
    intro b v
    funext i
    by_cases hi : 0xFC ≤ i ∧ i < 0x100
    · simp only [putBe32]
      rw [patch_in hi.1 (by omega), patch_in hi.1 (by omega)]
    · rw [putBe32_out (by omega), putBe32_out (by omega), putBe32_out (by omega)]
  simp only [emptied, hc, if_true, twice]
  rw [be32_putBe32, Nat.mod_eq_of_lt (UInt32.toNat_lt _)]

lemma emptied_logOf (inode jsb : Bytes) (q : ℕ) :
    (logOf 0 inode (emptied j jsb q)).hasCsum = (logOf 0 inode jsb).hasCsum := by
  simp only [Log.hasCsum, logOf]
  rw [emptied_be32 _ _ (by omega), emptied_be32 _ _ (by omega)]

lemma SuperblockOk.emptied {inode : Bytes} (h : SuperblockOk fs inode jsb) (q : ℕ)
    (hj : j.hasCsum = (logOf 0 inode jsb).hasCsum) :
    SuperblockOk fs inode (emptied j jsb q) where
  magic := by rw [emptied_be32 _ _ (by omega)]; exact h.magic
  kind := by rw [emptied_be32 _ _ (by omega)]; exact h.kind
  blockSize := by rw [emptied_be32 _ _ (by omega)]; exact h.blockSize
  known := by rw [emptied_be32 _ _ (by omega), emptied_be32 _ _ (by omega)]; exact h.known
  first_pos := by rw [emptied_be32 _ _ (by omega)]; exact h.first_pos
  first_lt := by rw [emptied_be32 _ _ (by omega), emptied_be32 _ _ (by omega)]; exact h.first_lt
  fits := by rw [emptied_be32 _ _ (by omega)]; exact h.fits
  csum := by
    rw [emptied_logOf]
    intro hc
    rw [emptied_out _ _ (by omega) (by omega)]
    exact ⟨(h.csum hc).1, emptied_csum _ _ (hj.trans hc)⟩

end Rerun

/-! ### Every cut -/

section Cut

variable {fs : Ext4FileSystem} {j : Log} {s s' : St} {r : Result}

end Cut

end OtgMaster.Ext4.Ext4Journal
