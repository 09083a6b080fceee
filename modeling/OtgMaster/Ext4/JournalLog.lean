import OtgMaster.Ext4.Journal
import OtgMaster.Lib.Crc

/-!
What the log of a journal says, as a relation on its bytes, and that the scan finds exactly that.

The first part is the format of a jbd2 log, stated apart from the reader: the log is a ring of
blocks, a descriptor block lists tags (`Tags`), a revoke block lists block numbers (`Revokes`), and
each of the records of a log with checksums carries its own (`Sealed`).

A transaction is a chain of log records with one sequence number, descriptor and revoke blocks in
any order and then a commit block (`Txn`). The committed transactions of a log (`Committed`) are
the transactions that follow one another from its start, up to the first place where no complete
transaction stands, or to the end of the scanned range.
-/

namespace OtgMaster.Ext4.Ext4Journal

open Lib Bytes

/-! ### The format of a log -/

section Format

def crc32c (c : UInt32) (data : List UInt8) : UInt32 := Crc.remainder 0x82F63B78 c data

variable (fs : Ext4FileSystem) (j : Log)

/-- The log is a ring: its last block is followed by its first. -/
def Log.after (b : ℕ) : ℕ := if b + 1 = j.maxLen then j.first else b + 1

def Log.summed : Bool := j.csum2 || j.csum3

def Log.tailSize : ℕ := if j.summed then 4 else 0

/-- The bytes of a tag: with checksums of version 3 always 16, otherwise 8, four more for a block
number of 64 bits and two more with checksums of version 2. -/
def Log.tagSize : ℕ :=
  if j.csum3 then 16 else 8 + (if j.is64 then 4 else 0) + (if j.csum2 then 2 else 0)

/-- The tag at `off` of the descriptor block `buf`, whose copy stands in the log block `d`. -/
structure TagAt (buf : Bytes) (off d : ℕ) (tag : Tag) : Prop where
  logBlock : tag.logBlock = d
  low : tag.fsBlock % 2 ^ 32 = buf.be32 off
  high : tag.fsBlock / 2 ^ 32 = if j.is64 then buf.be32 (off + 8) else 0
  flags : tag.flags = if j.csum3 then buf.be32 (off + 4) else buf.be16 (off + 6)
  csum : tag.csum = if j.csum3 then buf.be32 (off + 12) else buf.be16 (off + 4)

/-- `Tags buf off d tags d'`: from `off` on, the descriptor block `buf` lists `tags`, whose copies
stand in the log from block `d` up to `d'`. Bit 3 of the flags marks the last tag; 16 bytes of UUID
follow a tag unless bit 1 is set. -/
inductive Tags (buf : Bytes) : ℕ → ℕ → List Tag → ℕ → Prop
  | full {off d : ℕ} (h : fs.blockSize < off + j.tagSize + j.tailSize) : Tags buf off d [] d
  | last {off d : ℕ} {tag : Tag} (hroom : off + j.tagSize + j.tailSize ≤ fs.blockSize)
      (ht : TagAt j buf off d tag) (hl : tag.flags.testBit 3) : Tags buf off d [tag] (j.after d)
  | more {off d d' : ℕ} {tag : Tag} {tags : List Tag}
      (hroom : off + j.tagSize + j.tailSize ≤ fs.blockSize) (ht : TagAt j buf off d tag)
      (hl : ¬tag.flags.testBit 3)
      (h : Tags buf (off + j.tagSize + if tag.flags.testBit 1 then 0 else 16) (j.after d) tags d') :
      Tags buf off d (tag :: tags) d'

/-- The revoke block `buf` lists the block numbers `revoked`, from offset 16 up to the length it
gives at offset 12, a positive `Int`. -/
def Revokes (buf : Bytes) (revoked : List ℕ) : Prop :=
  (16 ≤ buf.be32 12 ∧ buf.be32 12 < 2 ^ 31 ∧ buf.be32 12 + j.tailSize ≤ fs.blockSize) ∧
    revoked = (List.range ((buf.be32 12 - 16) / if j.is64 then 8 else 4)).map fun k =>
      if j.is64 then buf.be64 (16 + 8 * k) else buf.be32 (16 + 4 * k)

/-- At `o` the block `buf` has its own checksum, counted as if it were zero there. -/
def Sealed (buf : Bytes) (o : ℕ) : Prop :=
  buf.be32 o = (crc32c j.seed ((List.range fs.blockSize).map fun i =>
    if o ≤ i ∧ i < o + 4 then 0 else buf i)).toNat

/-- Byte `i` of the block that was logged as `data`: bit 0 of the flags says that the copy had its
first four bytes replaced, because they were the magic number of the log. -/
def restored (tag : Tag) (data : Bytes) (i : ℕ) : UInt8 :=
  if tag.flags.testBit 0 ∧ i < 4 then [0xC0, 0x3B, 0x39, 0x98].getD i 0 else data i

/-- The journal superblock `jsb` describes the log `j`. -/
structure Describes (jsb : Bytes) : Prop where
  maxLen : j.maxLen = jsb.be32 16
  first : j.first = jsb.be32 20
  firstSequence : j.firstSequence = jsb.be32 24
  start : j.start = jsb.be32 28
  is64 : j.is64 ↔ jsb.be32 4 = 4 ∧ (jsb.be32 40).testBit 1
  csum2 : j.csum2 ↔ jsb.be32 4 = 4 ∧ (jsb.be32 40).testBit 3
  csum3 : j.csum3 ↔ jsb.be32 4 = 4 ∧ (jsb.be32 40).testBit 4
  seed : j.seed = if j.summed then crc32c 0xFFFFFFFF (jsb.slice 48 16) else 0

end Format

/-! ### What a log holds -/

section Spec

variable (fs : Ext4FileSystem) (j : Log) (s : St)

/-- Log block `b` is a record of the given kind and sequence number. -/
def Record (b q kind : ℕ) (buf : Bytes) : Prop :=
  read fs j b s = .ok buf s ∧ buf.be32 0 = 0xC03B3998 ∧ buf.be32 8 = q ∧ buf.be32 4 = kind

/-- `Txn q b tags revoked after n`: from log block `b` on stands a complete transaction with
sequence number `q`, made of `n` records, that logs `tags` and revokes `revoked`; its commit block
is valid and is followed by log block `after`. -/
inductive Txn (q : ℕ) : ℕ → List Tag → List ℕ → ℕ → ℕ → Prop
  | commit {b : ℕ} {buf : Bytes} (hr : Record fs j s b q 2 buf)
      (hc : j.summed → Sealed fs j buf 16) : Txn q b [] [] (j.after b) 1
  | descriptor {b d after n : ℕ} {buf : Bytes} {own tags : List Tag} {revoked : List ℕ}
      (hr : Record fs j s b q 1 buf) (hc : j.summed → Sealed fs j buf (fs.blockSize - 4))
      (ht : Tags fs j buf 12 (j.after b) own d) (h : Txn q d tags revoked after n) :
      Txn q b (own ++ tags) revoked after (n + 1)
  | revoke {b after n : ℕ} {buf : Bytes} {tags : List Tag} {own revoked : List ℕ}
      (hr : Record fs j s b q 5 buf) (hc : j.summed → Sealed fs j buf (fs.blockSize - 4))
      (hv : Revokes fs j buf own) (h : Txn q (j.after b) tags revoked after n) :
      Txn q b tags (own ++ revoked) after (n + 1)

/-- `Committed b q n ts`: the complete transactions that follow one another from log block `b` and
sequence number `q` on, within `n` records, are `ts`. -/
inductive Committed : ℕ → ℕ → ℕ → List Transaction → Prop
  | stop {b q n : ℕ} (h : ∀ tags revoked after k, Txn fs j s q b tags revoked after k → n < k) :
      Committed b q n []
  | next {b q n k after : ℕ} {tags : List Tag} {revoked : List ℕ} {ts : List Transaction}
      (h : Txn fs j s q b tags revoked after k) (hk : k ≤ n)
      (hts : Committed after ((q + 1) % 2 ^ 32) (n - k) ts) :
      Committed b q n (⟨q, tags, revoked⟩ :: ts)

/-- `j` is the log of the volume: the superblock names the journal's inode, and the first block of
that file describes the log. -/
structure IsLog : Prop where
  inum : j.inum = (s.dev.window 1024 1024).le32 0xE0
  inode : readInode fs j.inum s = .ok j.inode s
  superblock : ∃ jsb, read fs j 0 s = .ok jsb s ∧ Describes j jsb

/-- The committed transactions of the volume's journal are `ts`. -/
def LogHolds (ts : List Transaction) : Prop :=
  IsLog fs j s ∧
    (j.start = 0 ∧ ts = [] ∨
      j.start ≠ 0 ∧ Committed fs j s j.start j.firstSequence (j.maxLen + 1) ts)

end Spec

variable {fs : Ext4FileSystem} {j : Log} {s : St}

/-! ### The reader reads that format -/

lemma update_eq (c : UInt32) (data : List UInt8) : Ext4Crc.update c data = crc32c c data := by
  unfold Ext4Crc.update crc32c Crc.remainder
  congr 1
  funext c b
  exact (Crc.octet_eq c b).symm

lemma and_two_pow_ne_zero (n i : ℕ) : n &&& 2 ^ i ≠ 0 ↔ n.testBit i := by
  rw [Nat.and_two_pow]
  cases n.testBit i <;> simp

lemma tailBytes_eq (j : Log) : j.tailBytes = j.tailSize := rfl

lemma tagBytes_eq (j : Log) : j.tagBytes = j.tagSize := by
  unfold Log.tagBytes Log.tagSize
  cases j.csum3 <;> cases j.csum2 <;> cases j.is64 <;> rfl

lemma slice_putBe32 (buf : Bytes) (o n : ℕ) : (buf.putBe32 o 0).slice 0 n =
    (List.range n).map fun i => if o ≤ i ∧ i < o + 4 then 0 else buf i := by
  unfold slice
  refine List.map_congr_left fun i _ => ?_
  rw [Nat.zero_add]
  split
  · rw [putBe32, patch_in (by omega) (by omega)]
    simp [leByte]
  · exact putBe32_out (by omega)

lemma commitCsumOk_iff (buf : Bytes) : commitCsumOk fs j buf ↔ Sealed fs j buf 16 := by
  rw [commitCsumOk, decide_eq_true_eq, slice_putBe32, update_eq, Sealed, eq_comm]

lemma blockCsumOk_iff (buf : Bytes) :
    blockCsumOk fs j buf ↔ Sealed fs j buf (fs.blockSize - 4) := by
  rw [blockCsumOk, decide_eq_true_eq, slice_putBe32, update_eq, Sealed, eq_comm]

lemma Describes.unique {j' : Log} {jsb : Bytes} (h : Describes j jsb) (h' : Describes j' jsb)
    (hinum : j.inum = j'.inum) (hinode : j.inode = j'.inode) : j = j' := by
  have h64 : j.is64 = j'.is64 := Bool.eq_iff_iff.2 (h.is64.trans h'.is64.symm)
  have h2 : j.csum2 = j'.csum2 := Bool.eq_iff_iff.2 (h.csum2.trans h'.csum2.symm)
  have h3 : j.csum3 = j'.csum3 := Bool.eq_iff_iff.2 (h.csum3.trans h'.csum3.symm)
  have hseed : j.seed = j'.seed := by rw [h.seed, h'.seed, Log.summed, Log.summed, h2, h3]
  cases j
  cases j'
  simp only [Log.mk.injEq]
  exact ⟨hinum, hinode, h.maxLen.trans h'.maxLen.symm, h.first.trans h'.first.symm,
    h.firstSequence.trans h'.firstSequence.symm, h.start.trans h'.start.symm, h64, h2, h3, hseed⟩

lemma tagAt_spec (buf : Bytes) (off d : ℕ) : TagAt j buf off d (tagAt j buf off d) := by
  have hlow := be32_lt buf off
  have hhigh := be32_lt buf (off + 8)
  unfold tagAt
  dsimp only
  cases hc : j.csum3 <;> cases hw : j.is64 <;>
    refine ⟨rfl, ?_, ?_, by simp [hc], by simp [hc]⟩ <;> simp [hw] <;> omega

variable {buf : Bytes} {off d : ℕ} {tags : List Tag} {b q after n : ℕ} {revoked : List ℕ}
    {ts : List Transaction} {st st' : Scan}

lemma TagAt.unique {tag tag' : Tag} (h : TagAt j buf off d tag)
    (h' : TagAt j buf off d tag') : tag = tag' := by
  have hblock : tag.fsBlock = tag'.fsBlock := by
    rw [← Nat.div_add_mod tag.fsBlock (2 ^ 32), ← Nat.div_add_mod tag'.fsBlock (2 ^ 32), h.low, h.high,
      h'.low, h'.high]
  cases tag
  cases tag'
  simp only [Tag.mk.injEq]
  exact ⟨hblock, h.logBlock.trans h'.logBlock.symm, h.flags.trans h'.flags.symm,
    h.csum.trans h'.csum.symm⟩

lemma Tags.unique {d1 : ℕ}
    (h : Tags fs j buf off d tags d1) :
    ∀ {tags' d2}, Tags fs j buf off d tags' d2 → tags = tags' ∧ d1 = d2 := by
  induction h with
  | full h =>
    intro tags' d2 h'
    cases h' with
    | full _ => exact ⟨rfl, rfl⟩
    | last hroom _ _ => omega
    | more hroom _ _ _ => omega
  | last hroom ht hl =>
    intro tags' d2 h'
    cases h' with
    | full h => omega
    | last _ ht' _ => exact ⟨by rw [ht.unique ht'], rfl⟩
    | more _ ht' hl' _ => exact absurd hl (ht.unique ht' ▸ hl')
  | more hroom ht hl h ih =>
    intro tags' d2 h'
    cases h' with
    | full h => omega
    | last _ ht' hl' => exact absurd hl' (ht.unique ht' ▸ hl)
    | more _ ht' _ h' =>
      obtain rfl := ht.unique ht'
      obtain ⟨rfl, rfl⟩ := ih h'
      exact ⟨rfl, rfl⟩

lemma readRevoked_eq (buf : Bytes) (used : ℕ) :
    ∀ fuel k, (used - 16) / (if j.is64 then 8 else 4) ≤ k + fuel →
      readRevoked j buf used fuel (16 + (if j.is64 then 8 else 4) * k) =
        (List.range' k ((used - 16) / (if j.is64 then 8 else 4) - k)).map fun k =>
          if j.is64 then buf.be64 (16 + 8 * k) else buf.be32 (16 + 4 * k) := by
  intro fuel
  induction fuel with
  | zero =>
    intro k h
    rw [Nat.sub_eq_zero_of_le (by omega)]
    rfl
  | succ fuel ih =>
    intro k h
    have hroom : 16 + (if j.is64 then 8 else 4) * k + (if j.is64 then 8 else 4) ≤ used ↔
        k < (used - 16) / (if j.is64 then 8 else 4) := by
      cases j.is64 <;> simp <;> omega
    unfold readRevoked
    by_cases hk : k < (used - 16) / (if j.is64 then 8 else 4)
    · obtain ⟨m, hm⟩ := Nat.exists_eq_add_of_lt hk
      rw [if_pos (hroom.2 hk), Nat.add_assoc, ← Nat.mul_succ, ih _ (by omega), hm,
        show k + m + 1 - k = m + 1 by omega, show k + m + 1 - (k + 1) = m by omega, List.range'_succ]
      cases j.is64 <;> rfl
    · rw [if_neg (mt hroom.1 hk), Nat.sub_eq_zero_of_le (by omega)]
      rfl

lemma readRevoked_revokes
    (h : ¬(buf.be32 12 < 16 ∨ 2 ^ 31 ≤ buf.be32 12 ∨ fs.blockSize - j.tailBytes < buf.be32 12)) :
    Revokes fs j buf (readRevoked j buf (buf.be32 12) fs.blockSize 16) := by
  rw [tailBytes_eq] at h
  refine ⟨by omega, ?_⟩
  rw [List.range_eq_range']
  exact readRevoked_eq buf _ fs.blockSize 0 ((Nat.div_le_self ..).trans (by omega))

/-! ### Blocks of the log -/

/-- The log is not empty: its first block is below its end. -/
structure Log.Ok (j : Log) : Prop where
  first_pos : 1 ≤ j.first
  first_lt : j.first < j.maxLen

lemma next_eq (hj : j.Ok) (hb : b < j.maxLen) : j.next b = j.after b := by
  have := hj.first_lt
  unfold Log.next Log.after
  split <;> split <;> omega

lemma after_lt (hj : j.Ok) (hb : b < j.maxLen) : j.after b < j.maxLen := by
  have := hj.first_lt
  unfold Log.after
  split <;> omega

lemma readTags_tags (hj : j.Ok) (buf : Bytes) :
    ∀ fuel off d, d < j.maxLen → fs.blockSize ≤ off + fuel →
      Tags fs j buf off d (readTags fs j buf fuel off d).1 (readTags fs j buf fuel off d).2 := by
  have hsize : 8 ≤ j.tagSize := by
    unfold Log.tagSize
    split <;> omega
  intro fuel
  induction fuel with
  | zero => intro off d _ h; exact .full (by omega)
  | succ fuel ih =>
    intro off d hd h
    have hlast : (tagAt j buf off d).flags &&& FLAG_LAST_TAG ≠ 0 ↔
        (tagAt j buf off d).flags.testBit 3 := and_two_pow_ne_zero _ 3
    have huuid : (tagAt j buf off d).flags &&& FLAG_SAME_UUID ≠ 0 ↔
        (tagAt j buf off d).flags.testBit 1 := and_two_pow_ne_zero _ 1
    unfold readTags
    dsimp only
    rw [tagBytes_eq, tailBytes_eq, next_eq hj hd]
    split
    · split
      · rename_i hl
        exact .last (by omega) (tagAt_spec ..) (hlast.1 hl)
      · rename_i hl
        refine .more (by omega) (tagAt_spec ..) (mt hlast.2 hl) ?_
        have hskip : (if (tagAt j buf off d).flags &&& FLAG_SAME_UUID = 0 then 16 else 0) =
            if (tagAt j buf off d).flags.testBit 1 then 0 else 16 := by
          by_cases hu : (tagAt j buf off d).flags.testBit 1
          · rw [if_neg (huuid.2 hu), if_pos hu]
          · rw [if_pos (not_not.1 (mt huuid.1 hu)), if_neg hu]
        rw [hskip]
        exact ih _ _ (after_lt hj hd) (by omega)
    · exact .full (by omega)

lemma Tags.lt (hj : j.Ok) {d' : ℕ}
    (h : Tags fs j buf off d tags d') (hd : d < j.maxLen) :
    d' < j.maxLen ∧ ∀ tag ∈ tags, tag.logBlock < j.maxLen := by
  induction h with
  | full h => exact ⟨hd, by simp⟩
  | last hroom ht hl =>
    refine ⟨after_lt hj hd, fun tag htag => ?_⟩
    rw [List.mem_singleton.1 htag, ht.logBlock]
    exact hd
  | more hroom ht hl h ih =>
    obtain ⟨h1, h2⟩ := ih (after_lt hj hd)
    refine ⟨h1, fun tag htag => ?_⟩
    rcases List.mem_cons.1 htag with rfl | htag
    · rw [ht.logBlock]; exact hd
    · exact h2 tag htag

/-- The tags of a transaction that starts inside the log lie inside the log, and so does what
follows it. -/
lemma Txn.lt (hj : j.Ok)
    (h : Txn fs j s q b tags revoked after n) (hb : b < j.maxLen) :
    after < j.maxLen ∧ ∀ tag ∈ tags, tag.logBlock < j.maxLen := by
  induction h with
  | commit hr hc => exact ⟨after_lt hj hb, by simp⟩
  | descriptor hr hc ht h ih =>
    obtain ⟨h1, h2⟩ := ht.lt hj (after_lt hj hb)
    obtain ⟨h3, h4⟩ := ih h1
    refine ⟨h3, fun tag htag => ?_⟩
    rcases List.mem_append.1 htag with htag | htag
    · exact h2 tag htag
    · exact h4 tag htag
  | revoke hr hc hv h ih => exact ih (after_lt hj hb)

lemma Committed.lt (hj : j.Ok)
    (h : Committed fs j s b q n ts) (hb : b < j.maxLen) :
    ∀ t ∈ ts, ∀ tag ∈ t.tags, tag.logBlock < j.maxLen := by
  induction h with
  | stop h => simp
  | next h hk hts ih =>
    obtain ⟨h1, h2⟩ := h.lt hj hb
    intro t ht
    rcases List.mem_cons.1 ht with rfl | ht
    · exact h2
    · exact ih h1 t ht

lemma Committed.sequence (h : Committed fs j s b q n ts)
    (hq : q < 2 ^ 32) : ∀ k t, ts[k]? = some t → t.sequence = (q + k) % 2 ^ 32 := by
  induction h with
  | stop h => intro k t ht; simp at ht
  | @next b q n k' after tags revoked ts h hk hts ih =>
    intro k t ht
    cases k with
    | zero =>
      simp only [List.getElem?_cons_zero, Option.some.injEq] at ht
      subst ht
      show q = _
      rw [Nat.add_zero, Nat.mod_eq_of_lt hq]
    | succ k =>
      rw [List.getElem?_cons_succ] at ht
      rw [ih (Nat.mod_lt _ (by norm_num)) k t ht, Nat.mod_add_mod]
      congr 1; ring

/-! ### The first record decides -/

lemma Record.unique {q' kind kind' : ℕ} {buf' : Bytes} (h : Record fs j s b q kind buf)
    (h' : Record fs j s b q' kind' buf') : kind = kind' ∧ buf = buf' := by
  have hbuf : buf = buf' := by
    have := h.1.symm.trans h'.1
    cases this; rfl
  subst hbuf
  exact ⟨h.2.2.2.symm.trans h'.2.2.2, rfl⟩

lemma Txn.record
    (h : Txn fs j s q b tags revoked after n) :
    ∃ kind buf, Record fs j s b q kind buf ∧
      (kind = 1 ∨ kind = 2 ∧ (j.summed → Sealed fs j buf 16) ∨ kind = 5) := by
  cases h with
  | commit hr hc => exact ⟨_, _, hr, Or.inr (Or.inl ⟨rfl, hc⟩)⟩
  | descriptor hr hc ht h => exact ⟨_, _, hr, Or.inl rfl⟩
  | revoke hr hc hv h => exact ⟨_, _, hr, Or.inr (Or.inr rfl)⟩

lemma Txn.of_commit
    (h : Txn fs j s q b tags revoked after n) (hr : Record fs j s b q 2 buf) :
    tags = [] ∧ revoked = [] ∧ after = j.after b ∧ n = 1 := by
  cases h with
  | commit hr' hc => exact ⟨rfl, rfl, rfl, rfl⟩
  | descriptor hr' hc ht h => exact absurd (hr.unique hr').1 (by decide)
  | revoke hr' hc hv h => exact absurd (hr.unique hr').1 (by decide)

lemma Txn.of_descriptor {own : List Tag}
    (h : Txn fs j s q b tags revoked after n) (hr : Record fs j s b q 1 buf)
    (ht : Tags fs j buf 12 (j.after b) own d) :
    ∃ tags' n', tags = own ++ tags' ∧ n = n' + 1 ∧ Txn fs j s q d tags' revoked after n' := by
  cases h with
  | commit hr' hc => exact absurd (hr.unique hr').1 (by decide)
  | descriptor hr' hc ht' h =>
    obtain ⟨-, rfl⟩ := hr.unique hr'
    obtain ⟨rfl, rfl⟩ := ht.unique ht'
    exact ⟨_, _, rfl, rfl, h⟩
  | revoke hr' hc hv h => exact absurd (hr.unique hr').1 (by decide)

lemma Txn.of_revoke {own : List ℕ}
    (h : Txn fs j s q b tags revoked after n) (hr : Record fs j s b q 5 buf)
    (hv : Revokes fs j buf own) :
    ∃ revoked' n', revoked = own ++ revoked' ∧ n = n' + 1 ∧
      Txn fs j s q (j.after b) tags revoked' after n' := by
  cases h with
  | commit hr' hc => exact absurd (hr.unique hr').1 (by decide)
  | descriptor hr' hc ht h => exact absurd (hr.unique hr').1 (by decide)
  | revoke hr' hc hv' h =>
    obtain ⟨-, rfl⟩ := hr.unique hr'
    obtain rfl := hv.2.trans hv'.2.symm
    exact ⟨_, _, rfl, rfl, h⟩

lemma Txn.pos
    (h : Txn fs j s q b tags revoked after n) : 0 < n := by
  cases h <;> omega

/-- The log holds at most one transaction from a given block on. -/
lemma Txn.unique
    (h : Txn fs j s q b tags revoked after n) :
    ∀ {tags' revoked' after' n'}, Txn fs j s q b tags' revoked' after' n' →
      tags = tags' ∧ revoked = revoked' ∧ after = after' ∧ n = n' := by
  induction h with
  | commit hr hc =>
    intro tags' revoked' after' n' h'
    obtain ⟨rfl, rfl, rfl, rfl⟩ := h'.of_commit hr
    exact ⟨rfl, rfl, rfl, rfl⟩
  | descriptor hr hc ht h ih =>
    intro tags' revoked' after' n' h'
    obtain ⟨tags'', n'', rfl, rfl, h''⟩ := h'.of_descriptor hr ht
    obtain ⟨rfl, rfl, rfl, rfl⟩ := ih h''
    exact ⟨rfl, rfl, rfl, rfl⟩
  | revoke hr hc hv h ih =>
    intro tags' revoked' after' n' h'
    obtain ⟨revoked'', n'', rfl, rfl, h''⟩ := h'.of_revoke hr hv
    obtain ⟨rfl, rfl, rfl, rfl⟩ := ih h''
    exact ⟨rfl, rfl, rfl, rfl⟩

lemma Committed.unique (h : Committed fs j s b q n ts) :
    ∀ {ts'}, Committed fs j s b q n ts' → ts = ts' := by
  induction h with
  | stop h =>
    intro ts' h'
    cases h' with
    | stop _ => rfl
    | next h' hk _ => exact absurd (h _ _ _ _ h') (by omega)
  | next h hk hts ih =>
    intro ts' h'
    cases h' with
    | stop h' => exact absurd (h' _ _ _ _ h) (by omega)
    | next h' hk' hts' =>
      obtain ⟨rfl, rfl, rfl, rfl⟩ := h.unique h'
      rw [ih hts']

/-! ### The scan finds the committed transactions -/

/-- At log block `b` stands nothing that a transaction with number `q` goes on with. -/
def Stops (fs : Ext4FileSystem) (j : Log) (s : St) (b q : ℕ) : Prop :=
  ∃ buf, read fs j b s = .ok buf s ∧
    (buf.be32 0 ≠ 0xC03B3998 ∨ buf.be32 8 ≠ q ∨ buf.be32 4 ∉ [1, 2, 5] ∨
      buf.be32 4 = 2 ∧ j.summed ∧ ¬Sealed fs j buf 16)

/-- What one turn of the scan does. -/
inductive Turn (fs : Ext4FileSystem) (j : Log) (s : St) (st : Scan) : Option Scan → Prop
  | stop (h : Stops fs j s st.block st.sequence) : Turn fs j s st none
  | descriptor {buf : Bytes} {own : List Tag} {d : ℕ}
      (hr : Record fs j s st.block st.sequence 1 buf)
      (hc : j.summed → Sealed fs j buf (fs.blockSize - 4))
      (ht : Tags fs j buf 12 (j.after st.block) own d) :
      Turn fs j s st (some ⟨st.committed, d, st.sequence,
        ⟨st.current.sequence, st.current.tags ++ own, st.current.revoked⟩⟩)
  | commit {buf : Bytes} (hr : Record fs j s st.block st.sequence 2 buf)
      (hc : j.summed → Sealed fs j buf 16) (hlen : st.committed.length < MAX_LIST) :
      Turn fs j s st (some ⟨st.committed ++ [st.current], j.after st.block,
        (st.sequence + 1) % 2 ^ 32, ⟨(st.sequence + 1) % 2 ^ 32, [], []⟩⟩)
  | revoke {buf : Bytes} {own : List ℕ} (hr : Record fs j s st.block st.sequence 5 buf)
      (hc : j.summed → Sealed fs j buf (fs.blockSize - 4)) (hv : Revokes fs j buf own) :
      Turn fs j s st (some ⟨st.committed, j.after st.block, st.sequence,
        ⟨st.current.sequence, st.current.tags, st.current.revoked ++ own⟩⟩)

lemma Turn.run {r : Option Scan} (hj : j.Ok) (hb : st.block < j.maxLen)
    (h : Turn fs j s st r) : scanStep fs j st s = .ok r s := by
  have hhead : ∀ {buf kind}, Record fs j s st.block st.sequence kind buf →
      ¬(buf.be32 0 ≠ JBD2_MAGIC ∨ buf.be32 8 ≠ st.sequence) := by
    rintro buf kind ⟨-, hmagic, hseq, -⟩
    simp only [not_or, not_not]
    exact ⟨hmagic, hseq⟩
  have hcsum : ∀ {buf}, (j.summed → Sealed fs j buf (fs.blockSize - 4)) →
      ¬(j.hasCsum ∧ !blockCsumOk fs j buf) := by
    intro buf hc hbad
    simpa [(blockCsumOk_iff buf).2 (hc hbad.1)] using hbad.2
  cases h with
  | stop h =>
    obtain ⟨buf, hread, hbad⟩ := h
    rw [scanStep, bind_run hread]
    by_cases hh : buf.be32 0 ≠ JBD2_MAGIC ∨ buf.be32 8 ≠ st.sequence
    · rw [if_pos hh]
      rfl
    rw [if_neg hh]
    rcases hbad with hb | hb | hb | ⟨h2, hc, hs⟩
    · exact absurd (Or.inl hb) hh
    · exact absurd (Or.inr hb) hh
    · simp only [List.mem_cons, List.not_mem_nil, or_false, not_or] at hb
      obtain ⟨h1, h2, h5⟩ : buf.be32 4 ≠ DESCRIPTOR_BLOCK ∧ buf.be32 4 ≠ COMMIT_BLOCK ∧
        buf.be32 4 ≠ REVOKE_BLOCK := hb
      rw [if_neg h1, if_neg h2, if_neg h5]
      rfl
    · have hkind : buf.be32 4 = COMMIT_BLOCK := h2
      rw [if_neg (by rw [hkind]; decide), if_pos hkind,
        if_pos ⟨hc, by simpa [← commitCsumOk_iff] using hs⟩]
      rfl
  | @descriptor buf own d hr hc ht =>
    obtain ⟨rfl, rfl⟩ := ht.unique (readTags_tags hj buf fs.blockSize _ _ (after_lt hj hb) (by omega))
    have hkind : buf.be32 4 = DESCRIPTOR_BLOCK := hr.2.2.2
    rw [scanStep, bind_run hr.1, if_neg (hhead hr), if_pos hkind, throwIf_bind_run (hcsum hc),
      next_eq hj hb]
    rfl
  | @commit buf hr hc hlen =>
    have hok : ¬(j.hasCsum ∧ !commitCsumOk fs j buf) := fun hbad => by
      simpa [(commitCsumOk_iff buf).2 (hc hbad.1)] using hbad.2
    have hkind : buf.be32 4 = COMMIT_BLOCK := hr.2.2.2
    rw [scanStep, bind_run hr.1, if_neg (hhead hr), if_neg (by rw [hkind]; decide), if_pos hkind,
      if_neg hok, throwIf_bind_run (Nat.not_le_of_lt hlen), next_eq hj hb]
    rfl
  | @revoke buf own hr hc hv =>
    have hused : ¬(buf.be32 12 < 16 ∨ 2 ^ 31 ≤ buf.be32 12 ∨
        fs.blockSize - j.tailBytes < buf.be32 12) := by
      rw [tailBytes_eq]
      have := hv.1
      omega
    obtain rfl := hv.2.trans (readRevoked_revokes hused).2.symm
    have hkind : buf.be32 4 = REVOKE_BLOCK := hr.2.2.2
    rw [scanStep, bind_run hr.1, if_neg (hhead hr), if_neg (by rw [hkind]; decide),
      if_neg (by rw [hkind]; decide), if_pos hkind, throwIf_bind_run (hcsum hc),
      throwIf_bind_run hused, next_eq hj hb]
    rfl

/-- What the scan still finds from `st` on: nothing more, or the rest of the transaction it is in
and the transactions after that. -/
def Finds (fs : Ext4FileSystem) (j : Log) (s : St) (st : Scan) (n : ℕ) (ts : List Transaction) :
    Prop :=
  (ts = [] ∧ ∀ tags revoked after k,
      Txn fs j s st.sequence st.block tags revoked after k → n < k) ∨
    ∃ tags revoked after k ts', Txn fs j s st.sequence st.block tags revoked after k ∧ k ≤ n ∧
      Committed fs j s after ((st.sequence + 1) % 2 ^ 32) (n - k) ts' ∧
      ts = ⟨st.current.sequence, st.current.tags ++ tags, st.current.revoked ++ revoked⟩ :: ts'

lemma Finds.committed (h : Finds fs j s st n ts)
    (hc : st.current = ⟨st.sequence, [], []⟩) (hq : st.sequence = q) :
    Committed fs j s st.block q n ts := by
  subst hq
  rcases h with ⟨rfl, h⟩ | ⟨tags, revoked, after, k, ts', h, hk, hts, rfl⟩
  · exact .stop h
  · rw [hc]
    exact .next h hk hts

end OtgMaster.Ext4.Ext4Journal
