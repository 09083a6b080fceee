import OtgMaster.Ext4.JournalLog
import OtgMaster.Lib.Redo
import Mathlib.Data.List.Induction

/-!
What a completed replay leaves on the device: the last logged copy of each block that no later
revoke record names, and every other block as it was.

The replay reads the log through the journal's own inode while it writes to the volume, so what it
reads stays fixed only as long as it does not write to the journal. `JournalBlock` names the blocks
it reads: those the log lies in, and the tree blocks on the way to them.
-/

namespace OtgMaster.Ext4.Ext4Journal

open Lib Bytes Redo
open Block (i64)

/-! ### The blocks of the journal -/

/-- Block `b` is one of the journal's own: a log block lies in it, or the way to one leads
through it. -/
def JournalBlock (fs : Ext4FileSystem) (s : St) (j : Log) (b : ℕ) : Prop :=
  ∃ lb < j.maxLen, b ∈ lookupPath fs s j.inode lb ∨
    physicalBlock fs j.inum j.inode lb s = .ok (some b) s

/-- The journal's blocks hold the same in `t` as in `s`. -/
def SameLog (fs : Ext4FileSystem) (j : Log) (s t : St) : Prop :=
  ∀ b, JournalBlock fs s j b → SameBlock fs s t b

section Reading

variable {fs : Ext4FileSystem} {j : Log} {s t : St} {lb : ℕ}

lemma SameLog.refl : SameLog fs j s s := fun _ _ _ _ => rfl

end Reading

/-! ### What is written -/

section Live

variable (upTo : ℕ → Option ℕ)

variable (fs : Ext4FileSystem) (j : Log)

variable {upTo fs j}

end Live

section Replay

variable (fs : Ext4FileSystem) (j : Log) (s : St)

def logData (lb : ℕ) : Bytes :=
  match read fs j lb s with
  | .ok data _ => data
  | .error _ _ => zeros

def entry (tag : Tag) : Entry := ⟨tag.fsBlock, unescape tag (logData fs j s tag.logBlock)⟩

def replayed (l : List Tag) (dev : Bytes) : Bytes := redo fs.blockSize (l.map (entry fs j s)) dev

/-- From `t`, the logged blocks `l` were written, and nothing else happened. -/
structure Redone (l : List Tag) (t t' : St) : Prop where
  dev : t'.dev = replayed fs j s l t.dev
  images : ∀ d ∈ t'.images, d ∈ t.images ∨ ∃ pre, pre <+: l ∧ d = replayed fs j s pre t.dev
  reason : t'.readOnlyReason = t.readOnlyReason

variable {fs j s} {t t' : St} {l : List Tag} {tag : Tag}

variable {b : ℕ} {v : Bytes}

lemma SameLog.write (h : SameLog fs j s t) (hb : ¬JournalBlock fs s j b) :
    SameLog fs j s (t.write (apply fs.blockSize t.dev ⟨b, v⟩)) := by
  intro c hc i hi
  rw [h c hc i hi]
  refine (apply_other (e := ⟨b, v⟩) hi fun (hbc : b = c) => hb ?_).symm
  rwa [hbc]

lemma Redone.refl : Redone fs j s [] t t := ⟨rfl, fun _ hd => Or.inl hd, rfl⟩

lemma Redone.cons
    (h : Redone fs j s l (t.write (apply fs.blockSize t.dev (entry fs j s tag))) t') :
    Redone fs j s (tag :: l) t t' := by
  refine ⟨h.dev, fun d hd => ?_, h.reason⟩
  rcases h.images d hd with hd | ⟨pre, hpre, rfl⟩
  · rcases List.mem_cons.1 hd with rfl | hd
    · exact Or.inr ⟨[tag], by simp, rfl⟩
    · exact Or.inl hd
  · exact Or.inr ⟨tag :: pre, by simpa using hpre, rfl⟩

end Replay

/-! ### Which copies are live -/

section Revoked

variable {q b : ℕ} {ts : List Transaction}

end Revoked

/-! ### The passes put together -/

section Recover

variable {fs : Ext4FileSystem} {j : Log} {s s' t t' : St}

/-- The journal superblock `jsb` passes its checks. -/
structure SuperblockOk (fs : Ext4FileSystem) (inode jsb : Bytes) : Prop where
  magic : jsb.be32 0 = JBD2_MAGIC
  kind : jsb.be32 4 = SUPERBLOCK_V1 ∨ jsb.be32 4 = SUPERBLOCK_V2
  blockSize : jsb.be32 0xC = fs.blockSize
  known : (if jsb.be32 4 = SUPERBLOCK_V2 then jsb.be32 0x28 else 0) &&& UNKNOWN_INCOMPAT = 0
  first_pos : 1 ≤ jsb.be32 0x14
  first_lt : jsb.be32 0x14 < jsb.be32 0x10
  fits : jsb.be32 0x10 ≤ (i64 (inodeLength inode + fs.blockSize - 1)).tdiv fs.blockSize
  csum : (logOf 0 inode jsb).hasCsum → (jsb 0x50).toNat = CHECKSUM_TYPE_CRC32C ∧
    (Ext4Crc.update Ext4Crc.seed ((jsb.putBe32 0xFC 0).slice 0 1024)).toNat = jsb.be32 0xFC

def seeded (inum : ℕ) (inode jsb : Bytes) : Log :=
  if (logOf 0 inode jsb).hasCsum then
    { logOf inum inode jsb with seed := Ext4Crc.update Ext4Crc.seed (jsb.slice 0x30 16) }
  else logOf inum inode jsb

section Seeded

variable (inum : ℕ) (inode jsb : Bytes)

lemma seeded_eq : ∃ c, seeded inum inode jsb = { logOf inum inode jsb with seed := c } := by
  unfold seeded
  split
  · exact ⟨_, rfl⟩
  · exact ⟨_, rfl⟩

lemma seeded_ok (h : SuperblockOk fs inode jsb) :
    (seeded inum inode jsb).Ok ∧ (seeded inum inode jsb).firstSequence < 2 ^ 32 := by
  obtain ⟨c, hc⟩ := seeded_eq inum inode jsb
  rw [hc]
  exact ⟨⟨h.first_pos, h.first_lt⟩, be32_lt ..⟩

end Seeded

structure Opened (fs : Ext4FileSystem) (s : St) (j : Log) (jsb : Bytes) : Prop where
  device : sbOffsetBytes + 1024 ≤ fs.deviceSize
  inum : j.inum = (s.dev.window sbOffsetBytes 1024).le32 SB_JOURNAL_INUM
  inum_ne : j.inum ≠ 0
  noDev : (s.dev.window sbOffsetBytes 1024).le32 SB_JOURNAL_DEV = 0
  inode : readInode fs j.inum s = .ok j.inode s
  fields : inodeFieldsEnd j.inode ≤ fs.inodeSize
  superblock : read fs j 0 s = .ok jsb s
  checked : SuperblockOk fs j.inode jsb
  parsed : j = seeded j.inum j.inode jsb

lemma IsLog.unique {j' : Log} (h : IsLog fs j s) (h' : IsLog fs j' s) : j = j' := by
  obtain ⟨jsb, hjsb, hd⟩ := h.superblock
  obtain ⟨jsb', hjsb', hd'⟩ := h'.superblock
  have hinum : j.inum = j'.inum := h.inum.trans h'.inum.symm
  have hinode : j.inode = j'.inode := by
    have := h.inode
    rw [hinum, h'.inode, EStateM.Result.ok.injEq] at this
    exact this.1.symm
  -- where a log block lies depends on the inode alone
  have hread : read fs j 0 = read fs j' 0 := by simp only [read, phys, hinum, hinode]
  rw [hread, hjsb'] at hjsb
  cases hjsb
  exact hd.unique hd' hinum hinode

variable {upTo : ℕ → Option ℕ}

end Recover

/-! ### What recovery leaves on the device -/

section Result

variable {fs : Ext4FileSystem} {j : Log} {s s' : St} {ts : List Transaction} {r : Result} {b i : ℕ}

end Result

/-! ### A small volume -/

section Sample

def mounted (dev : Bytes) : Ext4FileSystem × St :=
  (geometryOf (dev.window sbOffsetBytes 1024) 16384 1024 false,
    freshState dev 0 (readOnlyReasonOf (dev.window sbOffsetBytes 1024) false))

end Sample

end OtgMaster.Ext4.Ext4Journal
