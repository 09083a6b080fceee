import OtgMaster.Ext4.JournalCut

/-!
When a recovery that gives up has written nothing.

Recovery gives up with a `NotReplayableException`, and the caller then mounts the volume read-only
as if nothing had happened. The first two passes only read, so giving up there leaves the volume as
it was. The third pass can give up too: it looks every log block up in the journal's inode once
more, and a log block that is a hole there is refused, after the blocks before it have been written.
The second pass has looked at the logged copies only if the journal has checksums, and a logged
block that is an index block of the journal's own inode changes the lookups after it.

What the third pass does up to a refusal is computed backwards over the list of logged blocks with
`wp` (`StaysMapped`). Where no logged block is an index block of the journal, the lookups are those
of the volume as it was found, and the passes before the third are `Accepted` in terms of the log's
format.
-/

namespace OtgMaster.Ext4.Ext4Journal

open Lib Bytes Redo

/-! ### What is refused -/

section NeverRefuses

variable {fs : Ext4FileSystem}

end NeverRefuses

/-! ### The third pass -/

section ThirdPass

variable (fs : Ext4FileSystem) (j : Log)

/-- The end of `replayLog`, after the third pass. -/
def finish (sequence transactions revokedCount replayed : ℕ) : M Result := do
  let jsbNow ← read fs j 0
  let p ← phys fs j 0
  writeBlocksUnchecked fs p 1 (emptied j jsbNow sequence)
  clearNeedsRecovery fs
  pure ⟨transactions, replayed, revokedCount⟩

variable {fs j} {lb : ℕ} {t : St} {E : Ex → St → Prop}

variable {s : St}

end ThirdPass

/-! ### The first two passes -/

section FirstPasses

variable (fs : Ext4FileSystem) (s : St)

/-- The log is not empty, and the first two passes let it through: `sc` is what the scan found. -/
structure Passed (j : Log) (sc : Scan) : Prop where
  opened : openLog fs s = .ok j s
  notEmpty : j.start ≠ 0
  start : j.first ≤ j.start ∧ j.start < j.maxLen
  scanned : scan fs j (j.maxLen + 1) ⟨[], j.start, j.firstSequence, ⟨j.firstSequence, [], []⟩⟩ s =
    .ok sc s
  checked : ∃ n, checkAll fs j (revokedUpTo sc.committed) sc.committed s = .ok n s

variable {fs s} {j : Log}

lemma Opened.ok {jsb : Bytes} (h : Opened fs s j jsb) : j.Ok ∧ j.firstSequence < 2 ^ 32 := by
  rw [h.parsed]
  exact seeded_ok _ _ _ h.checked

end FirstPasses

/-! ### Logs that are accepted -/

section Accepted

variable (fs : Ext4FileSystem) (j : Log) (s : St)

/-- The copy of `tag`, logged by the transaction `q`, goes to a block of the volume, and if the log
has checksums it can be read and has its own: over the number of the transaction and the copy, of
version 2 the low 16 bits. -/
structure GoodCopy (q : ℕ) (tag : Tag) : Prop where
  inside : tag.fsBlock < fs.totalBlocks
  stamped : j.summed → ∃ data, read fs j tag.logBlock s = .ok data s ∧
    tag.csum = (crc32c (crc32c j.seed [.ofNat (q / 2 ^ 24), .ofNat (q / 2 ^ 16), .ofNat (q / 2 ^ 8),
      .ofNat q]) (data.slice 0 fs.blockSize)).toNat % if j.csum3 then 2 ^ 32 else 2 ^ 16

variable {fs j s} {ts : List Transaction}

end Accepted

/-! ### Holes of the journal -/

section Holes

variable (fs : Ext4FileSystem) (j : Log) (s : St)

/-- None of the logged blocks `l` is on the way to one of their log blocks or to the journal's
superblock. -/
def IndexApart (l : List Tag) : Prop :=
  ∀ tag ∈ l, ∀ lb ∈ 0 :: l.map Tag.logBlock, tag.fsBlock ∉ lookupPath fs s j.inode lb

variable {fs j s} {t : St} {tag : Tag} {l : List Tag}

lemma mem_logBlocks_cons {lb : ℕ} (h : lb ∈ 0 :: l.map Tag.logBlock) :
    lb ∈ 0 :: (tag :: l).map Tag.logBlock := by
  rcases List.mem_cons.1 h with rfl | h
  · simp
  · exact List.mem_cons_of_mem _ (List.mem_cons_of_mem _ h)

lemma IndexApart.tail (h : IndexApart fs j s (tag :: l)) : IndexApart fs j s l :=
  fun x hx lb hlb => h x (List.mem_cons_of_mem _ hx) lb (mem_logBlocks_cons hlb)

lemma LogHolds.unique {j' : Log} {ts ts' : List Transaction} (h : LogHolds fs j s ts)
    (h' : LogHolds fs j' s ts') : j = j' ∧ ts = ts' := by
  obtain rfl := h.1.unique h'.1
  refine ⟨rfl, ?_⟩
  rcases h.2 with ⟨h0, rfl⟩ | ⟨hne, hts⟩ <;> rcases h'.2 with ⟨h0', rfl⟩ | ⟨hne', hts'⟩
  · rfl
  · exact absurd h0 hne'
  · exact absurd h0' hne
  · exact hts.unique hts'

end Holes

/-! ### A journal with a hole -/

end OtgMaster.Ext4.Ext4Journal
