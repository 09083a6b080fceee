import OtgMaster.Ext4.Extents

/-!
The two walks over an extent tree, side by side.

On a tree in order both find the extent that covers the block. They differ in one sum: the write
path adds the distance from the extent's first block to its physical start, the reader merges the
carry of that sum into the upper bits (`merged`), which is the same unless the extent runs over a
multiple of `2 ^ 33`.
-/

namespace OtgMaster.Ext4

open Lib Bytes Piece

/-! ### the two sums -/

lemma merged_of_small {base k : ℕ} (h : base % 2 ^ 32 + k < 2 ^ 32) : merged base k = base + k := by
  have hdiv := Nat.div_add_mod' base (2 ^ 32)
  rw [merged, Nat.mul_comm, ← Nat.two_pow_add_eq_or_of_lt h]
  omega

/-- The carry goes into a bit that is 0. -/
lemma merged_of_same {base k : ℕ} (hk : k < 2 ^ 32) (h : base % 2 ^ 33 + k < 2 ^ 33) :
    merged base k = base + k := by
  by_cases hcarry : base % 2 ^ 32 + k < 2 ^ 32
  · exact merged_of_small hcarry
  · have heven : base / 2 ^ 32 * 2 ^ 32 = 2 ^ 33 * (base / 2 ^ 33) := by omega
    rw [merged, heven, ← Nat.two_pow_add_eq_or_of_lt (show base % 2 ^ 32 + k < 2 ^ 33 by omega)]
    omega

/-- At a multiple of `2 ^ 33` the carry is lost. -/
lemma merged_of_crossing {base k : ℕ} (hk : k < 2 ^ 32) (h : base % 2 ^ 33 + k = 2 ^ 33) :
    merged base k ≠ base + k := by
  have hlow : base % 2 ^ 32 + k = 1 <<< 32 := by
    rw [Nat.one_shiftLeft]
    omega
  have hodd : base / 2 ^ 32 ||| 1 = base / 2 ^ 32 := by
    obtain ⟨n, hn⟩ : ∃ n, base / 2 ^ 32 = 2 * n + 1 := ⟨base / 2 ^ 33, by omega⟩
    rw [hn]
    refine Nat.eq_of_testBit_eq fun i => ?_
    rw [Nat.testBit_or]
    cases i with
    | zero => simp
    | succ i => simp [Nat.testBit_succ]
  rw [merged, hlow, ← Nat.shiftLeft_eq, ← Nat.shiftLeft_or_distrib, hodd, Nat.shiftLeft_eq]
  omega

/-- The blocks of an extent lie between two multiples of `2 ^ 33` that follow one another. -/
def Extent.Whole (e : Extent) : Prop := e.base / 2 ^ 33 = (e.base + e.count - 1) / 2 ^ 33

lemma Extent.whole_iff {e : Extent} (hpos : 0 < e.count) (hle : e.count ≤ 32768) :
    e.Whole ↔ ∀ k < e.count, merged e.base k = e.base + k := by
  constructor
  · intro h k hk
    unfold Extent.Whole at h
    exact merged_of_same (by omega) (by omega)
  · intro h
    by_contra hcross
    unfold Extent.Whole at hcross
    -- the first block behind the multiple that the extent runs over
    obtain ⟨k, hk⟩ : ∃ k, k = 2 ^ 33 - e.base % 2 ^ 33 := ⟨_, rfl⟩
    exact merged_of_crossing (by omega) (by omega) (h k (by omega))

/-! ### both walks on a tree in order -/

section Agree

variable {fs : Ext4FileSystem} {s : St} {d size offset lo hi t inodeNum frames : ℕ} {data : Bytes}
  {exts : List Extent} {tree : List ℕ} {e : Extent}

lemma look_of_covers (ho : Ordered lo hi exts) (he : e ∈ exts) (hc : e.Covers t) :
    look exts t = some (e.base + (t - e.start), e.tag) := by
  cases hlook : look exts t with
  | none => exact absurd hc (look_eq_none.1 hlook e he)
  | some r =>
    obtain ⟨e', he', hc', hbase, htag⟩ := look_mem hlook
    rw [ho.covers_unique he he' hc hc']
    exact congrArg some (Prod.ext hbase htag)

lemma Subtree.count_le : ∀ {d data size offset lo hi exts tree},
    Subtree fs s.dev d data size offset lo hi exts tree → ∀ e ∈ exts, e.count ≤ 32768 := by
  intro d
  induction d with
  | zero =>
    rintro data size offset lo hi exts tree ⟨-, he, -, -⟩ e hmem
    rw [← he] at hmem
    obtain ⟨i, -, rfl⟩ := List.mem_map.1 hmem
    exact extentAt_count_le
  | succ d ih =>
    rintro data size offset lo hi exts tree ⟨cs, -, -, -, hfan, rfl, -⟩ e hmem
    obtain ⟨c, hc, hin⟩ := List.mem_flatMap.1 hmem
    obtain ⟨pre, post, rfl⟩ := List.append_of_mem hc
    obtain ⟨-, -, ⟨-, hsub⟩, -⟩ := Fan.append.1 hfan
    exact ih hsub e hin

/-- Both walks look a block up: they name the same block, or both a hole, the reader being told
about a block that is not initialised only if it asked for these; and the run that the write path is
told ends with its extent, or before the next one if it is a hole. -/
structure Agree (fs : Ext4FileSystem) (inodeNum frames size : ℕ) (data : Bytes) (offset t : ℕ)
    (exts : List Extent) (s : St) (m : Mapping) : Prop where
  map : extentMap fs inodeNum frames size data offset t LONG_MAX s = .ok m s
  mapped : extentSearch fs inodeNum frames size data offset t true s = .ok m.phys s
  read : extentSearch fs inodeNum frames size data offset t false s =
    .ok (if m.uninitialised then none else m.phys) s
  run : MapsTo (look exts) t m
  ends : m.EndsIn exts t

lemma Agree.of_covers {m : Mapping} (ho : Ordered lo hi exts) (he : e ∈ exts) (hc : e.Covers t)
    (hm : MapsTo (look exts) t m) :
    m.phys = some (e.base + (t - e.start)) ∧ m.uninitialised = e.tag := by
  have heq := hm.eq 0 hm.pos
  rw [Nat.add_zero, look_of_covers ho he hc] at heq
  cases hp : m.phys with
  | none =>
    rw [hp] at heq
    cases heq
  | some p =>
    rw [hp] at heq
    simp only [Option.map_some, Nat.add_zero, Option.some.injEq, Prod.mk.injEq] at heq
    exact ⟨congrArg some heq.1.symm, heq.2.symm⟩

/-- **The two walks agree** on a tree of any depth, for every logical block, if and only if no
extent of it runs over a multiple of `2 ^ 33` blocks. -/
theorem walks_agree_iff (hdev : fs.totalBlocks * fs.blockSize ≤ fs.deviceSize)
    (htree : Subtree fs s.dev d data size offset lo LONG_MAX exts tree) (hframes : d < frames) :
    (∀ t < LONG_MAX, ∃ m, Agree fs inodeNum frames size data offset t exts s m) ↔
    ∀ e ∈ exts, e.Whole := by
  have ho := htree.ordered
  constructor
  · intro hall e he
    obtain ⟨-, hpos, hend⟩ := ho.mem he
    refine (Extent.whole_iff hpos (htree.count_le e he)).2 fun k hk => ?_
    have hc : e.Covers (e.start + k) := ⟨by omega, by omega⟩
    obtain ⟨m, hm⟩ := hall (e.start + k) (by omega)
    obtain ⟨r, hrun, hfound, -⟩ := extentSearch_run true hdev inodeNum htree hframes
      (show e.start + k < LONG_MAX by omega)
    have hr : r = m.phys := by
      rw [hm.mapped] at hrun
      cases hrun
      rfl
    rw [hfound e he hc, (Agree.of_covers ho he hc hm.run).1, Extent.told, if_neg (by simp)] at hr
    simpa using hr
  · intro hwhole t ht
    obtain ⟨m, hmap, ⟨hm, -⟩, hends⟩ := extentMap_run hdev inodeNum htree hframes ht le_rfl
    have hsearch : ∀ mappedOnly, extentSearch fs inodeNum frames size data offset t mappedOnly s =
        .ok (if m.uninitialised ∧ !mappedOnly then none else m.phys) s := by
      intro mappedOnly
      obtain ⟨r, hrun, hfound, hnone⟩ := extentSearch_run mappedOnly hdev inodeNum htree hframes ht
      rw [hrun]
      congr 1
      by_cases hcov : ∃ e ∈ exts, e.Covers t
      · obtain ⟨e, he, hc⟩ := hcov
        obtain ⟨-, hpos, -⟩ := ho.mem he
        obtain ⟨hphys, htag⟩ := Agree.of_covers ho he hc hm
        have hsum := (Extent.whole_iff hpos (htree.count_le e he)).1 (hwhole e he) (t - e.start)
          (by unfold Covers at hc; omega)
        rw [hfound e he hc, Extent.told, hphys, htag, hsum]
      · have hno : ∀ e ∈ exts, ¬e.Covers t := fun e he hc => hcov ⟨e, he, hc⟩
        have hhole : m.phys = none := by
          have heq := hm.eq 0 hm.pos
          rw [Nat.add_zero, look_eq_none.2 hno] at heq
          exact Option.map_eq_none_iff.1 heq.symm
        rw [hnone hno, hhole, ite_self]
    refine ⟨m, hmap, ?_, ?_, hm, hends⟩
    · rw [hsearch, if_neg (by simp)]
    · rw [hsearch]
      simp

def smallFs : Ext4FileSystem where
  blockSize := 1024
  inodesPerGroup := 16
  blocksPerGroup := 8192
  inodeSize := 256
  groupDescSize := 32
  bgdTableBlock := 2
  totalBlocks := 64
  totalInodes := 16
  csumSeed := 0
  hasMetadataCsum := false
  mountedReadOnly := false
  hasExtents := true
  deviceSize := 65536
  stackFrames := 1024

def smallState : St := freshState zeros 0 none

def twoBlockInode (start : ℕ) : Bytes :=
  (((((zeros.put16 40 EXTENT_MAGIC).put16 42 1).put16 44 4).put16 56 2).put16 58
    (start / 2 ^ 32)).put32 60
    (start % 2 ^ 32)

lemma twoBlockInode_tree {start : ℕ} (h : Header (twoBlockInode start) 256 40 0 1)
    (he : extentAt (twoBlockInode start) 52 = ⟨0, 2, start, false⟩) :
    Subtree smallFs smallState.dev 0 (twoBlockInode start) 256 40 0 LONG_MAX [⟨0, 2, start, false⟩]
      [] := by
  refine ⟨h, ?_, ⟨le_rfl, Nat.two_pos, (by decide : 2 ≤ LONG_MAX)⟩, rfl⟩
  show [extentAt (twoBlockInode start) (40 + 12 + 0 * 12)] = _
  rw [he]

theorem walks_agree_iff_below : ∃ m, Agree smallFs 12 1024 256 (twoBlockInode 5000) 40 1
    [⟨0, 2, 5000, false⟩] smallState m := by
  have hheader : Header (twoBlockInode 5000) 256 40 0 1 := by constructor <;> decide +kernel
  have htree := twoBlockInode_tree hheader (by decide +kernel)
  refine (walks_agree_iff (by decide) htree (by decide)).2 (fun e he => ?_) 1 (by decide)
  obtain rfl := List.mem_singleton.1 he
  unfold Extent.Whole
  decide

/-- An extent of the blocks `2 ^ 33 - 1` and `2 ^ 33`: for the second one a reader goes to block
`2 ^ 32`. -/
theorem walks_differ_above :
    Subtree smallFs smallState.dev 0 (twoBlockInode (2 ^ 33 - 1)) 256 40 0 LONG_MAX
      [⟨0, 2, 2 ^ 33 - 1, false⟩] [] ∧
    returns (extentMap smallFs 12 1024 256 (twoBlockInode (2 ^ 33 - 1)) 40 1 LONG_MAX) smallState
      (fun m _ => m.phys = some (2 ^ 33)) = true ∧
    returns (extentSearch smallFs 12 1024 256 (twoBlockInode (2 ^ 33 - 1)) 40 1 false) smallState
      (fun r _ => r = some (2 ^ 32)) = true := by
  refine ⟨twoBlockInode_tree (by constructor <;> decide +kernel) (by decide +kernel), ?_, ?_⟩
  · decide +kernel
  · decide +kernel

end Agree

end OtgMaster.Ext4
