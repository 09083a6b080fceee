import OtgMaster.Block.CachedDevice
import OtgMaster.Block.Drive
import OtgMaster.Lib.Run

/-!
One thread that calls `readBlocks`, `writeBlocks` and `invalidate` of a `CachedBlockDevice`, over a
device each call of which may throw; a write that throws may have changed any part of its range.

The calls are programs made of the sections of the cache. Whatever the device answers, they keep the
cache in agreement with it (`Agrees`): a line is cached as the device holds it, and nothing but a
line that lies behind the device is ever left as being fetched. So a read that returns has returned
what the device holds (`readBlocks_current`).
-/

namespace OtgMaster.Block

open Lib

variable {β : Type}

/-! ### The device and the calls -/

inductive Reply (β : Type) where
  | succeeds
  /-- It throws; a write has left these values in blocks of its range. -/
  | throws (torn : ℕ → Option β)

/-- The device, the answers it is going to give, and the cache above it. -/
structure Cached (β : Type) where
  dev : ℕ → β
  replies : ℕ → Reply β
  cache : Cache β

abbrev CM (β : Type) := EStateM Thrown (Cached β)

def Cached.fresh (dev : ℕ → β) (replies : ℕ → Reply β) : Cached β := ⟨dev, replies, Cache.empty⟩

def nextReply : CM β (Reply β) :=
  modifyGet fun w => (w.replies 0, { w with replies := fun n => w.replies (n + 1) })

def Config.Inside (cfg : Config) (start count : ℤ) : Prop :=
  0 ≤ start ∧ 0 ≤ count ∧ start + count ≤ cfg.blockCount

instance (cfg : Config) (start count : ℤ) : Decidable (cfg.Inside start count) :=
  inferInstanceAs (Decidable (_ ∧ _))

def contentOf (dev : ℕ → β) (start count : ℕ) : List β := (List.range count).map fun i => dev (start + i)

def delegateRead (cfg : Config) (start count : ℤ) : CM β (List β) := do
  throwIf (¬cfg.Inside start count) ⟨.illegalArgument, "read outside the device"⟩
  match ← nextReply with
  | .throws _ => throw ⟨.io, "read failed"⟩
  | .succeeds =>
    let w ← get
    return contentOf w.dev start.toNat count.toNat

/-- The device after a write of `n` blocks from `start` on that threw. -/
def tear (dev : ℕ → β) (start n : ℕ) (torn : ℕ → Option β) : ℕ → β := fun b =>
  if start ≤ b ∧ b < start + n then (torn b).getD (dev b) else dev b

def delegateWrite (cfg : Config) (start : ℤ) (data : List β) : CM β PUnit := do
  throwIf (¬cfg.Inside start data.length) ⟨.illegalArgument, "write outside the device"⟩
  match ← nextReply with
  | .throws torn => do
    modify fun w => { w with dev := tear w.dev start.toNat data.length torn }
    throw ⟨.io, "write failed"⟩
  | .succeeds => modify fun w => { w with dev := overwrite w.dev start.toNat data }

namespace Cached

section Calls

variable [Zero β] (cfg : Config)

/-- `lineFor` after a miss: the array that holds the line. -/
def fetchLine (l : ℕ) : CM β ℕ := do
  let start : ℤ := l * cfg.blocksPerLine
  let count := min (cfg.blocksPerLine : ℤ) (cfg.blockCount - start)
  throwIf (count ≤ 0) ⟨.illegalState, s!"cache line {l} starts past the end of the device"⟩
  let data ← tryCatch (delegateRead cfg start count) fun t => do
    modify fun w => { w with cache := w.cache.fetchFailed l }
    throw t
  modifyGet fun w =>
    let (cache, r) := (w.cache.alloc data).publish cfg l w.cache.next
    (r, { w with cache })

def lineFor (l : ℕ) : CM β ℕ := do
  let hit ← modifyGet fun w =>
    let (cache, hit) := w.cache.lookup l
    (hit, { w with cache })
  match hit with
  | some r => return r
  | none => fetchLine cfg l

/-- The loop of `readBlocks`; every turn copies at least one block. -/
def readLoop : (turns : ℕ) → ReadCall β → CM β (List β)
  | 0, c => return c.out
  | turns + 1, c =>
    if c.out.length < c.count then do
      let r ← lineFor cfg (c.line cfg)
      let w ← get
      match c.copied cfg (c.line cfg) (w.cache.heap r) with
      | none => throw ⟨.illegalState, s!"cache line {c.line cfg} too short for block {c.block}"⟩
      | some out => readLoop turns { c with out := out }
    else return c.out

def readBlocks (startBlock blockCount : ℤ) : CM β (List β) := do
  throwIf (blockCount < 0) ⟨.illegalArgument, "blockCount must be non-negative"⟩
  throwIf (startBlock < 0) ⟨.illegalArgument, "startBlock must be non-negative"⟩
  -- the sum is a `Long` and may wrap
  throwIf (cfg.blockCount < i64 (startBlock + blockCount)) ⟨.illegalArgument,
    s!"read of {blockCount} blocks at {startBlock} exceeds device ({cfg.blockCount} blocks)"⟩
  if blockCount = 0 then return []
  if cfg.blocksPerLine ≤ blockCount then delegateRead cfg startBlock blockCount
  else readLoop cfg blockCount.toNat ⟨startBlock.toNat, blockCount.toNat, []⟩

def writeBlocks (startBlock : ℤ) (data : List β) : CM β PUnit := do
  throwIf (startBlock < 0 ∨ cfg.blockCount < i64 (startBlock + data.length)) ⟨.illegalArgument,
    s!"write of {data.length} blocks at {startBlock} exceeds device ({cfg.blockCount} blocks)"⟩
  modify fun w => { w with cache := w.cache.markFetchesDirty cfg startBlock.toNat data.length }
  tryCatch (delegateWrite cfg startBlock data) fun e => do
    modify fun w => { w with cache := w.cache.invalidateRange cfg startBlock.toNat data.length }
    throw e
  modify fun w => { w with cache := w.cache.patchRange cfg startBlock.toNat data }

def invalidate : CM β PUnit := modify fun w => { w with cache := w.cache.invalidate }

end Calls

/-! ### What the calls keep -/

/-- **The cache agrees with the device.** -/
structure Agrees (cfg : Config) (w : Cached β) : Prop where
  coherent : w.cache.Coherent cfg w.dev
  /-- Only a line behind the device can be left as being fetched. -/
  fetching : ∀ l ∈ w.cache.fetching, cfg.blockCount ≤ l * cfg.blocksPerLine
  dirtied : ∀ l ∈ w.cache.dirtiedWhileFetching, cfg.blockCount ≤ l * cfg.blocksPerLine

section Specs

variable {cfg : Config} {w : Cached β} {l : ℕ}

lemma Agrees.fresh (cfg : Config) (dev : ℕ → β) (replies : ℕ → Reply β) :
    Agrees cfg (fresh dev replies) :=
  ⟨.empty cfg dev, fun _ h => absurd h (Finset.notMem_empty _),
    fun _ h => absurd h (Finset.notMem_empty _)⟩

structure Below (w w' : Cached β) : Prop where
  cache : w'.cache = w.cache
  dev : w'.dev = w.dev

lemma delegateRead_spec (start count : ℤ) :
    wp (delegateRead cfg start count)
      (fun data w' => cfg.Inside start count ∧ data = contentOf w.dev start.toNat count.toNat ∧
        Below w w')
      (fun _ w' => Below w w') w := by
  unfold delegateRead nextReply
  simp only [wp_bind, wp_throwIf, not_not, wp_modifyGet]
  refine ⟨fun _ => ⟨rfl, rfl⟩, fun hin => ?_⟩
  cases w.replies 0 with
  | succeeds => exact ⟨hin, rfl, rfl, rfl⟩
  | throws torn => exact ⟨rfl, rfl⟩

/-- A write that returns is on the device, one that throws has changed its range at most. -/
lemma delegateWrite_spec (start : ℤ) (data : List β) :
    wp (delegateWrite cfg start data)
      (fun _ w' => cfg.Inside start data.length ∧ w'.cache = w.cache ∧
        w'.dev = overwrite w.dev start.toNat data)
      (fun _ w' => w'.cache = w.cache ∧
        ∀ b, ¬(start.toNat ≤ b ∧ b < start.toNat + data.length) → w'.dev b = w.dev b) w := by
  unfold delegateWrite nextReply
  simp only [wp_bind, wp_throwIf, not_not, wp_modifyGet]
  refine ⟨fun _ => ⟨trivial, fun _ _ => trivial⟩, fun hin => ?_⟩
  cases w.replies 0 with
  | succeeds => exact ⟨hin, rfl, rfl⟩
  | throws torn => exact ⟨rfl, fun b hb => if_neg hb⟩

variable [Zero β]

lemma Agrees.publish (h : Agrees cfg w) (hmiss : w.cache.lines.lookup l = none)
    (hinside : l * cfg.blocksPerLine < cfg.blockCount) :
    Agrees cfg { w with cache :=
      (((w.cache.lookup l).1.alloc (cfg.lineOf w.dev l)).publish cfg l w.cache.next).1 } ∧
      (((w.cache.lookup l).1.alloc (cfg.lineOf w.dev l)).publish cfg l w.cache.next).1.heap
        (((w.cache.lookup l).1.alloc (cfg.lineOf w.dev l)).publish cfg l w.cache.next).2 =
          cfg.lineOf w.dev l := by
  have hlook : (w.cache.lookup l).1 = { w.cache with fetching := insert l w.cache.fetching } := by
    unfold Cache.lookup
    rw [hmiss]
  have hclean : l ∉ w.cache.dirtiedWhileFetching := fun hd => absurd (h.dirtied l hd) (by omega)
  rw [hlook]
  -- the cache with the line in an array that nothing uses
  obtain ⟨c, hc⟩ : ∃ c, (({ w.cache with fetching := insert l w.cache.fetching } : Cache β).alloc
      (cfg.lineOf w.dev l)).fetchFailed l = c := ⟨_, rfl⟩
  have hpub : (({ w.cache with fetching := insert l w.cache.fetching } : Cache β).alloc
      (cfg.lineOf w.dev l)).publish cfg l w.cache.next = (c.put cfg l w.cache.next, w.cache.next) := by
    rw [← hc]
    exact if_neg hclean
  have hfree : w.cache.next ∉ w.cache.arrays := fun hr => absurd (h.coherent.inUse _ hr) (lt_irrefl _)
  have hheap : c.heap = Function.update w.cache.heap w.cache.next (cfg.lineOf w.dev l) := by
    rw [← hc]
    rfl
  have hlines : c.lines = w.cache.lines := by rw [← hc]; rfl
  have hself : c.heap w.cache.next = cfg.lineOf w.dev l := by rw [hheap, Function.update_self]
  have hcoh : c.Coherent cfg w.dev := by
    refine h.coherent.of_perm (.of_eq hlines) (by rw [← hc]; exact Nat.le_succ _) fun e he => ?_
    have hne : e.2 ≠ w.cache.next := fun heq => hfree (heq ▸ Cache.mem_arrays he)
    rw [hheap, Function.update_of_ne hne, h.coherent.content e he]
  have hmiss' : c.lines.lookup l = none := by rw [hlines, hmiss]
  have harr : w.cache.next ∉ c.arrays := by
    unfold Cache.arrays
    rw [hlines]
    exact hfree
  obtain ⟨-, hfetch, hdirt, -⟩ := Cache.put_spec cfg (r := w.cache.next) hmiss'
  rw [hpub]
  refine ⟨⟨hcoh.put hmiss' harr (by rw [← hc]; exact Nat.lt_succ_self _) hself, ?_, ?_⟩, ?_⟩
  · intro k hk
    rw [hfetch, ← hc] at hk
    obtain ⟨hne, hk⟩ := Finset.mem_erase.1 hk
    exact h.fetching k (Finset.mem_of_mem_insert_of_ne hk hne)
  · intro k hk
    rw [hdirt, ← hc] at hk
    exact h.dirtied k (Finset.mem_of_mem_erase hk)
  · show (c.put cfg l w.cache.next).heap w.cache.next = _
    rw [Cache.put_heap cfg hmiss' harr, hself]

lemma lineFor_spec (h : Agrees cfg w) (l : ℕ) :
    wp (lineFor cfg l)
      (fun r w' => Agrees cfg w' ∧ w'.dev = w.dev ∧ w'.cache.heap r = cfg.lineOf w.dev l)
      (fun _ w' => Agrees cfg w' ∧ w'.dev = w.dev) w := by
  unfold lineFor
  simp only [wp_bind, wp_modifyGet]
  cases hl : w.cache.lines.lookup l with
  | some r =>
    have hlook : w.cache.lookup l = (w.cache.touch l, some r) := by
      unfold Cache.lookup
      rw [hl]
    rw [hlook]
    refine ⟨⟨h.coherent.touch, fun k hk => ?_, fun k hk => ?_⟩, rfl, ?_⟩
    · exact h.fetching k (by rwa [Cache.touch_fetching] at hk)
    · exact h.dirtied k (by rwa [Cache.touch_dirtied] at hk)
    · show (w.cache.touch l).heap r = _
      rw [Cache.touch_heap]
      exact h.coherent.content _ (Cache.lookup_mem hl)
  | none =>
    have hlook : w.cache.lookup l = ({ w.cache with fetching := insert l w.cache.fetching }, none) := by
      unfold Cache.lookup
      rw [hl]
    rw [hlook]
    unfold fetchLine
    simp only [wp_bind, wp_throwIf, wp_tryCatch]
    refine ⟨fun hcount => ⟨⟨⟨h.coherent.keys, h.coherent.arrays, h.coherent.inUse, h.coherent.content⟩,
      fun k hk => ?_, h.dirtied⟩, trivial⟩, fun hcount => ?_⟩
    · -- the check throws and leaves the line as being fetched
      rcases Finset.mem_insert.1 hk with rfl | hk
      · have hpos := cfg.blocksPerLine_pos
        zify
        omega
      · exact h.fetching k hk
    · have hinside : l * cfg.blocksPerLine < cfg.blockCount := by
        zify
        omega
      refine wp_mono (delegateRead_spec _ _) (fun data w' hd => ?_) fun _ w' hw' => ?_
      · obtain ⟨-, rfl, hcache, hdev⟩ := hd
        have hline : contentOf w.dev ((l : ℤ) * cfg.blocksPerLine).toNat
            (min (cfg.blocksPerLine : ℤ) (cfg.blockCount - (l : ℤ) * cfg.blocksPerLine)).toNat =
                cfg.lineOf w.dev l := by
          unfold contentOf Config.lineOf Config.lineCount
          have h1 : ((l : ℤ) * cfg.blocksPerLine).toNat = l * cfg.blocksPerLine := by
            rw [← Nat.cast_mul, Int.toNat_natCast]
          have h2 : (min (cfg.blocksPerLine : ℤ) (cfg.blockCount - (l : ℤ) * cfg.blocksPerLine)).toNat =
              min cfg.blocksPerLine (cfg.blockCount - l * cfg.blocksPerLine) := by
            rw [← Nat.cast_mul]
            omega
          rw [h1, h2]
        obtain ⟨hagrees, hheap⟩ := h.publish hl hinside
        rw [hlook] at hagrees hheap
        rw [hline]
        simp only [wp_modifyGet, hcache]
        refine ⟨⟨?_, hagrees.fetching, hagrees.dirtied⟩, hdev, hheap⟩
        show Cache.Coherent cfg _ w'.dev
        rw [hdev]
        exact hagrees.coherent
      · simp only [wp_modify, wp_throw]
        refine ⟨⟨?_, fun k hk => ?_, fun k hk => ?_⟩, hw'.dev⟩
        · show Cache.Coherent cfg (w'.cache.fetchFailed l) w'.dev
          rw [hw'.cache, hw'.dev]
          exact ⟨h.coherent.keys, h.coherent.arrays, h.coherent.inUse, h.coherent.content⟩
        · simp only [hw'.cache] at hk
          obtain ⟨hne, hk⟩ := Finset.mem_erase.1 hk
          exact h.fetching k (Finset.mem_of_mem_insert_of_ne hk hne)
        · simp only [hw'.cache] at hk
          exact h.dirtied k (Finset.mem_of_mem_erase hk)

omit [Zero β] in
lemma contentOf_length (dev : ℕ → β) (start count : ℕ) : (contentOf dev start count).length = count := by
  simp [contentOf]

omit [Zero β] in
lemma copied_current {dev : ℕ → β} {c : ReadCall β} {out : List β}
    (h : c.copied cfg (c.line cfg) (cfg.lineOf dev (c.line cfg)) = some out)
    (hout : c.out = contentOf dev c.start c.out.length) (hmore : c.out.length < c.count) :
    out = contentOf dev c.start out.length ∧ c.out.length < out.length ∧ out.length ≤ c.count := by
  unfold ReadCall.copied at h
  obtain ⟨off, hoff⟩ : ∃ off, c.block - c.line cfg * cfg.blocksPerLine = off := ⟨_, rfl⟩
  simp only [hoff] at h
  split at h
  · cases h
  rename_i havail
  cases h
  rw [cfg.lineOf_length] at havail ⊢
  obtain ⟨n, hn⟩ : ∃ n, min (cfg.lineCount (c.line cfg) - off) (c.count - c.out.length) = n := ⟨_, rfl⟩
  have hle : c.line cfg * cfg.blocksPerLine ≤ c.block := Nat.div_mul_le_self ..
  have hpart : ((cfg.lineOf dev (c.line cfg)).drop off).take n = contentOf dev c.block n := by
    refine List.ext_getElem? fun i => ?_
    rw [List.getElem?_take, List.getElem?_drop, cfg.lineOf_getElem?, contentOf, List.getElem?_map]
    split
    · rename_i hi
      rw [if_pos (by omega), List.getElem?_range hi]
      simp only [Option.map_some, Option.some.injEq]
      congr 1
      omega
    · rename_i hi
      rw [List.getElem?_eq_none (by simpa using hi)]
      rfl
  have hlen : (((cfg.lineOf dev (c.line cfg)).drop off).take n).length = n := by
    rw [hpart, contentOf_length]
  rw [hn, List.length_append, hlen]
  refine ⟨?_, by omega, by omega⟩
  rw [hpart]
  nth_rewrite 1 [hout]
  simp only [contentOf, List.range_add, List.map_append, List.map_map, ReadCall.block]
  congr 1
  refine List.map_congr_left fun i _ => ?_
  simp only [Function.comp, Nat.add_assoc]

lemma readLoop_spec (turns : ℕ) : ∀ (c : ReadCall β) (w : Cached β), Agrees cfg w →
    c.out = contentOf w.dev c.start c.out.length → c.out.length ≤ c.count →
    c.count ≤ c.out.length + turns → wp (readLoop cfg turns c)
      (fun data w' => Agrees cfg w' ∧ w'.dev = w.dev ∧ data = contentOf w.dev c.start c.count)
      (fun _ w' => Agrees cfg w' ∧ w'.dev = w.dev) w := by
  induction turns with
  | zero =>
    intro c w h hout hle hturns
    refine ⟨h, rfl, ?_⟩
    rw [hout]
    congr 1
    omega
  | succ turns ih =>
    intro c w h hout hle hturns
    unfold readLoop
    rw [wp_ite]
    refine ⟨fun hmore => ?_, fun hdone => ?_⟩
    · rw [wp_bind]
      refine wp_mono (lineFor_spec h _) (fun r w' hw' => ?_) fun _ _ hw' => hw'
      obtain ⟨hagrees, hdev, hheap⟩ := hw'
      rw [wp_bind, wp_get, hheap, ← hdev]
      cases hc : c.copied cfg (c.line cfg) (cfg.lineOf w'.dev (c.line cfg)) with
      | none => exact ⟨hagrees, rfl⟩
      | some out =>
        obtain ⟨h1, h2, h3⟩ := copied_current hc (hdev ▸ hout) hmore
        refine ih { c with out := out } w' hagrees h1 h3 ?_
        show c.count ≤ out.length + turns
        omega
    · refine ⟨h, rfl, ?_⟩
      nth_rewrite 1 [hout]
      congr 1
      omega

/-- **A read**, whatever the device answers. -/
lemma readBlocks_spec (h : Agrees cfg w) (startBlock blockCount : ℤ) :
    wp (readBlocks cfg startBlock blockCount)
      (fun data w' => Agrees cfg w' ∧ w'.dev = w.dev ∧
        data = contentOf w.dev startBlock.toNat blockCount.toNat)
      (fun _ w' => Agrees cfg w' ∧ w'.dev = w.dev) w := by
  have hsame : ∀ {w' : Cached β}, Below w w' → Agrees cfg w' ∧ w'.dev = w.dev := fun hb =>
    ⟨⟨by rw [hb.cache, hb.dev]; exact h.coherent, by rw [hb.cache]; exact h.fetching, by
      rw [hb.cache]; exact h.dirtied⟩, hb.dev⟩
  unfold readBlocks
  simp only [wp_bind, wp_throwIf]
  refine ⟨fun _ => ⟨h, trivial⟩,
    fun hcount => ⟨fun _ => ⟨h, trivial⟩, fun hstart => ⟨fun _ => ⟨h, trivial⟩, fun _ => ?_⟩⟩⟩
  rw [wp_ite]
  refine ⟨fun h0 => ?_, fun h0 => ?_⟩
  · rw [h0]
    exact ⟨h, rfl, rfl⟩
  rw [wp_ite]
  refine ⟨fun _ => ?_, fun _ => ?_⟩
  · exact wp_mono (delegateRead_spec _ _) (fun _ _ hd => ⟨(hsame hd.2.2).1, (hsame hd.2.2).2, hd.2.1⟩)
      fun _ _ hd => hsame hd
  · exact readLoop_spec _ _ w h rfl (Nat.zero_le _) (by simp)

/-- **A write**, whatever the device answers. -/
lemma writeBlocks_spec (h : Agrees cfg w) (startBlock : ℤ) (data : List β) :
    wp (writeBlocks cfg startBlock data) (fun _ w' => Agrees cfg w') (fun _ w' => Agrees cfg w') w := by
  unfold writeBlocks
  simp only [wp_bind, wp_throwIf, wp_modify, wp_tryCatch]
  refine ⟨fun _ => h, fun hcheck => ?_⟩
  -- a fetch that has been left behind is marked at most
  obtain ⟨c, hc⟩ : ∃ c, w.cache.markFetchesDirty cfg startBlock.toNat data.length = c := ⟨_, rfl⟩
  have hmarked : Agrees cfg { w with cache := c } := by
    rw [← hc]
    unfold Cache.markFetchesDirty
    split
    · exact h
    · refine ⟨⟨h.coherent.keys, h.coherent.arrays, h.coherent.inUse, h.coherent.content⟩,
        h.fetching, fun l hl => ?_⟩
      rcases Finset.mem_union.1 hl with hl | hl
      · exact h.dirtied l hl
      · exact h.fetching l (Finset.mem_filter.1 hl).2
  rw [hc]
  refine wp_mono (delegateWrite_spec _ _) (fun _ w' hw' => ?_) fun _ w' hw' => ?_
  · obtain ⟨hin, hcache, hdev⟩ := hw'
    have hfits : startBlock.toNat + data.length ≤ cfg.blockCount := by
      obtain ⟨h1, -, h2⟩ := hin
      omega
    obtain ⟨hframe, -⟩ :=
      Cache.patchLoop_frame cfg data.length startBlock.toNat data hmarked.coherent.keys
    simp only [hcache]
    refine ⟨?_, ?_, ?_⟩
    · show Cache.Coherent cfg _ w'.dev
      rw [hdev]
      exact hmarked.coherent.patchRange hfits
    · intro l hl
      exact hmarked.fetching l (hframe.fetching ▸ hl)
    · intro l hl
      exact hmarked.dirtied l (hframe.dirtied ▸ hl)
  · obtain ⟨hcache, hdev⟩ := hw'
    obtain ⟨hframe, -, -⟩ := Cache.invalidateRange_spec cfg (c := c) startBlock.toNat data.length
    simp only [wp_throw, hcache]
    refine ⟨hmarked.coherent.invalidateRange hdev, ?_, ?_⟩
    · intro l hl
      exact hmarked.fetching l (hframe.fetching ▸ hl)
    · intro l hl
      exact hmarked.dirtied l (hframe.dirtied ▸ hl)

lemma Agrees.invalidate (h : Agrees cfg w) : Agrees cfg { w with cache := w.cache.invalidate } where
  coherent := ⟨List.nodup_nil, List.nodup_nil, fun _ hr => absurd hr List.not_mem_nil,
    fun _ he => absurd he List.not_mem_nil⟩
  fetching := h.fetching
  dirtied := fun l hl => (Finset.mem_union.1 hl).elim (h.dirtied l) (h.fetching l)

end Specs

/-! ### Sequences of calls -/

inductive Op (β : Type) where
  | read (startBlock blockCount : ℤ)
  | write (startBlock : ℤ) (data : List β)
  | invalidate

section Runs

variable [Zero β]

def after {α : Type} (m : CM β α) (w : Cached β) : Cached β :=
  match m w with
  | .ok _ w' => w'
  | .error _ w' => w'

def Op.apply (cfg : Config) (w : Cached β) : Op β → Cached β
  | .read startBlock blockCount => after (readBlocks cfg startBlock blockCount) w
  | .write startBlock data => after (writeBlocks cfg startBlock data) w
  | .invalidate => after Cached.invalidate w

variable {cfg : Config} {w : Cached β}

omit [Zero β] in
lemma wp_after {α : Type} {m : CM β α} {P : Cached β → Prop}
    (h : wp m (fun _ => P) (fun _ => P) w) : P (after m w) := by
  unfold wp at h
  unfold after
  generalize m w = r at h ⊢
  cases r <;> exact h

lemma Agrees.apply (h : Agrees cfg w) (op : Op β) : Agrees cfg (op.apply cfg w) := by
  cases op with
  | read startBlock blockCount =>
    exact wp_after
      (wp_mono (readBlocks_spec h startBlock blockCount) (fun _ _ hw => hw.1) fun _ _ hw => hw.1)
  | write startBlock data => exact wp_after (writeBlocks_spec h startBlock data)
  | invalidate => exact h.invalidate

lemma Agrees.foldl (h : Agrees cfg w) (ops : List (Op β)) : Agrees cfg (ops.foldl (Op.apply cfg) w) := by
  induction ops generalizing w with
  | nil => exact h
  | cons op ops ih => exact ih (h.apply op)

/-- **A read that returns gives the device's content**: after any calls to a new cache, over any
device and whatever it has answered and is going to answer. -/
theorem readBlocks_current (cfg : Config) (dev : ℕ → β) (replies : ℕ → Reply β) (ops : List (Op β))
    (startBlock blockCount : ℤ) {data : List β} {w' : Cached β}
    (hread : readBlocks cfg startBlock blockCount (ops.foldl (Op.apply cfg) (fresh dev replies)) =
      .ok data w') : w'.dev = (ops.foldl (Op.apply cfg) (fresh dev replies)).dev ∧
      data = contentOf w'.dev startBlock.toNat blockCount.toNat := by
  have hagrees := (Agrees.fresh cfg dev replies).foldl ops
  obtain ⟨-, hdev, hdata⟩ := wp_ok (readBlocks_spec hagrees startBlock blockCount) hread
  exact ⟨hdev, by rw [hdata, hdev]⟩

/-- A device of five blocks under a cache of two-block lines, the last of which is short. A write of
three blocks throws with one of them changed, and a read of the line that ends the device throws;
reads of a cached and of a dropped line then give what the device holds. -/
theorem readBlocks_current_torn :
    let cfg : Config := ⟨512, 5, 0, 1024⟩
    let replies : ℕ → Reply ℕ := fun n =>
      if n = 2 then .throws fun b => if b = 3 then some 9 else none
      else if n = 3 then .throws fun _ => none else .succeeds
    let ops : List (Op ℕ) := [.read 0 1, .read 2 1, .write 2 [7, 7, 7], .read 4 1, .read 3 1]
    ∃ w', readBlocks cfg 3 1 (ops.foldl (Op.apply cfg) (fresh (fun b => b) replies)) = .ok [9] w' ∧
      [9] = contentOf w'.dev 3 1 := by
  intro cfg replies ops
  obtain ⟨w', hrun⟩ :
      ∃ w', readBlocks cfg 3 1 (ops.foldl (Op.apply cfg) (fresh (fun b => b) replies)) =
          .ok [9] w' := by
    obtain ⟨data, w', hok, hdata⟩ :=
      returns_ok (m := readBlocks cfg 3 1) (P := fun data _ => data == [9])
      (s := ops.foldl (Op.apply cfg) (fresh (fun b => b) replies)) (by decide +kernel)
    exact ⟨w', by rw [hok, eq_of_beq hdata]⟩
  exact ⟨w', hrun, (readBlocks_current cfg (fun b => b) replies ops 3 1 hrun).2⟩

end Runs

end Cached

end OtgMaster.Block
