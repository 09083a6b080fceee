import OtgMaster.Lib.Blocks
import Mathlib.Data.Finset.Basic
import Mathlib.Order.Interval.Finset.Nat
import Mathlib.Data.List.Nodup
import Mathlib.Logic.Function.Basic

/-!
`CachedBlockDevice`: the table of cached lines with its access order, the arrays it hands out, and
the sections of `readBlocks`, `writeBlocks` and `invalidate` that hold the cache's lock, each as a
function on the cache. Arrays are objects that a reader keeps using after its section has ended, so
they live in a heap and the table holds references into it. A block is a value of any type with a
zero; an array is the list of its blocks.
-/

namespace OtgMaster.Block

open Lib

/-- The device below, and the sizes the cache is made with. -/
structure Config where
  blockSize : ℕ
  blockCount : ℕ
  maxCacheBytes : ℕ
  readAheadBytes : ℕ

def Config.blocksPerLine (cfg : Config) : ℕ := max (cfg.readAheadBytes / cfg.blockSize) 1

def Config.maxLines (cfg : Config) : ℕ :=
  max (cfg.maxCacheBytes / (cfg.blocksPerLine * cfg.blockSize)) 4

/-- The number of blocks of a line: the last one of the device can be short. -/
def Config.lineCount (cfg : Config) (l : ℕ) : ℕ :=
  min cfg.blocksPerLine (cfg.blockCount - l * cfg.blocksPerLine)

structure Cache (β : Type) where
  /-- Line index and array of every cached line, the least recently used line first. -/
  lines : List (ℕ × ℕ)
  heap : ℕ → List β
  /-- The arrays below this number are in use. -/
  next : ℕ
  fetching : Finset ℕ
  dirtiedWhileFetching : Finset ℕ

def Config.lineOf {β : Type} (cfg : Config) (dev : ℕ → β) (l : ℕ) : List β :=
  (List.range (cfg.lineCount l)).map fun i => dev (l * cfg.blocksPerLine + i)

/-- `System.arraycopy` of `data` into `line` at `off`. -/
def patchLine {β : Type} (line : List β) (off : ℕ) (data : List β) : List β :=
  line.take off ++ data ++ line.drop (off + data.length)

/-- The loop of `readBlocks`, with the blocks copied so far. -/
structure ReadCall (β : Type) where
  start : ℕ
  count : ℕ
  out : List β

namespace ReadCall

variable {β : Type}

def block (c : ReadCall β) : ℕ := c.start + c.out.length

def line (cfg : Config) (c : ReadCall β) : ℕ := c.block / cfg.blocksPerLine

/-- The copy from `line` in the loop of `readBlocks`; `none` if the check on the line throws. -/
def copied (cfg : Config) (c : ReadCall β) (l : ℕ) (line : List β) : Option (List β) :=
  let off := c.block - l * cfg.blocksPerLine
  let available := line.length - off
  if available = 0 then none
  else some (c.out ++ (line.drop off).take (min available (c.count - c.out.length)))

end ReadCall

namespace Cache

variable {β : Type}

def empty : Cache β := ⟨[], fun _ => [], 0, ∅, ∅⟩

/-! ### The table of lines -/

/-- `lines[lineIndex]`, for its effect on the access order. -/
def touch (c : Cache β) (l : ℕ) : Cache β :=
  match c.lines.lookup l with
  | some r => { c with lines := c.lines.filter (·.1 ≠ l) ++ [(l, r)] }
  | none => c

def alloc (c : Cache β) (data : List β) : Cache β :=
  { c with heap := Function.update c.heap c.next data, next := c.next + 1 }

section Fill

variable [Zero β]

def fill (c : Cache β) (r : ℕ) : Cache β :=
  { c with heap := Function.update c.heap r (List.replicate (c.heap r).length 0) }

def removeEldestEntry (cfg : Config) (c : Cache β) : Cache β :=
  if c.lines.length ≤ cfg.maxLines then c
  else
    match c.lines with
    | [] => c
    | (_, r) :: rest => { c.fill r with lines := rest }

/-- `lines[lineIndex] = data`. Only a new line can evict another. -/
def put (cfg : Config) (c : Cache β) (l r : ℕ) : Cache β :=
  match c.lines.lookup l with
  | some _ => { c with lines := c.lines.filter (·.1 ≠ l) ++ [(l, r)] }
  | none => removeEldestEntry cfg { c with lines := c.lines ++ [(l, r)] }

/-- `lines.remove(i)?.fill(0)`. -/
def drop (c : Cache β) (l : ℕ) : Cache β :=
  match c.lines.lookup l with
  | some r => { c.fill r with lines := c.lines.filter (·.1 ≠ l) }
  | none => c

end Fill

/-! ### The sections of a read -/

/-- The first section of `lineFor`. -/
def lookup (c : Cache β) (l : ℕ) : Cache β × Option ℕ :=
  match c.lines.lookup l with
  | some r => (c.touch l, some r)
  | none => ({ c with fetching := insert l c.fetching }, none)

/-- The section of `lineFor` for a device read that threw. -/
def fetchFailed (c : Cache β) (l : ℕ) : Cache β :=
  { c with fetching := c.fetching.erase l, dirtiedWhileFetching := c.dirtiedWhileFetching.erase l }

/-- The last section of `lineFor`: `r` is the array read, the result the one to be used. -/
def publish [Zero β] (cfg : Config) (c : Cache β) (l r : ℕ) : Cache β × ℕ :=
  if l ∈ c.dirtiedWhileFetching then
    match c.lines.lookup l with
    | some r' => ((c.fetchFailed l).touch l, r')
    | none => (c.fetchFailed l, r)
  else ((c.fetchFailed l).put cfg l r, r)

/-! ### The section of a write -/

def lastLine (cfg : Config) (start blocks : ℕ) : ℕ := (start + blocks - 1) / cfg.blocksPerLine

def markFetchesDirty (cfg : Config) (c : Cache β) (start blocks : ℕ) : Cache β :=
  if c.fetching = ∅ ∨ blocks = 0 then c
  else { c with dirtiedWhileFetching := c.dirtiedWhileFetching ∪
    (Finset.Icc (start / cfg.blocksPerLine) (lastLine cfg start blocks)).filter (· ∈ c.fetching) }

/-- One turn of the loop in `patchRange`: `data` goes to line `l`, from block `off` of it on. -/
def patchOne (c : Cache β) (l off : ℕ) (data : List β) : Cache β :=
  match c.lines.lookup l with
  | some r =>
    let copyable := min data.length ((c.heap r).length - off)
    if 0 < copyable then
      { c.touch l with heap := Function.update c.heap r (patchLine (c.heap r) off (data.take copyable)) }
    else c.touch l
  | none => c

/-- The loop in `patchRange`; every turn takes at least one block. -/
def patchLoop (cfg : Config) : ℕ → Cache β → ℕ → List β → Cache β
  | 0, c, _, _ => c
  | turns + 1, c, block, data =>
    if data.length = 0 then c
    else
      let l := block / cfg.blocksPerLine
      let off := block - l * cfg.blocksPerLine
      let take := min (cfg.blocksPerLine - off) data.length
      patchLoop cfg turns (c.patchOne l off (data.take take)) (block + take) (data.drop take)

def patchRange (cfg : Config) (c : Cache β) (start : ℕ) (data : List β) : Cache β :=
  patchLoop cfg data.length c start data

def invalidateRange [Zero β] (cfg : Config) (c : Cache β) (start blocks : ℕ) : Cache β :=
  if blocks = 0 then c
  else
    let first := start / cfg.blocksPerLine
    (List.range' first (lastLine cfg start blocks + 1 - first)).foldl drop c

/-- What a write does to the cache around the device's own write, which `ok` says has succeeded. -/
def written [Zero β] (cfg : Config) (c : Cache β) (start : ℕ) (data : List β) (ok : Bool) : Cache β :=
  let c := c.markFetchesDirty cfg start data.length
  if ok then c.patchRange cfg start data else c.invalidateRange cfg start data.length

/-! ### Dropping everything -/

def invalidate [Zero β] (c : Cache β) : Cache β :=
  { c with
    dirtiedWhileFetching := c.dirtiedWhileFetching ∪ c.fetching
    heap := fun r => if r ∈ c.lines.map (·.2) then List.replicate (c.heap r).length 0 else c.heap r
    lines := [] }

/-! ### What the operations leave alone -/

section Frame

variable (cfg : Config) (c : Cache β) (l r : ℕ)

def arrays : List ℕ := c.lines.map (·.2)

variable {c l r}

lemma mem_arrays (h : (l, r) ∈ c.lines) : r ∈ c.arrays := List.mem_map.2 ⟨_, h, rfl⟩

lemma lookup_mem (h : c.lines.lookup l = some r) : (l, r) ∈ c.lines := by
  obtain ⟨l₁, l₂, hl, -⟩ := List.lookup_eq_some_iff.1 h
  simp [hl]

lemma lookup_none_iff : c.lines.lookup l = none ↔ l ∉ c.lines.map (·.1) := by
  simp only [List.lookup_eq_none_iff, List.mem_map, not_exists, not_and, bne_iff_ne, ne_eq]
  exact forall₂_congr fun p _ => not_congr eq_comm

lemma filter_of_lookup_none (h : c.lines.lookup l = none) : c.lines.filter (·.1 ≠ l) = c.lines := by
  refine List.filter_eq_self.2 fun p hp => ?_
  simpa using fun hpl => lookup_none_iff.1 h (List.mem_map.2 ⟨p, hp, hpl⟩)

lemma touch_lines (hk : (c.lines.map (·.1)).Nodup) : (c.touch l).lines.Perm c.lines := by
  unfold touch
  split
  · rename_i r h
    obtain ⟨l₁, l₂, hl, -⟩ := List.lookup_eq_some_iff.1 h
    rw [hl, List.map_append, List.map_cons, List.nodup_middle, List.nodup_cons] at hk
    have hne : ∀ p ∈ l₁ ++ l₂, p.1 ≠ l := fun p hp hpl =>
      hk.1 (by rw [← List.map_append]; exact List.mem_map.2 ⟨p, hp, hpl⟩)
    have hf : c.lines.filter (·.1 ≠ l) = l₁ ++ l₂ := by
      rw [hl, List.filter_append, List.filter_cons_of_neg (by simp), ← List.filter_append]
      exact List.filter_eq_self.2 fun p hp => by simpa using hne p hp
    rw [hf, hl]
    exact (List.perm_append_singleton _ _).trans List.perm_middle.symm
  · exact .refl _

@[simp] lemma touch_heap : (c.touch l).heap = c.heap := by unfold touch; split <;> rfl
@[simp] lemma touch_next : (c.touch l).next = c.next := by unfold touch; split <;> rfl
@[simp] lemma touch_fetching : (c.touch l).fetching = c.fetching := by unfold touch; split <;> rfl
@[simp] lemma touch_dirtied : (c.touch l).dirtiedWhileFetching = c.dirtiedWhileFetching := by
  unfold touch; split <;> rfl

/-- `c'` differs from `c` in the cached lines and their arrays only: arrays that are in use and not
cached stay what they are. -/
structure Frame (c c' : Cache β) : Prop where
  next : c'.next = c.next
  heap : ∀ r, r ∉ c.arrays → c'.heap r = c.heap r
  arrays : c'.arrays ⊆ c.arrays
  fetching : c'.fetching = c.fetching
  dirtied : c'.dirtiedWhileFetching = c.dirtiedWhileFetching

lemma Frame.refl (c : Cache β) : Frame c c := ⟨rfl, fun _ _ => rfl, List.Subset.refl _, rfl, rfl⟩

lemma Frame.trans {c c' c'' : Cache β} (h : Frame c c') (h' : Frame c' c'') : Frame c c'' :=
  ⟨h'.next.trans h.next, fun r hr => (h'.heap r fun hr' => hr (h.arrays hr')).trans (h.heap r hr),
    fun _ hr => h.arrays (h'.arrays hr), h'.fetching.trans h.fetching, h'.dirtied.trans h.dirtied⟩

lemma touch_frame (hk : (c.lines.map (·.1)).Nodup) : Frame c (c.touch l) :=
  ⟨touch_next, fun _ _ => by rw [touch_heap], ((touch_lines hk).map _).subset, touch_fetching,
    touch_dirtied⟩

lemma patchOne_lines {off : ℕ} {data : List β} (hk : (c.lines.map (·.1)).Nodup) :
    (c.patchOne l off data).lines.Perm c.lines := by
  unfold patchOne
  split
  · dsimp only
    split
    · exact touch_lines hk
    · exact touch_lines hk
  · exact .refl _

lemma patchOne_frame {off : ℕ} {data : List β} (hk : (c.lines.map (·.1)).Nodup) :
    Frame c (c.patchOne l off data) := by
  have ht : Frame c (c.touch l) := touch_frame hk
  unfold patchOne
  split
  · rename_i r h
    dsimp only
    split
    · refine ⟨ht.next, fun r' hr' => ?_, ht.arrays, ht.fetching, ht.dirtied⟩
      have hne : r' ≠ r := fun e => hr' (e ▸ mem_arrays (lookup_mem h))
      exact Function.update_of_ne hne _ _
    · exact ht
  · exact .refl c

lemma patchLoop_frame (turns block : ℕ) (data : List β) (hk : (c.lines.map (·.1)).Nodup) :
    Frame c (patchLoop cfg turns c block data) ∧
    (patchLoop cfg turns c block data).lines.Perm c.lines := by
  induction turns generalizing c block data with
  | zero => exact ⟨.refl c, .refl _⟩
  | succ turns ih =>
    unfold patchLoop
    split
    · exact ⟨.refl c, .refl _⟩
    · have hk' : ∀ l off (data : List β), ((c.patchOne l off data).lines.map (·.1)).Nodup :=
        fun _ _ _ => ((patchOne_lines hk).map _).nodup_iff.2 hk
      exact ⟨(patchOne_frame hk).trans (ih _ _ (hk' ..)).1,
        (ih _ _ (hk' ..)).2.trans (patchOne_lines hk)⟩

variable [Zero β]

lemma drop_lines : (c.drop l).lines = c.lines.filter (·.1 ≠ l) := by
  unfold drop
  split
  · rfl
  · rename_i h
    rw [filter_of_lookup_none h]

lemma drop_frame : Frame c (c.drop l) := by
  have harr : (c.drop l).arrays ⊆ c.arrays := by
    rw [arrays, drop_lines]
    exact List.map_subset _ (List.filter_subset_self _)
  unfold drop at *
  split
  · rename_i r h
    rw [h] at harr
    refine ⟨rfl, fun r' hr' => ?_, harr, rfl, rfl⟩
    have hne : r' ≠ r := fun e => hr' (e ▸ mem_arrays (lookup_mem h))
    exact Function.update_of_ne hne _ _
  · exact .refl c

variable {e : ℕ × ℕ}

lemma drop_heap (harr : c.arrays.Nodup) (he : e ∈ (c.drop l).lines) :
    (c.drop l).heap e.2 = c.heap e.2 := by
  rw [drop_lines, List.mem_filter, decide_eq_true_eq] at he
  unfold drop
  split
  · rename_i r h
    have hne : e.2 ≠ r := fun her =>
      he.2 (congrArg Prod.fst (List.inj_on_of_nodup_map harr he.1 (lookup_mem h) her))
    exact Function.update_of_ne hne _ _
  · rfl

lemma foldl_drop (ls : List ℕ) : Frame c (ls.foldl drop c) ∧
    (ls.foldl drop c).lines = c.lines.filter (·.1 ∉ ls) := by
  induction ls generalizing c with
  | nil => exact ⟨.refl c, by simp⟩
  | cons l ls ih =>
    obtain ⟨hf, hl⟩ := ih (c := c.drop l)
    refine ⟨drop_frame.trans hf, ?_⟩
    rw [List.foldl_cons, hl, drop_lines, List.filter_filter]
    exact List.filter_congr fun p _ => by simp [Bool.and_comm]

lemma foldl_drop_heap (ls : List ℕ) (harr : c.arrays.Nodup)
    (he : e ∈ (ls.foldl drop c).lines) : (ls.foldl drop c).heap e.2 = c.heap e.2 := by
  induction ls generalizing c with
  | nil => rfl
  | cons l ls ih =>
    have hsub : (c.drop l).lines.Sublist c.lines := by
      rw [drop_lines]
      exact List.filter_sublist
    have hmem : e ∈ (c.drop l).lines := by
      rw [List.foldl_cons, (foldl_drop (c := c.drop l) ls).2] at he
      exact List.mem_of_mem_filter he
    exact (ih (harr.sublist (hsub.map _)) he).trans (drop_heap harr hmem)

lemma invalidateRange_heap {start blocks : ℕ} (harr : c.arrays.Nodup)
    (he : e ∈ (c.invalidateRange cfg start blocks).lines) :
    (c.invalidateRange cfg start blocks).heap e.2 = c.heap e.2 := by
  by_cases hb : blocks = 0
  · simp [invalidateRange, hb]
  · unfold invalidateRange at *
    rw [if_neg hb] at *
    exact foldl_drop_heap _ harr he

lemma invalidateRange_spec (start blocks : ℕ) : Frame c (c.invalidateRange cfg start blocks) ∧
    (c.invalidateRange cfg start blocks).lines.Sublist c.lines ∧
      ∀ e, e ∈ (c.invalidateRange cfg start blocks).lines ↔ e ∈ c.lines ∧
      (blocks = 0 ∨ e.1 ∉ Finset.Icc (start / cfg.blocksPerLine) (lastLine cfg start blocks)) := by
  unfold invalidateRange
  split
  · rename_i h
    exact ⟨.refl c, .refl _, by simp [h]⟩
  · rename_i h
    dsimp only
    obtain ⟨hf, hl⟩ := foldl_drop (c := c) (List.range' (start / cfg.blocksPerLine)
      (lastLine cfg start blocks + 1 - start / cfg.blocksPerLine))
    refine ⟨hf, hl ▸ List.filter_sublist, fun e => ?_⟩
    rw [hl, List.mem_filter]
    simp only [List.mem_range'_1, decide_not, Bool.not_eq_true', decide_eq_false_iff_not, Finset.mem_Icc,
      h, false_or]
    refine and_congr_right fun _ => not_congr ?_
    omega

/-- What `put` does for a line that is not cached: it goes to the end, and the eldest line is zeroed
and dropped if the cache is full. -/
lemma put_spec (h : c.lines.lookup l = none) :
    (c.put cfg l r).next = c.next ∧ (c.put cfg l r).fetching = c.fetching ∧
    (c.put cfg l r).dirtiedWhileFetching = c.dirtiedWhileFetching ∧
    ((c.put cfg l r).lines = c.lines ++ [(l, r)] ∧ (c.put cfg l r).heap = c.heap ∨
      ∃ e rest, cfg.maxLines ≤ c.lines.length ∧ c.lines = e :: rest ∧
        (c.put cfg l r).lines = rest ++ [(l, r)] ∧
        (c.put cfg l r).heap = Function.update c.heap e.2 (List.replicate (c.heap e.2).length 0)) := by
  have hput : c.put cfg l r = removeEldestEntry cfg { c with lines := c.lines ++ [(l, r)] } := by
    unfold put
    rw [h]
  rw [hput]
  unfold removeEldestEntry
  split
  · exact ⟨rfl, rfl, rfl, .inl ⟨rfl, rfl⟩⟩
  · rename_i hfull
    have hpos : 4 ≤ cfg.maxLines := le_max_right _ _
    rw [List.length_append, List.length_singleton] at hfull
    obtain ⟨e, rest, he⟩ : ∃ e rest, c.lines = e :: rest :=
      List.exists_cons_of_length_pos (by omega)
    simp only [he, List.cons_append]
    exact ⟨rfl, rfl, rfl, .inr ⟨e, rest, by rw [← he]; omega, rfl, rfl, rfl⟩⟩

lemma put_mem (h : c.lines.lookup l = none) (he : e ∈ (c.put cfg l r).lines) :
    e ∈ c.lines ∨ e = (l, r) := by
  obtain ⟨-, -, -, ⟨hlines, -⟩ | ⟨old, rest, -, hold, hlines, -⟩⟩ := put_spec cfg (r := r) h
  · rw [hlines] at he
    simpa using he
  · rw [hlines, List.mem_append, List.mem_singleton] at he
    exact he.imp_left fun h => hold ▸ List.mem_cons_of_mem _ h

lemma put_self (h : c.lines.lookup l = none) : (l, r) ∈ (c.put cfg l r).lines := by
  obtain ⟨-, -, -, ⟨hlines, -⟩ | ⟨old, rest, -, -, hlines, -⟩⟩ :=
    put_spec cfg (r := r) h <;> simp [hlines]

lemma put_keeps (h : c.lines.lookup l = none) (he : e ∈ c.lines)
    (hold : cfg.maxLines ≤ c.lines.length → c.lines.head? ≠ some e) : e ∈ (c.put cfg l r).lines := by
  obtain ⟨-, -, -, ⟨hlines, -⟩ | ⟨old, rest, hfull, hcons, hlines, -⟩⟩ := put_spec cfg (r := r) h
  · rw [hlines]
    exact List.mem_append_left _ he
  · have hne := hold hfull
    rw [hcons] at he hne
    rw [hlines]
    rcases List.mem_cons.1 he with rfl | he
    · exact absurd rfl hne
    · exact List.mem_append_left _ he

lemma put_heap (h : c.lines.lookup l = none) {r' : ℕ} (hr' : r' ∉ c.arrays) :
    (c.put cfg l r).heap r' = c.heap r' := by
  obtain ⟨-, -, -, ⟨-, hheap⟩ | ⟨old, rest, -, hold, -, hheap⟩⟩ := put_spec cfg (r := r) h
  · rw [hheap]
  · have hne : r' ≠ old.2 := fun e => hr' (e ▸ mem_arrays (l := old.1) (hold ▸ List.mem_cons_self))
    rw [hheap, Function.update_of_ne hne]

end Frame

/-! ### What the arrays hold -/

def All (P : β → Prop) (c : Cache β) : Prop := ∀ r, ∀ v ∈ c.heap r, P v

section All

variable {P : β → Prop} {c : Cache β} {l r : ℕ}

variable {data : List β} {cfg : Config} {start : ℕ}

lemma All.update (h : c.All P) (hd : ∀ v ∈ data, P v) {c' : Cache β}
    (hc : c'.heap = Function.update c.heap r data) : c'.All P := by
  intro r' v hv
  rw [hc] at hv
  by_cases hr : r' = r
  · rw [hr, Function.update_self] at hv
    exact hd v hv
  · rw [Function.update_of_ne hr] at hv
    exact h r' v hv

lemma All.touch (h : c.All P) : (c.touch l).All P := fun r v hv => h r v (by rwa [touch_heap] at hv)

lemma All.patchOne (h : c.All P) {off : ℕ} (hd : ∀ v ∈ data, P v) :
    (c.patchOne l off data).All P := by
  unfold Cache.patchOne
  split
  · rename_i r _
    dsimp only
    split
    · refine h.update (fun v hv => ?_) rfl
      rcases List.mem_append.1 hv with hv | hv
      · rcases List.mem_append.1 hv with hv | hv
        · exact h r v (List.mem_of_mem_take hv)
        · exact hd v (List.mem_of_mem_take hv)
      · exact h r v (List.mem_of_mem_drop hv)
    · exact h.touch
  · exact h

lemma All.patchRange (h : c.All P) (hd : ∀ v ∈ data, P v) :
    (c.patchRange cfg start data).All P := by
  suffices hloop : ∀ turns (c : Cache β) block (data : List β), (∀ v ∈ data, P v) → c.All P →
      (patchLoop cfg turns c block data).All P from hloop _ _ _ _ hd h
  intro turns
  induction turns with
  | zero => exact fun _ _ _ _ h => h
  | succ turns ih =>
    intro c block data hd h
    unfold patchLoop
    split
    · exact h
    · exact ih _ _ _ (fun v hv => hd v (List.mem_of_mem_drop hv))
        (h.patchOne fun v hv => hd v (List.mem_of_mem_take hv))

lemma All.markFetchesDirty (h : c.All P) {blocks : ℕ} :
    (c.markFetchesDirty cfg start blocks).All P := by
  unfold Cache.markFetchesDirty
  split <;> exact h

variable [Zero β]

lemma All.fill (h : c.All P) (h0 : P 0) : (c.fill r).All P :=
  h.update (fun v hv => by rw [List.eq_of_mem_replicate hv]; exact h0) rfl

lemma All.put (h : c.All P) (h0 : P 0) : (c.put cfg l r).All P := by
  unfold Cache.put
  split
  · exact h
  · unfold removeEldestEntry
    split
    · exact h
    · split
      · exact h
      · exact All.fill (c := { c with lines := _ }) h h0

lemma All.publish (h : c.All P) (h0 : P 0) : (c.publish cfg l r).1.All P := by
  unfold Cache.publish
  split
  · split
    · exact All.touch (c := c.fetchFailed l) h
    · exact h
  · exact All.put (c := c.fetchFailed l) h h0

lemma All.invalidateRange (h : c.All P) (h0 : P 0) {blocks : ℕ} :
    (c.invalidateRange cfg start blocks).All P := by
  have hdrop : ∀ (c : Cache β) l, c.All P → (c.drop l).All P := fun c l hc => by
    unfold Cache.drop
    split
    · exact hc.fill h0
    · exact hc
  unfold Cache.invalidateRange
  split
  · exact h
  · exact List.foldlRecOn _ _ h fun c hc l _ => hdrop c l hc

lemma All.invalidate (h : c.All P) (h0 : P 0) : c.invalidate.All P := by
  intro r v hv
  simp only [Cache.invalidate] at hv
  split at hv
  · rw [List.eq_of_mem_replicate hv]
    exact h0
  · exact h r v hv

end All

/-! ### The cache and the device agree -/

/-- Every cached line is what the device holds, in an array of its own. -/
structure Coherent (cfg : Config) (c : Cache β) (dev : ℕ → β) : Prop where
  keys : (c.lines.map (·.1)).Nodup
  arrays : c.arrays.Nodup
  inUse : ∀ r ∈ c.arrays, r < c.next
  content : ∀ e ∈ c.lines, c.heap e.2 = cfg.lineOf dev e.1

end Cache

section Lines

variable {β : Type} (cfg : Config) {dev dev' : ℕ → β} {l : ℕ}

lemma Config.blocksPerLine_pos : 0 < cfg.blocksPerLine := lt_of_lt_of_le one_pos (le_max_right _ _)

@[simp] lemma Config.lineOf_length : (cfg.lineOf dev l).length = cfg.lineCount l := by
  simp [lineOf]

lemma Config.lineOf_getElem? (i : ℕ) :
    (cfg.lineOf dev l)[i]? = if i < cfg.lineCount l then some (dev (l * cfg.blocksPerLine + i))
      else none := by
  unfold lineOf
  rw [List.getElem?_map]
  split
  · rename_i h
    simp [List.getElem?_range h]
  · rename_i h
    simp [h]

lemma Config.lineOf_congr (h : ∀ b, b / cfg.blocksPerLine = l → dev' b = dev b) :
    cfg.lineOf dev' l = cfg.lineOf dev l := by
  refine List.map_congr_left fun i hi => h _ ?_
  have hi' : i < cfg.blocksPerLine := lt_of_lt_of_le (List.mem_range.1 hi) (min_le_left _ _)
  rw [mul_comm, Nat.mul_add_div cfg.blocksPerLine_pos, Nat.div_eq_of_lt hi', add_zero]

lemma Config.lineOf_outside {start blocks : ℕ}
    (hdev : ∀ b, ¬(start ≤ b ∧ b < start + blocks) → dev' b = dev b)
    (hl : blocks = 0 ∨ l ∉ Finset.Icc (start / cfg.blocksPerLine) (Cache.lastLine cfg start blocks)) :
    cfg.lineOf dev' l = cfg.lineOf dev l := by
  refine cfg.lineOf_congr fun b hb => hdev b fun ⟨h₁, h₂⟩ => ?_
  rcases hl with rfl | hl
  · omega
  · refine hl (Finset.mem_Icc.2 ⟨?_, ?_⟩)
    · rw [← hb]
      exact Nat.div_le_div_right h₁
    · rw [← hb]
      exact Nat.div_le_div_right (by omega)

lemma Config.lineOf_overwrite {off : ℕ} {data : List β} (h : off + data.length ≤ cfg.lineCount l) :
    cfg.lineOf (overwrite dev (l * cfg.blocksPerLine + off) data) l =
      patchLine (cfg.lineOf dev l) off data := by
  refine List.ext_getElem? fun i => ?_
  unfold patchLine
  rw [lineOf_getElem?, List.getElem?_append, List.getElem?_append, List.getElem?_drop,
    List.getElem?_take, List.length_append, List.length_take, lineOf_length, lineOf_getElem?,
    lineOf_getElem?]
  unfold overwrite
  grind

end Lines

namespace Cache

section Agree

variable {β : Type} {cfg : Config} {c c' : Cache β} {dev dev' : ℕ → β} {l r : ℕ}

lemma Coherent.ne_of_mem (h : Coherent cfg c dev) {e : ℕ × ℕ} (he : e ∈ c.lines)
    (hl : (l, r) ∈ c.lines) (hne : e.1 ≠ l) : e.2 ≠ r := fun her =>
  hne (congrArg Prod.fst (List.inj_on_of_nodup_map h.arrays he hl her))

lemma Coherent.array_unique (h : Coherent cfg c dev) {r' : ℕ} (hr : (l, r) ∈ c.lines)
    (hr' : (l, r') ∈ c.lines) : r = r' :=
  congrArg Prod.snd (List.inj_on_of_nodup_map h.keys hr hr' rfl)

lemma Coherent.of_perm (h : Coherent cfg c dev) (hl : c'.lines.Perm c.lines) (hn : c.next ≤ c'.next)
    (hc : ∀ e ∈ c.lines, c'.heap e.2 = cfg.lineOf dev' e.1) : Coherent cfg c' dev' :=
  ⟨(hl.map _).nodup_iff.2 h.keys, (hl.map _).nodup_iff.2 h.arrays,
    fun r hr => (h.inUse r ((hl.map _).subset hr)).trans_le hn, fun e he => hc e (hl.subset he)⟩

lemma Coherent.empty (cfg : Config) (dev : ℕ → β) : Coherent cfg Cache.empty dev :=
  ⟨List.nodup_nil, List.nodup_nil, fun _ h => absurd h List.not_mem_nil,
    fun _ h => absurd h List.not_mem_nil⟩

lemma Coherent.touch (h : Coherent cfg c dev) : Coherent cfg (c.touch l) dev :=
  h.of_perm (touch_lines h.keys) touch_next.ge fun e he => by rw [touch_heap, h.content e he]

lemma Coherent.patchOne (h : Coherent cfg c dev) {off : ℕ} {data : List β}
    (hfit : off + data.length ≤ cfg.lineCount l) :
    Coherent cfg (c.patchOne l off data) (overwrite dev (l * cfg.blocksPerLine + off) data) := by
  have hbpl : cfg.lineCount l ≤ cfg.blocksPerLine := min_le_left _ _
  have hother : ∀ e ∈ c.lines, e.1 ≠ l →
      cfg.lineOf (overwrite dev (l * cfg.blocksPerLine + off) data) e.1 = cfg.lineOf dev e.1 := by
    refine fun e _ hne => cfg.lineOf_congr fun b hb => overwrite_outside fun hin => hne ?_
    rw [← hb]
    exact Nat.div_eq_of_lt_le (by omega) (by rw [Nat.succ_mul]; omega)
  refine h.of_perm (patchOne_lines h.keys) (patchOne_frame h.keys).next.ge fun e he => ?_
  unfold Cache.patchOne
  split
  · rename_i r hr
    have hmem := lookup_mem hr
    have hlen : (c.heap r).length = cfg.lineCount l := by rw [h.content _ hmem, cfg.lineOf_length]
    have hcopy : min data.length ((c.heap r).length - off) = data.length := by omega
    simp only [hcopy, List.take_length]
    have hthis : patchLine (c.heap r) off data =
        cfg.lineOf (overwrite dev (l * cfg.blocksPerLine + off) data) l := by
      rw [cfg.lineOf_overwrite hfit, h.content _ hmem]
    by_cases hel : e.1 = l
    · have her : e.2 = r := h.array_unique (hel ▸ he) hmem
      rw [hel, her]
      split
      · exact (Function.update_self ..).trans hthis
      · rename_i hd
        have hnil : data = [] := List.length_eq_zero_iff.1 (by omega)
        rw [touch_heap, ← hthis, hnil]
        simp [patchLine]
    · have her : e.2 ≠ r := h.ne_of_mem he hmem hel
      rw [hother e he hel, ← h.content e he]
      split
      · exact Function.update_of_ne her _ _
      · rw [touch_heap]
  · rename_i hr
    have hel : e.1 ≠ l := fun hel => lookup_none_iff.1 hr (List.mem_map.2 ⟨e, he, hel⟩)
    rw [hother e he hel, h.content e he]

lemma Coherent.patchRange (h : Coherent cfg c dev) {start : ℕ} {data : List β}
    (hin : start + data.length ≤ cfg.blockCount) :
    Coherent cfg (c.patchRange cfg start data) (overwrite dev start data) := by
  suffices hloop : ∀ turns (c : Cache β) dev block (data : List β), data.length ≤ turns →
      block + data.length ≤ cfg.blockCount → Coherent cfg c dev →
      Coherent cfg (patchLoop cfg turns c block data) (overwrite dev block data) from
    hloop _ _ _ _ _ le_rfl hin h
  clear h hin
  intro turns
  induction turns with
  | zero =>
    intro c dev block data hlen _ h
    rw [show data = [] from List.length_eq_zero_iff.1 (by omega), overwrite_nil]
    exact h
  | succ turns ih =>
    intro c dev block data hlen hin h
    unfold patchLoop
    split
    · rename_i hd
      rw [List.length_eq_zero_iff.1 hd, overwrite_nil]
      exact h
    · rename_i hd
      obtain ⟨l, hl⟩ : ∃ l, block / cfg.blocksPerLine = l := ⟨_, rfl⟩
      obtain ⟨off, hoff⟩ : ∃ off, block - l * cfg.blocksPerLine = off := ⟨_, rfl⟩
      have hle : l * cfg.blocksPerLine ≤ block := hl ▸ Nat.div_mul_le_self _ _
      have hlt : block < (l + 1) * cfg.blocksPerLine :=
        (Nat.div_lt_iff_lt_mul cfg.blocksPerLine_pos).1 (by omega)
      rw [Nat.succ_mul] at hlt
      simp only [hl, hoff]
      obtain ⟨k, hk⟩ : ∃ k, min (cfg.blocksPerLine - off) data.length = k := ⟨_, rfl⟩
      have hfit : off + (data.take k).length ≤ cfg.lineCount l := by
        rw [List.length_take, Config.lineCount]
        omega
      have hone := h.patchOne hfit
      rw [show l * cfg.blocksPerLine + off = block by omega] at hone
      rw [hk, ← overwrite_split k]
      exact ih _ _ _ _ (by rw [List.length_drop]; omega) (by rw [List.length_drop]; omega) hone

variable [Zero β]

/-- Dropping the lines of a range is safe whatever has become of the range on the device. -/
lemma Coherent.invalidateRange (h : Coherent cfg c dev) {start blocks : ℕ}
    (hdev : ∀ b, ¬(start ≤ b ∧ b < start + blocks) → dev' b = dev b) :
    Coherent cfg (c.invalidateRange cfg start blocks) dev' := by
  obtain ⟨hf, hsub, hmem⟩ := invalidateRange_spec cfg (c := c) start blocks
  refine ⟨h.keys.sublist (hsub.map _), h.arrays.sublist (hsub.map _),
    fun r hr => hf.next ▸ h.inUse r (hf.arrays hr), fun e he => ?_⟩
  obtain ⟨hec, hout⟩ := (hmem e).1 he
  rw [cfg.lineOf_outside hdev hout, ← h.content e hec, invalidateRange_heap cfg h.arrays he]

lemma Coherent.put (h : Coherent cfg c dev) (hl : c.lines.lookup l = none) (hr : r ∉ c.arrays)
    (hn : r < c.next) (hcontent : c.heap r = cfg.lineOf dev l) : Coherent cfg (c.put cfg l r) dev := by
  have hkeys : ((c.lines ++ [(l, r)]).map (·.1)).Nodup := by
    rw [List.map_append, List.map_singleton, ← List.concat_eq_append]
    exact h.keys.concat (lookup_none_iff.1 hl)
  have harr : ((c.lines ++ [(l, r)]).map (·.2)).Nodup := by
    rw [List.map_append, List.map_singleton, ← List.concat_eq_append]
    exact h.arrays.concat hr
  have hmem : ∀ e ∈ c.lines ++ [(l, r)], e.2 < c.next ∧ c.heap e.2 = cfg.lineOf dev e.1 := by
    intro e he
    rcases List.mem_append.1 he with he | he
    · exact ⟨h.inUse _ (mem_arrays he), h.content e he⟩
    · obtain rfl := List.mem_singleton.1 he
      exact ⟨hn, hcontent⟩
  obtain ⟨hnext, -, -, ⟨hlines, hheap⟩ | ⟨old, rest, -, hold, hlines, hheap⟩⟩ := put_spec cfg (r := r) hl
  · refine ⟨hlines ▸ hkeys, by rw [Cache.arrays, hlines]; exact harr, fun r' hr' => ?_, fun e he => ?_⟩
    · rw [Cache.arrays, hlines] at hr'
      obtain ⟨e, he, rfl⟩ := List.mem_map.1 hr'
      exact hnext ▸ (hmem e he).1
    · rw [hheap]
      exact (hmem e (hlines ▸ he)).2
  · rw [hold, List.cons_append, List.map_cons, List.nodup_cons] at hkeys harr
    have hsub : ∀ e ∈ rest ++ [(l, r)], e ∈ c.lines ++ [(l, r)] := fun e he => by
      rw [hold]
      exact List.mem_cons_of_mem _ he
    refine ⟨hlines ▸ hkeys.2,
      by rw [Cache.arrays, hlines]; exact harr.2, fun r' hr' => ?_, fun e he => ?_⟩
    · rw [Cache.arrays, hlines] at hr'
      obtain ⟨e, he, rfl⟩ := List.mem_map.1 hr'
      exact hnext ▸ (hmem e (hsub e he)).1
    · rw [hlines] at he
      have hne : e.2 ≠ old.2 := fun heq => harr.1 (heq ▸ List.mem_map.2 ⟨e, he, rfl⟩)
      rw [hheap, Function.update_of_ne hne]
      exact (hmem e (hsub e he)).2

end Agree

end Cache

end OtgMaster.Block
