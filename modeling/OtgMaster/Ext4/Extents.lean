import OtgMaster.Ext4.File
import OtgMaster.Lib.Pieces

/-!
Extent trees as the format has them: what a node holds, when a tree of any depth is in order, and
what the two walks over it find. A tree in order maps logical blocks by the pieces of its leaves,
one after another (`Subtree`); both walks then look the block up in these pieces.

The reader's walk merges the carry of the physical block number into its upper half (`merged`).
-/

namespace OtgMaster.Ext4

open Lib Bytes Piece

/-! ### Entries of a node -/

/-- An extent: a run of logical blocks and the run of blocks behind them; the tag says that they are
allocated and not initialised. -/
abbrev Extent := Piece Bool

def extentAt (data : Bytes) (o : ℕ) : Extent where
  start := data.le32 o
  count := if MAX_INIT_EXTENT_LEN < data.le16 (o + 4) then data.le16 (o + 4) - MAX_INIT_EXTENT_LEN
    else data.le16 (o + 4)
  base := data.le16 (o + 6) * 2 ^ 32 + data.le32 (o + 8)
  tag := decide (MAX_INIT_EXTENT_LEN < data.le16 (o + 4))

def indexAt (data : Bytes) (o : ℕ) : ℕ × ℕ :=
  (data.le32 o, data.le16 (o + 8) * 2 ^ 32 + data.le32 (o + 4))

def entriesAt {α : Type} (entry : Bytes → ℕ → α) (data : Bytes) (o n : ℕ) : List α :=
  (List.range n).map fun i => entry data (o + i * 12)

/-- The header of a node with `n` entries, and room for them. -/
structure Header (data : Bytes) (size offset depth n : ℕ) : Prop where
  magic : data.le16 offset = EXTENT_MAGIC
  entries : data.le16 (offset + 2) = n
  depth : data.le16 (offset + 6) = depth
  room : n ≤ data.le16 (offset + 4)
  fits : offset + 12 + data.le16 (offset + 4) * 12 ≤ size

section Entries

variable {α : Type} {entry : Bytes → ℕ → α} {data data' : Bytes} {o n : ℕ}

@[simp] lemma length_entriesAt : (entriesAt entry data o n).length = n := by simp [entriesAt]

lemma entriesAt_succ :
    entriesAt entry data o (n + 1) = entry data o :: entriesAt entry data (o + 12) n := by
  simp only [entriesAt, List.range_succ_eq_map, List.map_cons, List.map_map, Nat.zero_mul, Nat.add_zero]
  congr 1
  refine List.map_congr_left fun i _ => ?_
  show entry data (o + (i + 1) * 12) = entry data (o + 12 + i * 12)
  congr 1
  omega

lemma entriesAt_split {pre post : List α} {x : α} (h : entriesAt entry data o n = pre ++ x :: post) :
    entry data (o + pre.length * 12) = x ∧ n = pre.length + 1 + post.length := by
  have hlen := congrArg List.length h
  have hget : (entriesAt entry data o n)[pre.length]? = some x := by rw [h]; simp
  simp only [length_entriesAt, List.length_append, List.length_cons] at hlen
  rw [entriesAt, List.getElem?_map, List.getElem?_range (by omega)] at hget
  exact ⟨by simpa using hget, by omega⟩

lemma extentAt_count_le : (extentAt data o).count ≤ 32768 := by
  have := le16_lt data (o + 4)
  unfold extentAt MAX_INIT_EXTENT_LEN
  simp only
  split <;> omega

end Entries

/-! ### Trees in order -/

/-- An entry of an index node with what lies below it: the key, the block of the node, and the
extents and the blocks of the nodes there. -/
structure Child where
  key : ℕ
  block : ℕ
  exts : List Extent
  tree : List ℕ

/-- Where the first of some children begins, `hi` if there are none. -/
def nextKey (hi : ℕ) : List Child → ℕ
  | [] => hi
  | c :: _ => c.key

/-- Each child has what lies between its key and the next one. -/
def Fan (below : Child → ℕ → Prop) (hi : ℕ) : List Child → Prop
  | [] => True
  | c :: cs => c.key < nextKey hi cs ∧ below c (nextKey hi cs) ∧ Fan below hi cs

def nodeBlocks (cs : List Child) : List ℕ := cs.flatMap fun c => c.block :: c.tree

/-- The node at `offset` in `data` is the root of a tree of the given depth that maps logical blocks
from `lo` on and below `hi` by `exts`, and whose other nodes are the blocks `tree` of the device. -/
def Subtree (fs : Ext4FileSystem) (dev : Bytes) : ℕ → Bytes → ℕ → ℕ → ℕ → ℕ → List Extent → List ℕ → Prop
  | 0, data, size, offset, lo, hi, exts, tree =>
    Header data size offset 0 exts.length ∧ entriesAt extentAt data (offset + 12) exts.length = exts ∧
      Ordered lo hi exts ∧ tree = []
  | d + 1, data, size, offset, lo, hi, exts, tree =>
    ∃ cs : List Child, Header data size offset (d + 1) cs.length ∧
      entriesAt indexAt data (offset + 12) cs.length = cs.map (fun c => (c.key, c.block)) ∧
      lo ≤ nextKey hi cs ∧
      Fan (fun c up => c.block < fs.totalBlocks ∧
        Subtree fs dev d (dev.window (c.block * fs.blockSize) fs.blockSize) fs.blockSize 0 c.key up
          c.exts c.tree) hi cs ∧
      exts = cs.flatMap Child.exts ∧ tree = nodeBlocks cs

section Fan

variable {below below' : Child → ℕ → Prop} {lo hi t : ℕ} {cs cs' : List Child} {c : Child}

lemma nextKey_append : nextKey hi (cs ++ cs') = nextKey (nextKey hi cs') cs := by
  cases cs <;> rfl

lemma Fan.append : Fan below hi (cs ++ cs') ↔ Fan below (nextKey hi cs') cs ∧ Fan below hi cs' := by
  induction cs with
  | nil => simp [Fan]
  | cons c cs ih => simp [Fan, ih, nextKey_append, and_assoc]

lemma Fan.next_le (h : Fan below hi cs) : nextKey hi cs ≤ hi := by
  induction cs with
  | nil => exact le_rfl
  | cons c cs ih => exact h.1.le.trans (ih h.2.2)

lemma Fan.ordered (hb : ∀ c ∈ cs, ∀ up, below c up → Ordered c.key up c.exts) (hlo : lo ≤ nextKey hi cs)
    (h : Fan below hi cs) : Ordered lo hi (cs.flatMap Child.exts) := by
  induction cs generalizing lo with
  | nil => exact hlo
  | cons c cs ih =>
    have hc := hb c (List.mem_cons_self ..) _ h.2.1
    exact (hc.mono hlo le_rfl).append (ih (fun c hc => hb c (List.mem_cons_of_mem _ hc)) le_rfl h.2.2)

lemma Fan.look_before (hb : ∀ c ∈ cs, ∀ up, below c up → Ordered c.key up c.exts) (h : Fan below hi cs)
    (ht : t < nextKey hi cs) : look (cs.flatMap Child.exts) t = none :=
  look_below (h.ordered hb le_rfl) ht

lemma Fan.look_child (hb : ∀ c' ∈ cs ++ c :: cs', ∀ up, below c' up → Ordered c'.key up c'.exts)
    (h : Fan below hi (cs ++ c :: cs')) (hlo : c.key ≤ t) (hhi : t < nextKey hi cs') :
    look ((cs ++ c :: cs').flatMap Child.exts) t = look c.exts t := by
  obtain ⟨hfront, -, -, hback⟩ := Fan.append.1 h
  have hob := hback.ordered (fun c' hc' => hb c' (by simp [hc'])) le_rfl
  have hof := hfront.ordered (fun c' hc' => hb c' (by simp [hc'])) (Nat.zero_le _)
  rw [List.flatMap_append, List.flatMap_cons, look_append_right hof hlo, look_append_left hob hhi]

lemma exists_split (t : ℕ) (cs : List Child) : ∃ pre post, cs = pre ++ post ∧ (∀ c ∈ pre, c.key ≤ t) ∧
    ∀ c ∈ post.head?, t < c.key := by
  induction cs with
  | nil => exact ⟨[], [], rfl, by simp, by simp⟩
  | cons c cs ih =>
    by_cases hc : c.key ≤ t
    · obtain ⟨pre, post, rfl, hpre, hpost⟩ := ih
      exact ⟨c :: pre, post, rfl, by simpa using ⟨hc, hpre⟩, hpost⟩
    · exact ⟨[], c :: cs, rfl, by simp, by simpa using hc⟩

end Fan

section Subtree

variable {fs : Ext4FileSystem} {dev dev' data data' : Bytes} {size offset lo hi d : ℕ}
  {exts : List Extent} {tree : List ℕ}

lemma Subtree.ordered : ∀ {d data size offset lo hi exts tree},
    Subtree fs dev d data size offset lo hi exts tree → Ordered lo hi exts := by
  intro d
  induction d with
  | zero => intro data size offset lo hi exts tree h; exact h.2.2.1
  | succ d ih =>
    rintro data size offset lo hi exts tree ⟨cs, -, -, hlo, hfan, rfl, -⟩
    exact hfan.ordered (fun c _ up hc => ih hc.2) hlo

end Subtree

/-! ### The write path's walk -/

/-- What a mapping says about `t` and the blocks after it is what `f` says. -/
structure MapsTo (f : ℕ → Option (ℕ × Bool)) (t : ℕ) (m : Mapping) : Prop where
  pos : 0 < m.length
  eq : ∀ k < m.length, f (t + k) = m.phys.map fun p => (p + k, m.uninitialised)

lemma block_inside {fs : Ext4FileSystem} {b : ℕ} (hdev : fs.totalBlocks * fs.blockSize ≤ fs.deviceSize)
    (hb : b < fs.totalBlocks) : b * fs.blockSize + fs.blockSize ≤ fs.deviceSize := by
  have h := Int.mul_le_mul_of_nonneg_right (Int.add_one_le_of_lt hb) (Int.natCast_nonneg fs.blockSize)
  rw [Int.add_mul, Int.one_mul] at h
  exact_mod_cast h.trans hdev

lemma exts_subset {cs : List Child} (c : Child) (hc : c ∈ cs) : c.exts ⊆ cs.flatMap Child.exts :=
  fun _ he => List.mem_flatMap.2 ⟨c, hc, he⟩

section Map

variable {fs : Ext4FileSystem} {L : Layout} {s : St} {data : Bytes} {size offset t hi : ℕ}

/-- A mapping that does not say more than `limit` allows. -/
def Mapping.Upto (m : Mapping) (t limit : ℕ) : Prop :=
  m.phys = none → t + m.length ≤ limit ∨ limit = LONG_MAX

/-- A run of blocks ends where the extent that it lies in does. -/
def Mapping.EndsIn (m : Mapping) (exts : List Extent) (t : ℕ) : Prop :=
  m.phys ≠ none → ∃ e ∈ exts, e.Covers t ∧ t + m.length = e.start + e.count

lemma Mapping.EndsIn.of_hole {exts : List Extent} {n : ℕ} : Mapping.EndsIn ⟨none, n, false⟩ exts t :=
  fun h => absurd rfl h

lemma Mapping.EndsIn.mono {m : Mapping} {exts exts' : List Extent} (h : m.EndsIn exts t)
    (hsub : exts ⊆ exts') : m.EndsIn exts' t := by
  intro hp
  obtain ⟨e, he, hrest⟩ := h hp
  exact ⟨e, hsub he, hrest⟩

lemma trailingHole_mapsTo {f : ℕ → Option (ℕ × Bool)} (hnone : ∀ t' ≥ t, f t' = none) (ht : t < hi) :
    MapsTo f t (trailingHole t hi) ∧ (trailingHole t hi).Upto t hi := by
  unfold trailingHole
  split
  · exact ⟨⟨by decide, fun k _ => by simpa using hnone (t + k) (by omega)⟩, fun _ => Or.inr ‹_›⟩
  · exact ⟨⟨by simp only; omega, fun k _ => by simpa using hnone (t + k) (by omega)⟩,
      fun _ => Or.inl (by simp only; omega)⟩

lemma hole_mapsTo {f : ℕ → Option (ℕ × Bool)} {n : ℕ} (hn : t < n)
    (hnone : ∀ t', t ≤ t' → t' < n → f t' = none) (ht : t < hi) :
    MapsTo f t ⟨none, min n hi - t, false⟩ ∧ Mapping.Upto ⟨none, min n hi - t, false⟩ t hi :=
  ⟨⟨by simp only; omega, fun k hk => by
    simpa using hnone (t + k) (by omega) (by simp only at hk; omega)⟩,
    fun _ => Or.inl (by simp only; omega)⟩

lemma leafMap_succ {limit i n : ℕ} {e : Extent} (hsize : offset + 12 + (i + 1) * 12 ≤ size)
    (he : extentAt data (offset + 12 + i * 12) = e) : leafMap size data offset t limit i (n + 1) =
      if t < e.start then pure ⟨none, min e.start limit - t, false⟩
      else if t < e.start + e.count then
        pure ⟨some (e.base + (t - e.start)), e.start + e.count - t, e.tag⟩
      else leafMap size data offset t limit (i + 1) n := by
  subst he
  rw [leafMap]
  simp only [getInt_eq (show offset + 12 + i * 12 + 4 ≤ size by omega),
    getShort_eq (show offset + 12 + i * 12 + 4 + 2 ≤ size by omega),
    getShort_eq (show offset + 12 + i * 12 + 6 + 2 ≤ size by omega),
    getInt_eq (show offset + 12 + i * 12 + 8 + 4 ≤ size by omega), pure_bind]
  rfl

lemma leafMap_run (ht : t < hi) : ∀ (n i lo : ℕ) (es : List Extent),
    entriesAt extentAt data (offset + 12 + i * 12) n = es → Ordered lo hi es →
    offset + 12 + (i + n) * 12 ≤ size →
    ∃ m, leafMap size data offset t hi i n s = .ok m s ∧ (MapsTo (look es) t m ∧ m.Upto t hi) ∧
      m.EndsIn es t := by
  intro n
  induction n with
  | zero =>
    rintro i lo es rfl _ _
    exact ⟨_, rfl, trailingHole_mapsTo (fun _ _ => rfl) ht, .of_hole⟩
  | succ n ih =>
    rintro i lo es rfl ho hsize
    rw [entriesAt_succ] at ho ⊢
    obtain ⟨e, he⟩ : ∃ e, extentAt data (offset + 12 + i * 12) = e := ⟨_, rfl⟩
    obtain ⟨es, hes⟩ : ∃ es, entriesAt extentAt data (offset + 12 + i * 12 + 12) n = es := ⟨_, rfl⟩
    rw [he, hes] at ho ⊢
    rw [leafMap_succ (by omega) he]
    by_cases hbelow : t < e.start
    · rw [if_pos hbelow]
      have hnone : ∀ t', t ≤ t' → t' < e.start → look (e :: es) t' = none := fun t' _ ht' =>
        look_below (show Ordered e.start hi (e :: es) from ⟨le_rfl, ho.2⟩) ht'
      exact ⟨_, rfl, hole_mapsTo hbelow hnone ht, .of_hole⟩
    · rw [if_neg hbelow]
      by_cases hin : t < e.start + e.count
      · rw [if_pos hin]
        refine ⟨_, rfl, ⟨⟨by simp only; omega, fun k hk => ?_⟩, nofun⟩,
          fun _ => ⟨e, List.mem_cons_self, ?_, ?_⟩⟩
        case refine_2 => exact ⟨by omega, hin⟩
        case refine_3 => simp only; omega
        simp only at hk
        have hcov : e.Covers (t + k) := ⟨by omega, by omega⟩
        simp only [look, if_pos hcov, Option.map_some, Option.some.injEq, Prod.mk.injEq, and_true]
        omega
      · rw [if_neg hin]
        obtain ⟨m, hrun, ⟨hm, hup⟩, hends⟩ :=
          ih (i + 1) _ es (by rw [← hes]; congr 1; omega) ho.2.2 (by omega)
        refine ⟨m, hrun, ⟨⟨hm.pos, fun k hk => ?_⟩, hup⟩, hends.mono (List.subset_cons_self _ _)⟩
        rw [← hm.eq k hk, look, if_neg (fun hcov => by unfold Covers at hcov; omega)]

lemma findChild_run : ∀ (pre post : List (ℕ × ℕ)) (i : ℕ) (acc : Option ℕ),
    entriesAt indexAt data (offset + 12 + i * 12) (pre.length + post.length) = pre ++ post →
    (∀ x ∈ pre, x.1 ≤ t) → (∀ x ∈ post.head?, t < x.1) →
    offset + 12 + (i + (pre.length + post.length)) * 12 ≤ size →
    findChild size data offset t i (pre.length + post.length) acc s =
      .ok (if pre = [] then acc else some (i + pre.length - 1), post.head?.map Prod.fst) s := by
  intro pre
  induction pre with
  | nil =>
    intro post i acc he _ hpost hsize
    cases post with
    | nil => rfl
    | cons x post =>
      simp only [List.length_nil, Nat.zero_add, List.length_cons, List.nil_append] at he hsize ⊢
      rw [entriesAt_succ] at he
      obtain ⟨hx, -⟩ := List.cons.inj he
      have hkey : data.le32 (offset + 12 + i * 12) = x.1 := by rw [← hx]; rfl
      rw [findChild, getInt_eq (by omega), pure_bind, hkey, if_pos (hpost x (by simp))]
      rfl
  | cons x pre ih =>
    intro post i acc he hpre hpost hsize
    have hlen : (x :: pre).length + post.length = pre.length + post.length + 1 := by
      rw [List.length_cons]
      omega
    rw [hlen] at he hsize ⊢
    rw [entriesAt_succ, List.cons_append] at he
    obtain ⟨hx, he⟩ := List.cons.inj he
    have hkey : data.le32 (offset + 12 + i * 12) = x.1 := by rw [← hx]; rfl
    have hle := hpre x (List.mem_cons_self ..)
    rw [findChild, getInt_eq (by omega), pure_bind, hkey, if_neg (by omega),
      ih post (i + 1) (some i) (by rw [← he]; congr 1; omega)
        (fun y hy => hpre y (List.mem_cons_of_mem _ hy)) hpost (by omega)]
    congr 2
    cases pre with
    | nil => simp
    | cons y pre => simp only [reduceCtorEq, if_false, List.length_cons, Option.some.injEq]; omega

/-- **The write path's walk** finds what the tree maps the block to. -/
lemma extentMap_run (hdev : fs.totalBlocks * fs.blockSize ≤ fs.deviceSize) (inodeNum : ℕ) :
    ∀ {d frames data size offset lo hi exts tree}, Subtree fs s.dev d data size offset lo hi exts tree →
      d < frames → t < hi → hi ≤ LONG_MAX →
      ∃ m, extentMap fs inodeNum frames size data offset t hi s = .ok m s ∧ (MapsTo (look exts) t m ∧
        m.Upto t hi) ∧ m.EndsIn exts t := by
  intro d
  induction d with
  | zero =>
    rintro frames data size offset lo hi exts tree ⟨hh, he, ho, -⟩ hf ht hmax
    obtain ⟨frames, rfl⟩ : ∃ f, frames = f + 1 := ⟨frames - 1, by omega⟩
    have hroom := hh.room
    have hfits := hh.fits
    rw [extentMap, getShort_eq (by omega), pure_bind, hh.magic, throwIf_bind_run (by simp),
      getShort_eq (by omega), pure_bind, getShort_eq (by omega), pure_bind, hh.depth, if_pos rfl,
      hh.entries]
    exact leafMap_run ht _ 0 _ _ he ho (by omega)
  | succ d ih =>
    rintro frames data size offset lo hi exts tree ⟨cs, hh, he, hlo, hfan, rfl, -⟩ hf ht hmax
    obtain ⟨frames, rfl⟩ : ∃ f, frames = f + 1 := ⟨frames - 1, by omega⟩
    have hroom := hh.room
    have hfits := hh.fits
    obtain ⟨pre, post, rfl, hpre, hpost⟩ := exists_split t cs
    have hordered : ∀ c ∈ pre ++ post, ∀ up, (c.block < fs.totalBlocks ∧ Subtree fs s.dev d
        (s.dev.window (c.block * fs.blockSize) fs.blockSize) fs.blockSize 0 c.key up c.exts c.tree) →
        Ordered c.key up c.exts := fun c _ up hc => hc.2.ordered
    rw [List.length_append] at hroom he
    have hfind := @findChild_run s data size offset t
      (pre.map fun c => (c.key, c.block)) (post.map fun c => (c.key, c.block)) 0 none
      (by simpa using he) (by simpa using hpre) (by simpa using hpost) (by simp; omega)
    simp only [List.length_map] at hfind
    rw [extentMap, getShort_eq (by omega), pure_bind, hh.magic, throwIf_bind_run (by simp),
      getShort_eq (by omega), pure_bind, getShort_eq (by omega), pure_bind, hh.depth,
      if_neg (by omega), hh.entries,
      List.length_append, bind_run hfind]
    rcases List.eq_nil_or_concat' pre with rfl | ⟨ini, c, rfl⟩
    · -- the block lies before every child
      cases post with
      | nil => exact ⟨_, rfl, trailingHole_mapsTo (fun _ _ => rfl) ht, .of_hole⟩
      | cons c post =>
        have hkey : t < c.key := hpost c (by simp)
        exact ⟨_, rfl, hole_mapsTo hkey (fun t' _ ht' => hfan.look_before hordered ht') ht, .of_hole⟩
    · rw [List.append_assoc, List.singleton_append] at hfan he hordered
      rw [List.length_append, List.length_singleton] at he hroom
      obtain ⟨-, -, ⟨hblock, hsub⟩, hback⟩ := Fan.append.1 hfan
      have hnext := hback.next_le
      have hle : c.key ≤ t := hpre c (by simp)
      have hlt : t < nextKey hi post := by
        cases post with
        | nil => exact ht
        | cons c' post => exact hpost c' (by simp)
      rw [List.map_append, List.map_cons] at he
      have hkeys : ∀ c' ∈ post, c'.key < LONG_MAX := fun c' hc' => by
        have hmem : (c'.key, c'.block) ∈
            entriesAt indexAt data (offset + 12) (ini.length + 1 + post.length) := by
          rw [he]
          simp only [List.mem_append, List.mem_cons, List.mem_map]
          exact Or.inr (Or.inr ⟨c', hc', rfl⟩)
        obtain ⟨i, -, hi⟩ := List.mem_map.1 hmem
        have hkey : data.le32 (offset + 12 + i * 12) = c'.key := congrArg Prod.fst hi
        have := le32_lt data (offset + 12 + i * 12)
        unfold LONG_MAX
        omega
      obtain ⟨hentry, -⟩ := entriesAt_split he
      rw [List.length_map] at hentry
      have hptr : data.le16 (offset + 12 + ini.length * 12 + 8) * 2 ^ 32 +
          data.le32 (offset + 12 + ini.length * 12 + 4) = c.block := congrArg Prod.snd hentry
      -- the limit below the child is the next key
      have hlimit : childLimit size data (offset + 12 + ini.length * 12) ini.length
          (ini.length + 1 + post.length) hi = pure (nextKey hi post) := by
        cases post with
        | nil => simp [childLimit, nextKey]
        | cons c' post =>
          rw [List.length_cons] at hroom
          rw [childLimit, if_pos (by simp), getInt_eq (by omega), pure_bind]
          rw [List.map_cons, List.append_cons] at he
          obtain ⟨hentry', -⟩ := entriesAt_split he
          have hkey : data.le32 (offset + 12 + ini.length * 12 + 12) = c'.key := by
            have hplace : offset + 12 + ini.length * 12 + 12 = offset + 12 +
                (List.map (fun c : Child => (c.key, c.block)) ini ++ [(c.key, c.block)]).length *
                    12 := by
              rw [List.length_append, List.length_map, List.length_singleton]
              omega
            rw [hplace]
            exact congrArg Prod.fst hentry'
          rw [hkey]
          simp only [nextKey] at hnext ⊢
          rw [Nat.min_eq_left hnext]
      obtain ⟨m, hrun, ⟨hm, hup⟩, hends⟩ := ih hsub (show d < frames by omega) hlt (hnext.trans hmax)
      refine ⟨m, ?_, ⟨⟨hm.pos, fun k hk => ?_⟩, fun hnone => ?_⟩, hends.mono (exts_subset c (by simp))⟩
      · simp only [List.length_append, List.length_singleton, List.map_append, List.map_cons,
          List.map_nil, List.append_eq_nil_iff, reduceCtorEq, and_false, if_false, Nat.zero_add,
          Nat.add_sub_cancel]
        rw [hlimit, pure_bind, getInt_eq (by omega), pure_bind, getShort_eq (by omega), pure_bind, hptr,
          bind_run (readBlock_run (block_inside hdev hblock))]
        exact hrun
      · have hin : t + k < nextKey hi post ∨ post = [] := by
          cases hp : m.phys with
          | some p =>
            have heq := hm.eq k hk
            rw [hp] at heq
            obtain ⟨e, he, hcov, -⟩ := look_mem heq
            have := hsub.ordered.mem he
            unfold Covers at hcov
            omega
          | none =>
            rcases hup hp with h | h
            · omega
            · cases post with
              | nil => exact Or.inr rfl
              | cons c' post => exact absurd h (hkeys c' (by simp)).ne
        rw [List.append_assoc, List.singleton_append, ← hm.eq k hk]
        rcases hin with hin | rfl
        · exact hfan.look_child hordered (by omega) hin
        · rw [List.flatMap_append, List.flatMap_cons, List.flatMap_nil, List.append_nil]
          exact look_append_right ((Fan.append.1 hfan).1.ordered (fun c hc => hordered c (by simp [hc]))
            (Nat.zero_le _)) (show c.key ≤ t + k by omega)
      · rcases hup hnone with h | h
        · exact Or.inl (h.trans hnext)
        · exact Or.inr (le_antisymm hmax (h ▸ hnext))

end Map

/-! ### The reader's walk -/

/-- The block `k` blocks behind `base` as the reader's walk computes it: the carry out of the lower
32 bits is merged into the upper ones, not added to them. -/
def merged (base k : ℕ) : ℕ := (base / 2 ^ 32 * 2 ^ 32) ||| (base % 2 ^ 32 + k)

/-- What a reader is told about a block of an extent: nothing about one that is not initialised,
unless it asked for these too. -/
def Extent.told (e : Extent) (mappedOnly : Bool) (t : ℕ) : Option ℕ :=
  if e.tag ∧ !mappedOnly then none else some (merged e.base (t - e.start))

/-- What the reader's walk says about a block: what the extent says that covers it, if one does. -/
def Found (exts : List Extent) (mappedOnly : Bool) (t : ℕ) (r : Option ℕ) : Prop :=
  (∀ e ∈ exts, e.Covers t → r = e.told mappedOnly t) ∧ ((∀ e ∈ exts, ¬e.Covers t) → r = none)

section Search

variable {fs : Ext4FileSystem} {s : St} {data : Bytes} {size offset t lo hi : ℕ} {mappedOnly : Bool}

lemma extentAt_base (data : Bytes) (o : ℕ) : (extentAt data o).base / 2 ^ 32 = data.le16 (o + 6) ∧
    (extentAt data o).base % 2 ^ 32 = data.le32 (o + 8) := by
  have := le32_lt data (o + 8)
  simp only [extentAt]
  omega

lemma leafSearch_succ {i n : ℕ} {e : Extent} (hsize : offset + 12 + (i + 1) * 12 ≤ size)
    (he : extentAt data (offset + 12 + i * 12) = e) :
      leafSearch size data offset t mappedOnly i (n + 1) =
      if e.Covers t then pure (e.told mappedOnly t)
      else leafSearch size data offset t mappedOnly (i + 1) n := by
  have htag : MAX_INIT_EXTENT_LEN < data.le16 (offset + 12 + i * 12 + 4) ↔ e.tag = true := by
    rw [← he]; simp [extentAt]
  have hcov : (data.le32 (offset + 12 + i * 12) ≤ t ∧ t < data.le32 (offset + 12 + i * 12) +
      if MAX_INIT_EXTENT_LEN < data.le16 (offset + 12 + i * 12 + 4) then
        data.le16 (offset + 12 + i * 12 + 4) - MAX_INIT_EXTENT_LEN
      else data.le16 (offset + 12 + i * 12 + 4)) ↔ e.Covers t := by rw [← he]; rfl
  have hstart : data.le32 (offset + 12 + i * 12) = e.start := by rw [← he]; rfl
  obtain ⟨hhigh, hlow⟩ := extentAt_base data (offset + 12 + i * 12)
  rw [he] at hhigh hlow
  rw [leafSearch]
  simp only [getInt_eq (show offset + 12 + i * 12 + 4 ≤ size by omega),
    getShort_eq (show offset + 12 + i * 12 + 4 + 2 ≤ size by omega),
    getShort_eq (show offset + 12 + i * 12 + 6 + 2 ≤ size by omega),
    getInt_eq (show offset + 12 + i * 12 + 8 + 4 ≤ size by omega), pure_bind, hcov]
  simp only [htag, hstart, Extent.told, merged, hhigh, hlow]
  split
  · split <;> rfl
  · rfl

lemma leafSearch_run : ∀ (n i lo : ℕ) (es : List Extent),
    entriesAt extentAt data (offset + 12 + i * 12) n = es → Ordered lo hi es →
    offset + 12 + (i + n) * 12 ≤ size →
    ∃ r, leafSearch size data offset t mappedOnly i n s = .ok r s ∧ Found es mappedOnly t r := by
  intro n
  induction n with
  | zero =>
    rintro i lo es rfl _ _
    exact ⟨none, rfl, nofun, fun _ => rfl⟩
  | succ n ih =>
    rintro i lo es rfl ho hsize
    rw [entriesAt_succ] at ho ⊢
    obtain ⟨e, he⟩ : ∃ e, extentAt data (offset + 12 + i * 12) = e := ⟨_, rfl⟩
    obtain ⟨es, hes⟩ : ∃ es, entriesAt extentAt data (offset + 12 + i * 12 + 12) n = es := ⟨_, rfl⟩
    rw [he, hes] at ho ⊢
    rw [leafSearch_succ (by omega) he]
    by_cases hcov : e.Covers t
    · rw [if_pos hcov]
      refine ⟨_, rfl, fun e' he' hc' => ?_, fun hnone => absurd hcov (hnone e List.mem_cons_self)⟩
      rw [ho.covers_unique List.mem_cons_self he' hcov hc']
    · rw [if_neg hcov]
      obtain ⟨r, hrun, hfound, hnone⟩ :=
        ih (i + 1) _ es (by rw [← hes]; congr 1; omega) ho.2.2 (by omega)
      refine ⟨r, hrun, fun e' he' hc' => ?_,
        fun hall => hnone fun e' he' => hall e' (List.mem_cons_of_mem _ he')⟩
      rcases List.mem_cons.1 he' with rfl | he'
      · exact absurd hc' hcov
      · exact hfound e' he' hc'

lemma childSearch_run : ∀ (pre post : List (ℕ × ℕ)) (i : ℕ) (acc : Option ℕ),
    entriesAt indexAt data (offset + 12 + i * 12) (pre.length + post.length) = pre ++ post →
    (∀ x ∈ pre, x.1 ≤ t) → (∀ x ∈ post.head?, t < x.1) →
    offset + 12 + (i + (pre.length + post.length)) * 12 ≤ size →
    childSearch size data offset t i (pre.length + post.length) acc s =
      .ok ((pre.getLast?.map Prod.snd).or acc) s := by
  intro pre
  induction pre with
  | nil =>
    intro post i acc he _ hpost hsize
    cases post with
    | nil => rfl
    | cons x post =>
      simp only [List.length_nil, Nat.zero_add, List.length_cons, List.nil_append] at he hsize ⊢
      rw [entriesAt_succ] at he
      obtain ⟨hx, -⟩ := List.cons.inj he
      have hkey : data.le32 (offset + 12 + i * 12) = x.1 := by rw [← hx]; rfl
      rw [childSearch, getInt_eq (by omega), pure_bind, hkey, if_pos (hpost x (by simp))]
      rfl
  | cons x pre ih =>
    intro post i acc he hpre hpost hsize
    have hlen : (x :: pre).length + post.length = pre.length + post.length + 1 := by
      rw [List.length_cons]
      omega
    rw [hlen] at he hsize ⊢
    rw [entriesAt_succ, List.cons_append] at he
    obtain ⟨hx, he⟩ := List.cons.inj he
    have hkey : data.le32 (offset + 12 + i * 12) = x.1 := by rw [← hx]; rfl
    have hptr : data.le16 (offset + 12 + i * 12 + 8) * 2 ^ 32 +
        data.le32 (offset + 12 + i * 12 + 4) = x.2 := by
      rw [← hx]; rfl
    have hle := hpre x (List.mem_cons_self ..)
    rw [childSearch, getInt_eq (by omega), pure_bind, hkey, if_neg (by omega), getInt_eq (by omega),
      pure_bind, getShort_eq (by omega), pure_bind, hptr,
      ih post (i + 1) (some x.2) (by rw [← he]; congr 1; omega)
        (fun y hy => hpre y (List.mem_cons_of_mem _ hy)) hpost (by omega)]
    cases pre with
    | nil => simp
    | cons y pre => simp [List.getLast?_cons]

/-- **The reader's walk** finds the extent that covers the block. -/
lemma extentSearch_run (mappedOnly : Bool) (hdev : fs.totalBlocks * fs.blockSize ≤ fs.deviceSize)
    (inodeNum : ℕ) :
    ∀ {d frames data size offset lo hi exts tree}, Subtree fs s.dev d data size offset lo hi exts tree →
      d < frames → t < hi →
      ∃ r, extentSearch fs inodeNum frames size data offset t mappedOnly s = .ok r s ∧
      Found exts mappedOnly t r := by
  intro d
  induction d with
  | zero =>
    rintro frames data size offset lo hi exts tree ⟨hh, he, ho, -⟩ hf -
    obtain ⟨frames, rfl⟩ : ∃ f, frames = f + 1 := ⟨frames - 1, by omega⟩
    have hroom := hh.room
    have hfits := hh.fits
    rw [extentSearch, getShort_eq (by omega), pure_bind, hh.magic, throwIf_bind_run (by simp),
      getShort_eq (by omega), pure_bind, getShort_eq (by omega), pure_bind, hh.depth, if_pos rfl,
      hh.entries]
    exact leafSearch_run _ 0 _ _ he ho (by omega)
  | succ d ih =>
    rintro frames data size offset lo hi exts tree ⟨cs, hh, he, hlo, hfan, rfl, -⟩ hf ht
    obtain ⟨frames, rfl⟩ : ∃ f, frames = f + 1 := ⟨frames - 1, by omega⟩
    have hroom := hh.room
    have hfits := hh.fits
    obtain ⟨pre, post, rfl, hpre, hpost⟩ := exists_split t cs
    have hordered : ∀ c ∈ pre ++ post, ∀ up, (c.block < fs.totalBlocks ∧ Subtree fs s.dev d
        (s.dev.window (c.block * fs.blockSize) fs.blockSize) fs.blockSize 0 c.key up c.exts c.tree) →
        Ordered c.key up c.exts := fun c _ up hc => hc.2.ordered
    rw [List.length_append] at hroom he
    have hfind := @childSearch_run s data size offset t
      (pre.map fun c => (c.key, c.block)) (post.map fun c => (c.key, c.block)) 0 none
      (by simpa using he) (by simpa using hpre) (by simpa using hpost) (by simp; omega)
    simp only [List.length_map] at hfind
    rw [extentSearch, getShort_eq (by omega), pure_bind, hh.magic, throwIf_bind_run (by simp),
      getShort_eq (by omega), pure_bind, getShort_eq (by omega), pure_bind, hh.depth,
      if_neg (by omega), hh.entries,
      List.length_append, bind_run hfind]
    rcases List.eq_nil_or_concat' pre with rfl | ⟨ini, c, rfl⟩
    · have hnone : look (([] ++ post).flatMap Child.exts) t = none := by
        refine hfan.look_before hordered ?_
        cases post with
        | nil => exact ht
        | cons c post => exact hpost c (by simp)
      exact ⟨none, rfl, fun e he hc => absurd hc (look_eq_none.1 hnone e he), fun _ => rfl⟩
    · rw [List.append_assoc, List.singleton_append] at hfan hordered ⊢
      obtain ⟨-, -, ⟨hblock, hsub⟩, -⟩ := Fan.append.1 hfan
      have hlt : t < nextKey hi post := by
        cases post with
        | nil => exact ht
        | cons c' post => exact hpost c' (by simp)
      obtain ⟨r, hrun, hfound, hnone⟩ := ih hsub (show d < frames by omega) hlt
      have hlook := hfan.look_child hordered (hpre c (by simp)) hlt
      refine ⟨r, ?_, fun e he hc => ?_,
        fun hall => hnone fun e he => hall e (exts_subset c (by simp) he)⟩
      · simp only [List.map_append, List.map_cons, List.map_nil, List.getLast?_append,
          List.getLast?_singleton, Option.some_or, Option.map_some]
        rw [bind_run (readBlock_run (block_inside hdev hblock))]
        exact hrun
      · -- an extent that covers the block lies below this child
        have hsome : look c.exts t ≠ none := fun h => look_eq_none.1 (hlook.trans h) e he hc
        obtain ⟨⟨b, g⟩, hbg⟩ := Option.ne_none_iff_exists'.1 hsome
        obtain ⟨e', he', hc', -⟩ := look_mem hbg
        have hall := hfan.ordered hordered (Nat.zero_le _)
        rw [hall.covers_unique he (exts_subset c (by simp) he') hc hc']
        exact hfound e' he' hc'

end Search

end OtgMaster.Ext4
