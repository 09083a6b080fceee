import OtgMaster.Restic.Repository
import Mathlib.Data.List.Forall2

/-!
`ResticFileSystem`: a file of a snapshot read from any offset. The index gives the size of each
blob, so the blob that holds an offset is found by a binary search over the starts of the blobs, and
a read goes from blob to blob until the buffer is full. The last four blobs are kept.

A blob may be empty, and then several blobs have one start. The search ends at a blob that starts at
or before the offset and whose successor starts behind it (`search_spec`), whether the starts are
ordered or not, so each turn of a read finds at least one byte (`turn_run`).
-/

namespace OtgMaster.Restic

open Lib Block Platform

/-- What a read changes: the blobs that are kept, the last one used first, and what it has put into
its destination. -/
structure Reading where
  cache : List (Id × Data)
  put : Data

abbrev R := EStateM Thrown Reading

def search (starts : List ℤ) (pos : ℤ) (lo hi : ℕ) : ℕ :=
  if lo < hi then
    let mid := (lo + hi + 1) / 2
    if starts.getD mid 0 ≤ pos then search starts pos mid hi else search starts pos lo (mid - 1)
  else lo
termination_by hi - lo

lemma search_spec (starts : List ℤ) (pos : ℤ) {lo hi : ℕ} (h : lo ≤ hi) :
    search starts pos lo hi ≤ hi ∧
      (search starts pos lo hi = lo ∨ starts.getD (search starts pos lo hi) 0 ≤ pos) ∧
      (search starts pos lo hi = hi ∨ pos < starts.getD (search starts pos lo hi + 1) 0) := by
  fun_induction search starts pos lo hi with
  | case1 lo hi hlt mid hle ih =>
    obtain ⟨h1, h2, h3⟩ := ih (by omega)
    refine ⟨h1, .inr ?_, h3⟩
    rcases h2 with h2 | h2
    · rw [h2]
      exact hle
    · exact h2
  | case2 lo hi hlt mid hgt ih =>
    obtain ⟨h1, h2, h3⟩ := ih (by omega)
    refine ⟨by omega, h2, .inr ?_⟩
    rcases h3 with h3 | h3
    · rw [h3, Nat.sub_add_cancel (by omega)]
      exact not_le.1 hgt
    · exact h3
  | case3 lo hi hge => exact ⟨h, .inl rfl, .inl (by omega)⟩

section FileSystem

variable (lib : Library) (disk : Disk)

/-- `blobSize`: the size of a blob, from the index alone. -/
def blobSize (id : Id) : E ℤ := do
  let index ← loadIndex lib disk
  let ref ← orThrow (index.reverse.lookup id) ⟨.damaged, s!"blob {String.ofList id} is not in the index"⟩
  return ref.uncompressedLength.getD (i32 (ref.length - 32))

/-- `blob` of the file system: a kept one, or one of the repository, which is then kept. -/
def cachedBlob (id : Id) : R Data := do
  let s ← get
  match s.cache.lookup id with
  | some data =>
    set { s with cache := (id, data) :: s.cache.filter (·.1 ≠ id) }
    return data
  | none =>
    let data ← blob lib disk id
    modify fun s => { s with cache := ((id, data) :: s.cache).take 4 }
    return data

/-- `starts`: where each blob starts, and last where the file ends. -/
def startsOf (ids : List Id) : E (List ℤ) := do
  let sizes ← ids.mapM (blobSize lib disk)
  return sizes.scanl (· + ·) 0

/-- A turn of the loop of `read`: how many bytes it has put. -/
def turn (name : E (List Char)) (ids : List Id) (starts : List ℤ) (pos : ℤ) (room : ℕ) : R ℕ := do
  if starts.getD ids.length 0 ≤ pos then
    let name ← name
    throw ⟨.io, s!"read past the end of {String.ofList name}"⟩
  let lo := search starts pos 0 (ids.length - 1)
  let id ← orThrow ids[lo]? ⟨.indexOutOfBounds, s!"Index {lo} out of bounds for length {ids.length}"⟩
  let data ← cachedBlob lib disk id
  let inBlob := i32 (pos - starts.getD lo 0)
  let n := min (room : ℤ) (data.length - inBlob)
  throwIf (inBlob < 0 ∨ n < 0)
    ⟨.indexOutOfBounds, s!"Range [{inBlob}, {inBlob} + {n}) out of bounds for length {data.length}"⟩
  modify fun s => { s with put := s.put ++ (data.drop inBlob.toNat).take n.toNat }
  return n.toNat

/-- The loop of `read`, for as many turns: whether it has ended. -/
def readLoop (name : E (List Char)) (ids : List Id) (starts : List ℤ) :
    (turns : ℕ) → (pos : ℤ) → (room : ℕ) → R Bool
  | 0, _, room => pure (decide (room = 0))
  | turns + 1, pos, room =>
    if room = 0 then pure true
    else do
      let n ← turn lib disk name ids starts pos room
      readLoop name ids starts turns (pos + n) (room - n)

def readNode (turns : ℕ) (node : Fields) (offset : ℤ) (room : ℕ) : R Bool := do
  let type ← Node.type lib.texts node
  if type ≠ "file".toList then
    let name ← Node.name lib.texts node
    throw ⟨.io, s!"{String.ofList name} is a {String.ofList type}, not a file"⟩
  let ids ← Node.content lib.texts node
  if room = 0 then return true
  let starts ← startsOf lib disk ids
  readLoop lib disk (Node.name lib.texts node) ids starts turns offset room

/-! ### the blobs and their starts -/

/-- The blobs of a file, of the sizes that the index says. -/
def Blobs : List Id → List Data → Prop :=
  List.Forall₂ fun id data => blob lib disk id = .ok data ∧ blobSize lib disk id = .ok data.length

def Kept (cache : List (Id × Data)) : Prop := ∀ p ∈ cache, blob lib disk p.1 = .ok p.2

variable {lib disk}

lemma i32_lt (x : ℤ) : i32 x < 2 ^ 31 := by
  obtain ⟨_, -, -, h⟩ := i32_eq x
  exact h

variable {n : ℤ} {i pos : ℕ} {s : Reading} {room : ℕ}

lemma getInt_lt {texts : Texts} {o : Fields} {name : String} (h : getInt texts o name = .ok n) :
    n < 2 ^ 31 := by
  unfold getInt at h
  split at h
  · cases h
    exact i32_lt _
  · rename_i v _ _
    cases hv : texts.coerceInt v with
    | none =>
      rw [hv] at h
      cases h
    | some m =>
      rw [hv] at h
      cases h
      exact i32_lt _
  · cases h

lemma readEntry_lt {packId : Id} {item : Json} {e : Id × BlobRef} (h : readEntry lib packId item = .ok e)
    (hn : e.2.uncompressedLength = some n) : n < 2 ^ 31 := by
  unfold readEntry at h
  obtain ⟨b, -, h⟩ := except_bind_ok h
  obtain ⟨id, -, h⟩ := except_bind_ok h
  obtain ⟨type, -, h⟩ := except_bind_ok h
  obtain ⟨offset, -, h⟩ := except_bind_ok h
  obtain ⟨length, -, h⟩ := except_bind_ok h
  cases hsize : b.lookup "uncompressed_length" with
  | none =>
    rw [hsize] at h
    cases h
    cases hn
  | some v =>
    rw [hsize] at h
    obtain ⟨size, hsize, h⟩ := except_bind_ok h
    cases h
    cases hn
    cases hi : getInt lib.texts b "uncompressed_length" with
    | error _ =>
      rw [hi] at hsize
      cases hsize
    | ok m =>
      rw [hi] at hsize
      cases hsize
      exact getInt_lt hi

lemma blobSize_lt {id : Id} (h : blobSize lib disk id = .ok n) : n < 2 ^ 31 := by
  unfold blobSize at h
  obtain ⟨index, hindex, h⟩ := except_bind_ok h
  obtain ⟨ref, href, h⟩ := except_bind_ok h
  cases h
  cases hu : ref.uncompressedLength with
  | none => exact i32_lt _
  | some n =>
    -- the entry is one of an index file
    have hmem : (id, ref) ∈ index := by
      cases hl : index.reverse.lookup id with
      | none =>
        rw [hl] at href
        cases href
      | some r =>
        rw [hl] at href
        cases href
        obtain ⟨l₁, l₂, hsplit, -⟩ := List.lookup_eq_some_iff.1 hl
        exact List.mem_reverse.1 (hsplit ▸ by simp)
    unfold loadIndex at hindex
    obtain ⟨files, hfiles, hflat⟩ := except_bind_ok hindex
    cases hflat
    obtain ⟨entries, hentries, hmem⟩ := List.mem_flatten.1 hmem
    obtain ⟨file, -, hfile⟩ := except_mapM_mem hfiles entries hentries
    obtain ⟨bytes, -, hread⟩ := except_bind_ok hfile
    unfold readIndex at hread
    obtain ⟨json, -, hread⟩ := except_bind_ok hread
    split at hread
    · cases hread
      cases hmem
    · rename_i packs _
      cases hp : packs.mapM (readPack lib) with
      | error _ =>
        rw [hp] at hread
        cases hread
      | ok lists =>
        rw [hp] at hread
        cases hread
        obtain ⟨es, hes, hmem⟩ := List.mem_flatten.1 hmem
        obtain ⟨item, -, hpack⟩ := except_mapM_mem hp es hes
        unfold readPack at hpack
        obtain ⟨pack, -, hpack⟩ := except_bind_ok hpack
        obtain ⟨packId, -, hpack⟩ := except_bind_ok hpack
        obtain ⟨items, -, hpack⟩ := except_bind_ok hpack
        obtain ⟨entry, -, hentry⟩ := except_mapM_mem hpack _ hmem
        exact readEntry_lt hentry hu

def sums (blobs : List Data) : List ℤ := (blobs.map fun b => (b.length : ℤ)).scanl (· + ·) 0

lemma foldl_lengths (blobs : List Data) (n : ℤ) :
    (blobs.map fun b => (b.length : ℤ)).foldl (· + ·) n = n + (blobs.flatten.length : ℤ) := by
  induction blobs generalizing n with
  | nil => simp
  | cons b blobs ih =>
    rw [List.map_cons, List.foldl_cons, ih, List.flatten_cons, List.length_append]
    omega

lemma sums_getD (blobs : List Data) (hi : i ≤ blobs.length) :
    (sums blobs).getD i 0 = ((blobs.take i).flatten.length : ℤ) := by
  rw [List.getD_eq_getElem?_getD, sums, List.getElem?_scanl, if_pos (by simpa using hi),
    Option.getD_some, ← List.map_take, foldl_lengths, zero_add]

variable {ids : List Id} {blobs : List Data}

lemma Blobs.startsOf_run (h : Blobs lib disk ids blobs) : startsOf lib disk ids = .ok (sums blobs) := by
  have hsizes : ids.mapM (blobSize lib disk) = .ok (blobs.map fun b => (b.length : ℤ)) := by
    unfold Blobs at h
    induction h with
    | nil => rfl
    | cons hb _ ih =>
      rw [List.mapM_cons, except_bind_run hb.2, except_bind_run ih]
      rfl
  exact except_bind_run hsizes

lemma take_succ_length (hi : i < blobs.length) :
    (blobs.take (i + 1)).flatten.length = (blobs.take i).flatten.length + blobs[i].length := by
  rw [List.take_succ_eq_append_getElem hi, List.flatten_append, List.length_append,
    List.flatten_singleton]

lemma flatten_drop (hi : i < blobs.length) {k : ℕ} (hk : k ≤ blobs[i].length) :
    blobs.flatten.drop ((blobs.take i).flatten.length + k) = blobs[i].drop k ++
      (blobs.drop (i + 1)).flatten := by
  have hsplit : blobs.flatten = (blobs.take i).flatten ++
      (blobs[i] ++ (blobs.drop (i + 1)).flatten) := by
    rw [← List.flatten_cons, List.getElem_cons_drop, ← List.flatten_append, List.take_append_drop]
  rw [hsplit, List.drop_append, List.drop_of_length_le (Nat.le_add_right ..), List.nil_append,
    Nat.add_sub_cancel_left, List.drop_append_of_le_length hk]

/-- **The blob that is found.** It holds the place that is looked for. -/
lemma search_blob (hpos : pos < blobs.flatten.length) :
    ∃ (i : ℕ) (hi : i < blobs.length), search (sums blobs) pos 0 (blobs.length - 1) = i ∧
      ∃ k, pos = (blobs.take i).flatten.length + k ∧ k < blobs[i].length := by
  have hne : blobs.length ≠ 0 := by
    intro h0
    rw [List.length_eq_zero_iff.1 h0] at hpos
    simp at hpos
  obtain ⟨h1, h2, h3⟩ := search_spec (sums blobs) (pos : ℤ) (Nat.zero_le (blobs.length - 1))
  set i := search (sums blobs) pos 0 (blobs.length - 1)
  have hi : i < blobs.length := by omega
  have hlo : (blobs.take i).flatten.length ≤ pos := by
    rcases h2 with h2 | h2
    · simp [h2]
    · rw [sums_getD _ hi.le] at h2
      exact_mod_cast h2
  have hhi : pos < (blobs.take (i + 1)).flatten.length := by
    rcases h3 with h3 | h3
    · rw [h3, Nat.sub_add_cancel (by omega), List.take_length]
      exact hpos
    · rw [sums_getD _ hi] at h3
      exact_mod_cast h3
  rw [take_succ_length hi] at hhi
  exact ⟨i, hi, rfl, pos - (blobs.take i).flatten.length, by omega, by omega⟩

/-! ### a read -/

lemma cachedBlob_run (hs : Kept lib disk s.cache) {id : Id} {data : Data}
    (hb : blob lib disk id = .ok data) :
    ∃ cache, Kept lib disk cache ∧ cachedBlob lib disk id s = .ok data { s with cache := cache } := by
  unfold cachedBlob
  rw [get_bind_run]
  cases hl : s.cache.lookup id with
  | some d =>
    obtain ⟨l₁, l₂, hsplit, -⟩ := List.lookup_eq_some_iff.1 hl
    have hd := hs (id, d) (hsplit ▸ by simp)
    cases hb.symm.trans hd
    refine ⟨_, ?_, rfl⟩
    intro p hp
    rcases List.mem_cons.1 hp with rfl | hp
    · exact hb
    · exact hs p (List.mem_of_mem_filter hp)
  | none =>
    refine ⟨((id, data) :: s.cache).take 4, ?_, ?_⟩
    · intro p hp
      rcases List.mem_cons.1 (List.mem_of_mem_take hp) with rfl | hp
      · exact hb
      · exact hs p hp
    · dsimp only
      rw [lift_bind_run hb]
      rfl

/-- **A turn before the end.** It puts at least one byte, and the bytes that come next. -/
lemma turn_run (h : Blobs lib disk ids blobs) (hs : Kept lib disk s.cache) (name : E (List Char))
    (hpos : pos < blobs.flatten.length) (hroom : room ≠ 0) :
    ∃ n cache, 0 < n ∧ n ≤ room ∧ pos + n ≤ blobs.flatten.length ∧ Kept lib disk cache ∧
      turn lib disk name ids (sums blobs) pos room s =
        .ok n ⟨cache, s.put ++ (blobs.flatten.drop pos).take n⟩ := by
  have hlen := h.length_eq
  obtain ⟨i, hi, hsearch, k, rfl, hk⟩ := search_blob hpos
  have hi' : i < ids.length := hlen ▸ hi
  obtain ⟨hb, hsize⟩ : blob lib disk ids[i] = .ok blobs[i] ∧
      blobSize lib disk ids[i] = .ok blobs[i].length :=
    h.get hi' hi
  obtain ⟨cache, hcache, hrun⟩ := cachedBlob_run hs hb
  have hsmall : (blobs[i].length : ℤ) < 2 ^ 31 := blobSize_lt hsize
  have hdrop := flatten_drop hi hk.le
  have htotal : (blobs.take i).flatten.length + blobs[i].length ≤ blobs.flatten.length := by
    rw [← take_succ_length hi]
    have := congrArg (fun l => l.flatten.length) (List.take_append_drop (i + 1) blobs)
    simp only [List.flatten_append, List.length_append] at this
    omega
  refine ⟨min room (blobs[i].length - k), cache, by omega, by omega, by omega, hcache, ?_⟩
  unfold turn
  have hend : ¬(sums blobs).getD ids.length 0 ≤ (((blobs.take i).flatten.length + k : ℕ) : ℤ) := by
    rw [hlen, sums_getD _ le_rfl, List.take_length]
    omega
  have hin : i32 ((((blobs.take i).flatten.length + k : ℕ) : ℤ) - (sums blobs).getD i 0) = k := by
    rw [sums_getD _ hi.le]
    push_cast
    rw [add_sub_cancel_left]
    exact i32_natCast (by omega)
  have hid : orThrow ids[i]?
      ⟨.indexOutOfBounds, s!"Index {i} out of bounds for length {ids.length}"⟩ = .ok ids[i] := by
    rw [List.getElem?_eq_getElem hi']
    rfl
  rw [← hlen] at hsearch
  rw [if_neg hend, hsearch]
  dsimp only
  rw [lift_bind_run hid, bind_run hrun, hin]
  -- the bytes are those of the blob from `k` on
  have hn : (min (room : ℤ) (blobs[i].length - k)).toNat = min room (blobs[i].length - k) := by omega
  have htake : (blobs[i].drop k).take (min room (blobs[i].length - k)) =
      (blobs.flatten.drop ((blobs.take i).flatten.length + k)).take
          (min room (blobs[i].length - k)) := by
    rw [hdrop, List.take_append_of_le_length (by rw [List.length_drop]; omega)]
  rw [throwIf_bind_run (by omega), hn, Int.toNat_natCast, htake]
  rfl

/-- **A read inside the file.** As many turns as there is room for bytes are enough. -/
lemma readLoop_inside (h : Blobs lib disk ids blobs) (name : E (List Char)) {turns : ℕ}
    (hturns : room ≤ turns) (hend : pos + room ≤ blobs.flatten.length) (hs : Kept lib disk s.cache) :
    ∃ cache, Kept lib disk cache ∧ readLoop lib disk name ids (sums blobs) turns pos room s =
      .ok true ⟨cache, s.put ++ (blobs.flatten.drop pos).take room⟩ := by
  induction turns generalizing pos room s with
  | zero =>
    cases Nat.le_zero.1 hturns
    exact ⟨s.cache, hs, by simp [readLoop, pure, EStateM.pure]⟩
  | succ turns ih =>
    rw [readLoop]
    by_cases hroom : room = 0
    · rw [if_pos hroom, hroom]
      exact ⟨s.cache, hs, by simp [pure, EStateM.pure]⟩
    · obtain ⟨n, cache, hn, hle, -, hcache, hrun⟩ := turn_run h hs name (show pos < _ by omega) hroom
      obtain ⟨cache', hcache', hrun'⟩ := ih (show room - n ≤ turns by omega)
        (show pos + n + (room - n) ≤ _ by omega)
          (s := ⟨cache, s.put ++ (blobs.flatten.drop pos).take n⟩) hcache
      refine ⟨cache', hcache', ?_⟩
      rw [if_neg hroom, bind_run hrun, ← Nat.cast_add, hrun', List.append_assoc, ← List.drop_drop,
        ← List.take_add, Nat.add_sub_cancel' hle]

/-- **A read past the end.** It puts what there is, and then throws. -/
lemma readLoop_past (h : Blobs lib disk ids blobs) (name : E (List Char)) {turns : ℕ}
    (hturns : room ≤ turns) (hpos : pos ≤ blobs.flatten.length)
    (hend : blobs.flatten.length < pos + room) (hs : Kept lib disk s.cache) :
    ∃ e cache, Kept lib disk cache ∧ readLoop lib disk name ids (sums blobs) turns pos room s =
      .error e ⟨cache, s.put ++ blobs.flatten.drop pos⟩ := by
  induction turns generalizing pos room s with
  | zero => omega
  | succ turns ih =>
    rw [readLoop, if_neg (by omega)]
    rcases Nat.lt_or_ge pos blobs.flatten.length with hlt | hge
    · obtain ⟨n, cache, hn, hle, hin, hcache, hrun⟩ := turn_run h hs name hlt (show room ≠ 0 by omega)
      obtain ⟨e, cache', hcache', hrun'⟩ := ih (show room - n ≤ turns by omega) hin
        (show _ < pos + n + (room - n) by omega)
          (s := ⟨cache, s.put ++ (blobs.flatten.drop pos).take n⟩) hcache
      refine ⟨e, cache', hcache', ?_⟩
      rw [bind_run hrun, ← Nat.cast_add, hrun', List.append_assoc, ← List.drop_drop,
        List.take_append_drop]
    · have hturn : ∃ e, turn lib disk name ids (sums blobs) pos room s = .error e s := by
        have hstop : (sums blobs).getD ids.length 0 ≤ (pos : ℤ) := by
          rw [h.length_eq, sums_getD _ le_rfl, List.take_length]
          exact_mod_cast hge
        unfold turn
        rw [if_pos hstop]
        cases name with
        | error e => exact ⟨e, rfl⟩
        | ok name => exact ⟨_, rfl⟩
      obtain ⟨e, he⟩ := hturn
      refine ⟨e, s.cache, hs, ?_⟩
      rw [bind_error he, List.drop_of_length_le hge, List.append_nil]

/-- **A file is read as its blobs one after the other.** A read that ends inside the file fills its
destination with that part of it; one that starts inside and ends behind it puts what there is and
then throws. Either way it has ended after as many turns as there is room for bytes, and keeps only
blobs of the repository. -/
theorem readNode_slice {node : Fields} (htype : Node.type lib.texts node = .ok "file".toList)
    (hids : Node.content lib.texts node = .ok ids) (h : Blobs lib disk ids blobs) {s : Reading}
    (hs : Kept lib disk s.cache) (offset room turns : ℕ) (hturns : room ≤ turns) :
    (offset + room ≤ blobs.flatten.length →
      ∃ cache, Kept lib disk cache ∧ readNode lib disk turns node offset room s =
        .ok true ⟨cache, s.put ++ (blobs.flatten.drop offset).take room⟩) ∧
    (offset < blobs.flatten.length → blobs.flatten.length < offset + room →
      ∃ e cache, Kept lib disk cache ∧ readNode lib disk turns node offset room s =
        .error e ⟨cache, s.put ++ blobs.flatten.drop offset⟩) := by
  have hread : readNode lib disk turns node offset room s =
      (if room = 0 then pure true else
        readLoop lib disk (Node.name lib.texts node) ids (sums blobs) turns offset room : R Bool) s := by
    unfold readNode
    rw [lift_bind_run htype, if_neg (by simp)]
    dsimp only
    rw [lift_bind_run hids]
    split
    · rfl
    · rw [lift_bind_run h.startsOf_run]
  constructor
  · intro hend
    rw [hread]
    by_cases hroom : room = 0
    · rw [if_pos hroom, hroom]
      exact ⟨s.cache, hs, by simp [pure, EStateM.pure]⟩
    · rw [if_neg hroom]
      exact readLoop_inside h _ hturns hend hs
  · intro hpos hend
    rw [hread, if_neg (by omega)]
    exact readLoop_past h _ hturns hpos.le hend hs

end FileSystem

/-- A repository with one pack of three blobs, the second one empty. -/
def threeBlobs : Disk
  | .index => [(['i'], openLibrary.encrypt [] (codec.utf8Encode (codec.renderJson [("packs", .arr
      [.obj [("id", .str ['0', '0']), ("blobs", .arr (
        [(hex [1, 2], 0, 34), (hex [], 34, 32), (hex [3], 66, 33)].map fun b =>
          .obj [("id", .str b.1), ("type", .str "data".toList), ("offset", .int b.2.1),
            ("length", .int b.2.2)]))]])])))]
  | .data => [(['0', '0'], openLibrary.encrypt [] [1, 2] ++ openLibrary.encrypt [] [] ++
      openLibrary.encrypt [] [3])]
  | _ => []

def threeBlobsNode : Fields :=
  [("name", .str ['f']), ("type", .str "file".toList),
    ("content", .arr [.str (hex [1, 2]), .str (hex []), .str (hex [3])])]

/-- Two bytes from offset 1, over the empty blob, and then three, one more than there are. -/
theorem readNode_slice_three :
    (∃ cache, Kept openLibrary threeBlobs cache ∧
      readNode openLibrary threeBlobs 2 threeBlobsNode (1 : ℕ) 2 ⟨[], []⟩ = .ok true ⟨cache, [2, 3]⟩) ∧
    ∃ e cache, Kept openLibrary threeBlobs cache ∧
      readNode openLibrary threeBlobs 3 threeBlobsNode (1 : ℕ) 3 ⟨[], []⟩ =
        .error e ⟨cache, [2, 3]⟩ := by
  have hblobs : Blobs openLibrary threeBlobs [hex [1, 2], hex [], hex [3]] [[1, 2], [], [3]] :=
    .cons (by decide +kernel) (.cons (by decide +kernel) (.cons (by decide +kernel) .nil))
  have hnone : Kept openLibrary threeBlobs [] := fun _ hp => nomatch hp
  refine ⟨(readNode_slice rfl rfl hblobs (s := ⟨[], []⟩) hnone 1 2 2 le_rfl).1 (by decide), ?_⟩
  exact (readNode_slice rfl rfl hblobs (s := ⟨[], []⟩) hnone 1 3 3 le_rfl).2 (by decide) (by decide)

end OtgMaster.Restic
