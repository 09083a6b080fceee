import OtgMaster.Ntfs.Rename
import Mathlib.Data.List.GetD

/-!
What a listing shows, over whole runs of `NtfsFile` operations.

The cache of listings is cleared by every call that may change a listing, and most of them clear it
whether the native call has succeeded or not. The two that change the size of a file do not. `write`
clears the cache only if it ends beyond the size that its own handle remembers, and another handle
of the file may remember another one; and neither `write` nor the setter of `length` clears it when
the native call has failed, though a part of the change may have been made. The listings are right
as long as neither happens (`Careful`).
-/

namespace OtgMaster.Ntfs

open Lib Block

variable {V : Type}

/-- The library behaves as a file system does: what a directory shows of a file whose data changes
is its size. -/
structure NtfsNative.Behaves (lib : NtfsNative V) (size : V → Ref → ℕ) : Prop where
  writeFile : ∀ v mref offset n, size (lib.writeFile v mref offset n).2 mref = size v mref →
    ∀ dir, lib.readDir (lib.writeFile v mref offset n).2 dir = lib.readDir v dir
  setLength : ∀ v mref length, size (lib.setLength v mref length).2 mref = size v mref →
    ∀ dir, lib.readDir (lib.setLength v mref length).2 dir = lib.readDir v dir

/-! ### The operations -/

/-- The calls on handles, each with the handle it is made on. -/
inductive Op
  | write (file : NtfsFile) (offset : ℤ) (size : ℕ)
  | setLength (file : NtfsFile) (value : ℤ)
  | create (file : NtfsFile) (name : Name) (directory : Bool)
  | setName (file : NtfsFile) (value : Name)
  | moveTo (file target : NtfsFile)
  | delete (frames : ℕ) (file : NtfsFile)
  | listFiles (file : NtfsFile)
  | search (file : NtfsFile) (parts : List Name)
  | unmount

section Runs

variable (lib : NtfsNative V) (fold : Char → Char)

def Op.run : Op → M V PUnit
  | .write file offset size => file.write lib offset size
  | .setLength file value => file.setLength lib value
  | .create file name directory => (fun _ => ⟨⟩) <$> file.create lib name directory
  | .setName file value => file.setName lib fold value
  | .moveTo file target => file.moveTo lib fold target
  | .delete frames file => file.delete lib frames
  | .listFiles file => (fun _ => ⟨⟩) <$> file.listFiles lib
  | .search file parts => (fun _ => ⟨⟩) <$> file.search lib fold parts
  | .unmount => Ntfs.unmount

/-- The file system after the call, whether it has returned or thrown. -/
def Op.step (fs : Fs V) (op : Op) : Option (Fs V) :=
  match op.run lib fold fs with
  | .ok _ fs' => some fs'
  | .error _ fs' => some fs'

/-- A call that changes the size of a file succeeds, and if it is a write, it ends beyond the size
that its handle remembers. -/
def Careful (size : V → Ref → ℕ) (fs : Fs V) : Op → Prop
  | .write file offset n =>
    let node := fs.node file.node
    let r := lib.writeFile fs.vol node.mref offset n
    size r.2 node.mref ≠ size fs.vol node.mref → r.1 = n ∧ node.size < i64 (offset + n)
  | .setLength file value =>
    let node := fs.node file.node
    let r := lib.setLength fs.vol node.mref value
    size r.2 node.mref ≠ size fs.vol node.mref → r.1 = 0
  | _ => True

/-- Every listing in the cache is what the volume has, and every listing that was returned is what
the volume had. -/
structure Current (fs : Fs V) : Prop where
  cached : ∀ e ∈ fs.dirCache, (∀ i ∈ e.2, i < fs.nodes.length) ∧
    lib.readDir fs.vol e.1 = .ok (e.2.map fs.node)
  listed : ∀ l ∈ fs.listed, lib.readDir l.vol l.mref = .ok l.entries

variable {lib fold} {fs fs' : Fs V} {file : NtfsFile} {mref : Ref} {ids : List ℕ}

/-! ### What keeps the listings right -/

lemma Current.of_cleared (h : Current lib fs) (hcache : fs'.dirCache = [])
    (hlisted : fs'.listed = fs.listed) : Current lib fs' := by
  constructor
  · intro e he
    rw [hcache] at he
    cases he
  · rw [hlisted]
    exact h.listed

lemma Current.of_vol {v : V} (h : Current lib fs)
    (hv : ∀ dir, lib.readDir v dir = lib.readDir fs.vol dir) :
    Current lib { fs with vol := v } := by
  refine ⟨fun e he => ?_, h.listed⟩
  obtain ⟨hlt, hread⟩ := h.cached e he
  exact ⟨hlt, (hv e.1).trans hread⟩

lemma node_append {more : List NtfsNode} (hlt : ∀ i ∈ ids, i < fs.nodes.length) :
    ids.map { fs with nodes := fs.nodes ++ more }.node = ids.map fs.node := by
  refine List.map_congr_left fun i hi => ?_
  exact List.getD_append _ _ _ _ (hlt i hi)

lemma Current.of_append (h : Current lib fs) (more : List NtfsNode) :
    Current lib { fs with nodes := fs.nodes ++ more } := by
  refine ⟨fun e he => ?_, h.listed⟩
  obtain ⟨hlt, hread⟩ := h.cached e he
  refine ⟨fun i hi => ?_, ?_⟩
  · rw [List.length_append]
    exact Nat.lt_add_right _ (hlt i hi)
  · rw [node_append hlt]
    exact hread

lemma mem_cachePut {cache : List (Ref × List ℕ)} {e : Ref × List ℕ} (he : e ∈ cachePut cache mref ids) :
    e ∈ cache ∨ e = (mref, ids) := by
  unfold cachePut at he
  dsimp only at he
  have hmem : e ∈ cache.filter (fun e => e.1 ≠ mref) ++ [(mref, ids)] := by
    split at he
    · exact List.mem_of_mem_tail he
    · exact he
  rcases List.mem_append.1 hmem with h | h
  · exact .inl (List.mem_filter.1 h).1
  · exact .inr (List.mem_singleton.1 h)

lemma Current.of_listing (h : Current lib fs) (hlt : ∀ i ∈ ids, i < fs.nodes.length)
    (hread : lib.readDir fs.vol mref = .ok (ids.map fs.node)) :
    Current lib ({ fs with dirCache := cachePut fs.dirCache mref ids }.record mref ids) := by
  constructor
  · intro e he
    rcases mem_cachePut he with he | rfl
    · exact h.cached e he
    · exact ⟨hlt, hread⟩
  · intro l hl
    rcases List.mem_append.1 hl with hl | hl
    · exact h.listed l hl
    · rw [List.mem_singleton.1 hl]
      exact hread

lemma map_node_alloc (fs : Fs V) (entries : List NtfsNode) :
    (fs.alloc entries).map { fs with nodes := fs.nodes ++ entries }.node = entries := by
  unfold Fs.alloc
  rw [List.map_map]
  refine List.ext_getElem (by simp) fun i _ hi => ?_
  simp [Fs.node, List.getElem?_append_right, List.getElem?_eq_getElem hi]

def KeepsCurrent (lib : NtfsNative V) {α : Type} (m : M V α) : Prop :=
  ∀ fs, Current lib fs → wp m (fun _ => Current lib) (fun _ => Current lib) fs

lemma keepsCurrent_listDir (mref : Ref) : KeepsCurrent lib (listDir lib mref) := by
  intro fs h
  unfold listDir
  simp only [wp_bind, wp_checkMounted, wp_get]
  refine ⟨fun _ => h, fun _ => ?_⟩
  cases hlookup : fs.dirCache.lookup mref with
  | some ids =>
    obtain ⟨before, after, hcache, -⟩ := List.lookup_eq_some_iff.1 hlookup
    obtain ⟨hlt, hread⟩ := h.cached (mref, ids) (by simp [hcache])
    exact h.of_listing hlt hread
  | none =>
    dsimp only
    cases hread : lib.readDir fs.vol mref with
    | error errno => exact h
    | ok entries =>
      refine (h.of_append entries).of_listing ?_ ?_
      · intro i hi
        simp only [Fs.alloc, List.mem_map, List.mem_range] at hi
        obtain ⟨j, hj, rfl⟩ := hi
        rw [List.length_append]
        omega
      · rw [map_node_alloc]
        exact hread

/-! ### The operations, one by one -/

lemma keepsCurrent_listFiles (file : NtfsFile) : KeepsCurrent lib (file.listFiles lib) := by
  intro fs h
  unfold NtfsFile.listFiles NtfsFile.get NtfsFile.path
  simp only [wp_bind, wp_get, wp_pure, wp_throwIf]
  exact ⟨fun _ => h, fun _ => keepsCurrent_listDir _ fs h⟩

lemma keepsCurrent_child (file : NtfsFile) (name : Name) :
    KeepsCurrent lib (file.child lib fold name) := by
  intro fs h
  unfold NtfsFile.child NtfsFile.get
  simp only [wp_bind, wp_get, wp_pure]
  exact keepsCurrent_listDir _ fs h

lemma keepsCurrent_search (file : NtfsFile) (parts : List Name) :
    KeepsCurrent lib (file.search lib fold parts) := by
  induction parts generalizing file with
  | nil =>
    intro fs h
    exact h
  | cons part parts ih =>
    intro fs h
    unfold NtfsFile.search NtfsFile.get
    simp only [wp_bind, wp_get, wp_pure, wp_ite]
    refine ⟨fun _ => h, fun _ => wp_mono (keepsCurrent_child _ _ fs h) ?_ fun _ _ h => h⟩
    intro found fs' h'
    cases found with
    | none => exact h'
    | some found => exact ih found fs' h'

lemma keepsCurrent_create (file : NtfsFile) (name : Name) (directory : Bool) :
    KeepsCurrent lib (file.create lib name directory) := by
  intro fs h
  unfold NtfsFile.create NtfsFile.get NtfsFile.path
  simp only [wp_bind, wp_get, wp_pure, wp_throwIf, wp_checkWritable, wp_checkMounted, wp_native,
    wp_invalidateListings]
  refine ⟨fun _ => h, fun _ => ⟨fun _ => ⟨fun _ => h, fun _ => ?_⟩, fun _ _ => h⟩⟩
  cases (lib.create fs.vol (fs.node file.node).mref name directory).1 with
  | error errno => exact h.of_cleared rfl rfl
  | ok child => exact h.of_cleared rfl rfl

lemma keepsCurrent_rename (file newParent : NtfsFile) (newName : Name) :
    KeepsCurrent lib (file.rename lib fold newParent newName) := by
  intro fs h
  unfold NtfsFile.rename
  cases file.parents with
  | nil => exact h
  | cons oldParent rest =>
    simp only [wp_bind, wp_get, wp_pure, wp_throwIf, wp_ite, wp_checkWritable, wp_checkMounted,
      wp_native, wp_invalidateListings, NtfsFile.path, NtfsFile.set, wp_modify]
    refine ⟨fun _ => ⟨fun _ => h, fun _ => ⟨fun _ => h, fun _ => ⟨fun _ => h, fun _ => ?_⟩⟩⟩,
      fun _ _ => h⟩
    exact ⟨fun _ => h.of_cleared rfl rfl, fun _ => h.of_cleared rfl rfl⟩

lemma keepsCurrent_setName (file : NtfsFile) (value : Name) :
    KeepsCurrent lib (file.setName lib fold value) := by
  intro fs h
  unfold NtfsFile.setName
  cases file.parents with
  | nil => exact h
  | cons parent parents => exact keepsCurrent_rename _ _ _ fs h

lemma keepsCurrent_moveTo (file target : NtfsFile) : KeepsCurrent lib (file.moveTo lib fold target) := by
  intro fs h
  unfold NtfsFile.moveTo
  simp only [wp_bind, wp_get, wp_throwIf]
  exact ⟨fun _ => h, fun _ => keepsCurrent_rename _ _ _ fs h⟩

lemma keepsCurrent_forM {f : NtfsFile → M V PUnit} (hf : ∀ file, KeepsCurrent lib (f file))
    (files : List NtfsFile) : KeepsCurrent lib (files.forM f) := by
  intro fs h
  exact wp_forM (fun _ _ => Current lib) (fun _ file _ fs h => hf file fs h) files [] fs h

lemma keepsCurrent_deleteName (file : NtfsFile) (parent : ℕ) :
    KeepsCurrent lib (file.deleteName lib parent) := by
  intro fs h
  unfold NtfsFile.deleteName NtfsFile.path
  simp only [wp_bind, wp_get, wp_pure, wp_throwIf, wp_checkMounted, wp_native, wp_invalidateListings]
  exact ⟨fun _ => h, fun _ => ⟨fun _ => h.of_cleared rfl rfl, fun _ => h.of_cleared rfl rfl⟩⟩

lemma keepsCurrent_delete (frames : ℕ) (file : NtfsFile) :
    KeepsCurrent lib (file.delete lib frames) := by
  induction frames generalizing file with
  | zero =>
    intro fs h
    exact h
  | succ frames ih =>
    intro fs h
    unfold NtfsFile.delete
    cases file.parents with
    | nil => exact h
    | cons parent rest =>
      simp only [wp_bind, wp_get, NtfsFile.get, wp_pure, wp_checkWritable, wp_ite]
      refine ⟨fun _ => ⟨fun _ => ?_, fun _ => keepsCurrent_deleteName _ _ fs h⟩, fun _ _ => h⟩
      refine wp_mono (keepsCurrent_listFiles _ fs h) (fun children fs₁ h₁ => ?_) fun _ _ h => h
      refine wp_mono (keepsCurrent_forM ih children fs₁ h₁) (fun _ fs₂ h₂ => ?_) fun _ _ h => h
      exact keepsCurrent_deleteName _ _ fs₂ h₂

/-- A write that changes the size clears the cache, if it is a careful one. -/
lemma current_write {size : V → Ref → ℕ} (hlib : lib.Behaves size) {offset : ℤ} {n : ℕ}
    (h : Current lib fs) (hcareful : Careful lib size fs (.write file offset n)) :
    wp (file.write lib offset n) (fun _ => Current lib) (fun _ => Current lib) fs := by
  unfold NtfsFile.write NtfsFile.get NtfsFile.path NtfsFile.set
  simp only [wp_bind, wp_get, wp_pure, wp_throwIf, wp_ite, wp_checkWritable, wp_checkMounted, wp_native,
    wp_invalidateListings, wp_modify]
  refine ⟨fun _ => h, fun _ => ⟨fun _ => ⟨fun _ => h, fun _ => ⟨fun _ => h, fun _ => ?_⟩⟩, fun _ _ => h⟩⟩
  set node := fs.node file.node
  by_cases hsize : size (lib.writeFile fs.vol node.mref offset n).2 node.mref = size fs.vol node.mref
  · have hv := h.of_vol (hlib.writeFile _ _ _ _ hsize)
    refine ⟨fun _ => hv, fun _ => ⟨fun _ => hv, fun _ => ⟨fun _ => hv.of_cleared rfl rfl, fun _ => hv⟩⟩⟩
  · obtain ⟨hn, hlast⟩ := hcareful hsize
    rw [hn]
    exact ⟨fun hneg => by omega, fun _ => ⟨fun hne => absurd rfl hne, fun _ =>
      ⟨fun _ => h.of_cleared rfl rfl, fun hle => absurd hlast hle⟩⟩⟩

lemma current_setLength {size : V → Ref → ℕ} (hlib : lib.Behaves size) {value : ℤ} (h : Current lib fs)
    (hcareful : Careful lib size fs (.setLength file value)) :
    wp (file.setLength lib value) (fun _ => Current lib) (fun _ => Current lib) fs := by
  unfold NtfsFile.setLength NtfsFile.get NtfsFile.path NtfsFile.set
  simp only [wp_bind, wp_get, wp_pure, wp_throwIf, wp_checkWritable, wp_checkMounted, wp_native,
    wp_invalidateListings, wp_modify]
  refine ⟨fun _ => h, fun _ => ⟨fun _ => ⟨fun _ => h, fun _ => ?_⟩, fun _ _ => h⟩⟩
  set node := fs.node file.node
  by_cases hsize : size (lib.setLength fs.vol node.mref value).2 node.mref = size fs.vol node.mref
  · have hv := h.of_vol (hlib.setLength _ _ _ hsize)
    exact ⟨fun _ => hv, fun _ => hv.of_cleared rfl rfl⟩
  · exact ⟨fun hrc => absurd (hcareful hsize) hrc, fun _ => h.of_cleared rfl rfl⟩

lemma keepsCurrent_unmount : KeepsCurrent lib (unmount : M V PUnit) := by
  intro fs h
  unfold unmount
  simp only [wp_bind, wp_get, wp_ite, wp_pure, wp_modify]
  exact ⟨fun _ => h, fun _ => h.of_cleared rfl rfl⟩

lemma current_step {size : V → Ref → ℕ} (hlib : lib.Behaves size) {op : Op} (h : Current lib fs)
    (hcareful : Careful lib size fs op) (hstep : op.step lib fold fs = some fs') : Current lib fs' := by
  have hrun : wp (op.run lib fold) (fun _ => Current lib) (fun _ => Current lib) fs := by
    cases op with
    | write file offset n => exact current_write hlib h hcareful
    | setLength file value => exact current_setLength hlib h hcareful
    | create file name directory => exact (wp_map _ _).2 (keepsCurrent_create file name directory fs h)
    | setName file value => exact keepsCurrent_setName file value fs h
    | moveTo file target => exact keepsCurrent_moveTo file target fs h
    | delete frames file => exact keepsCurrent_delete frames file fs h
    | listFiles file => exact (wp_map _ _).2 (keepsCurrent_listFiles file fs h)
    | search file parts => exact (wp_map _ _).2 (keepsCurrent_search file parts fs h)
    | unmount => exact keepsCurrent_unmount fs h
  unfold Op.step at hstep
  split at hstep <;> rename_i hend <;> cases hstep
  · exact (wp_of_ok hend).1 hrun
  · exact (wp_of_error hend).1 hrun

instance (size : V → Ref → ℕ) (fs : Fs V) : (op : Op) → Decidable (Careful lib size fs op)
  | .write .. => inferInstanceAs (Decidable (_ → _ ∧ _))
  | .setLength .. => inferInstanceAs (Decidable (_ → _))
  | .create .. | .setName .. | .moveTo .. | .delete .. | .listFiles .. | .search .. | .unmount =>
      .isTrue trivial

/-- **Every listing that is returned is what the volume has at that moment**, in every run from the
mount on in which the calls that change the size of a file are careful ones. -/
theorem listings_current (lib : NtfsNative V) (fold : Char → Char) (size : V → Ref → ℕ)
    (hlib : lib.Behaves size) (fs₀ fs : Fs V) (hcache : fs₀.dirCache = [])
    (hlisted : fs₀.listed = [])
    (hrun : Reaches (fun fs op fs' => Op.step lib fold fs op = some fs') (Careful lib size) fs₀ fs)
      : ∀ l ∈ fs.listed, lib.readDir l.vol l.mref = .ok l.entries := by
  have h₀ : Current lib fs₀ := by
    constructor
    · simp [hcache]
    · simp [hlisted]
  have h : Current lib fs :=
    hrun.invariant h₀ fun _ _ _ h hcareful hstep => current_step hlib h hcareful hstep
  exact h.listed

end Runs

/-! ### Listings of a volume -/

lemma Volume.setSize_self {v : Volume} {ref : Ref} {n : ℕ}
    (h : (v.setSize ref n).size ref = v.size ref) : v.setSize ref n = v := by
  have hn : n = v.size ref := by simpa [Volume.setSize] using h
  have hsize : (fun r => if r = ref then n else v.size r) = v.size := by
    funext r
    split
    · rename_i hr
      rw [hr, hn]
    · rfl
  unfold Volume.setSize
  rw [hsize]

/-- What a call that writes data does to the volume: one size changes, or nothing. -/
def Volume.Resized (v : Volume) (ref : Ref) (v' : Volume) : Prop :=
  v' = v.advance ∨ ∃ n, v' = v.advance.setSize ref n

lemma Volume.writeFile_resized (v : Volume) (mref : Ref) (offset : ℤ) (n : ℕ) :
    v.Resized mref (v.writeFile mref offset n).2 := by
  unfold writeFile
  split_ifs
  · exact .inl rfl
  · exact .inl rfl
  · exact .inl rfl
  cases v.fault with
  | none => exact .inr ⟨_, rfl⟩
  | some f =>
    dsimp only
    split_ifs
    · exact .inl rfl
    · exact .inr ⟨_, rfl⟩

lemma Volume.setLength_resized (v : Volume) (mref : Ref) (length : ℤ) :
    v.Resized mref (v.setLength mref length).2 := by
  unfold setLength
  split_ifs
  · exact .inl rfl
  · exact .inl rfl
  · exact .inl rfl
  cases v.fault with
  | none => exact .inr ⟨_, rfl⟩
  | some f =>
    dsimp only
    split_ifs
    · exact .inl rfl
    · exact .inr ⟨_, rfl⟩

lemma Volume.Resized.readDir_eq {v v' : Volume} {ref : Ref} (h : v.Resized ref v')
    (hsize : v'.size ref = v.size ref) (dir : Ref) : v'.readDir dir = v.readDir dir := by
  rcases h with rfl | ⟨n, rfl⟩
  · rfl
  · rw [setSize_self (v := v.advance) hsize]
    rfl

lemma ntfs3g_behaves (t : Tables) : (ntfs3g t).Behaves Volume.size where
  writeFile v mref offset n := (v.writeFile_resized mref offset n).readDir_eq
  setLength v mref length := (v.setLength_resized mref length).readDir_eq

def tenVolume : Volume where
  links := [⟨5, "ab".toList, 24, true, none⟩]
  isDir ref := ref = 5
  reparse _ := false
  size ref := if ref = 24 then 10 else 0
  opens _ := true
  free := 27
  faults := []
  distinct := List.pairwise_singleton _ _

def tenFs : Fs Volume := ⟨tenVolume, [⟨5, [], true, 0⟩], [], none, false, []⟩

def appendOps : List Op := [.listFiles ⟨0, []⟩, .write ⟨1, [0]⟩ 10 5, .listFiles ⟨0, []⟩]

theorem listings_current_append :
    ∃ fs, appendOps.foldlM (Op.step (ntfs3g asciiTables) Char.toLower) tenFs = some fs ∧
      fs.listed.map (fun l => l.entries.map (·.size)) = [[10], [15]] ∧
      ∀ l ∈ fs.listed, (ntfs3g asciiTables).readDir l.vol l.mref = .ok l.entries := by
  have hmet : Met (Op.step (ntfs3g asciiTables) Char.toLower)
    (Careful (ntfs3g asciiTables) Volume.size) tenFs
      appendOps := by decide
  refine ⟨_, rfl, by decide, ?_⟩
  exact listings_current (ntfs3g asciiTables) Char.toLower Volume.size (ntfs3g_behaves _) tenFs _ rfl rfl
    (.of_run .init hmet rfl)

/-- **A listing that is out of date.** The handle from the first listing remembers ten bytes; the
handle from the second one empties the file, and the third listing shows and caches that. When the
first handle now writes five bytes, they do not end beyond the ten that it remembers: the cache
stays, and the last listing shows an empty file. -/
theorem listing_stale :
    ∃ fs, [Op.listFiles ⟨0, []⟩, .create ⟨0, []⟩ "cd".toList false, .listFiles ⟨0, []⟩,
      .setLength ⟨3, [0]⟩ 0,
        .listFiles ⟨0, []⟩, .write ⟨1, [0]⟩ 0 5, .listFiles ⟨0, []⟩].foldlM
        (Op.step (ntfs3g asciiTables) Char.toLower) tenFs = some fs ∧
      fs.listed.map (fun l => l.entries.map (·.size)) = [[10], [10, 0], [0, 0], [0, 0]] ∧
      (ntfs3g asciiTables).readDir fs.vol 5 =
        .ok [⟨24, "ab".toList, false, 5⟩, ⟨27, "cd".toList, false, 0⟩] ∧
      ∃ l ∈ fs.listed, (ntfs3g asciiTables).readDir l.vol l.mref ≠ .ok l.entries := by
  refine ⟨_, rfl, by decide, rfl, ?_⟩
  refine ⟨_, List.mem_of_getLast? rfl, ?_⟩
  decide

end OtgMaster.Ntfs
