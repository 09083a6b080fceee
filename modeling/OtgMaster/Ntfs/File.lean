import OtgMaster.Block.Drive
import OtgMaster.Lib.Run

/-!
`NtfsFileSystem` and `NtfsFile`: what the Kotlin side of the NTFS driver does between the calls of
the native library.

The library is a parameter (`NtfsNative`), over any type of volumes. The objects of class `NtfsNode`
are mutable, and a listing in the cache shares them with the handles that were made from it; so they
live in a heap (`Fs.nodes`), and handles and cached listings hold their numbers. Every listing that
`listDir` returns is recorded together with the volume it was returned for (`Fs.listed`), which no
code reads.
-/

namespace OtgMaster.Ntfs

open Lib Block

abbrev Name := List Char

/-- An MFT reference: the number of the record in the low 48 bits, its sequence number above
them. -/
abbrev Ref := ℕ

/-- The fields of an `NtfsNode`; its times are left out. -/
structure NtfsNode where
  mref : Ref
  name : Name
  isDirectory : Bool
  size : ℤ
  deriving DecidableEq, Inhabited

/-- The calls of `NtfsNative` on a volume. The number is the one that is returned, a negated `errno`
if the call fails; the calls that return `null` set `lastErrno` instead. -/
structure NtfsNative (V : Type) where
  readDir : V → Ref → Except ℤ (List NtfsNode)
  writeFile : V → Ref → (offset : ℤ) → (size : ℕ) → ℤ × V
  setLength : V → Ref → (length : ℤ) → ℤ × V
  create : V → (dirRef : Ref) → Name → (directory : Bool) → Except ℤ NtfsNode × V
  delete : V → (dirRef mref : Ref) → Name → ℤ × V
  rename : V → (mref oldDirRef : Ref) → (oldName : Name) → (newDirRef : Ref) → (newName : Name) →
    (caseOnly : Bool) → ℤ × V

structure Listed (V : Type) where
  vol : V
  mref : Ref
  entries : List NtfsNode

structure Fs (V : Type) where
  vol : V
  /-- The objects of class `NtfsNode`, by number. -/
  nodes : List NtfsNode
  /-- The listings in the cache, the one that was used last at the end. -/
  dirCache : List (Ref × List ℕ)
  readOnlyReason : Option String
  isUnmounted : Bool
  listed : List (Listed V)

/-- A handle: its node and those of its parents, up to the root. -/
structure NtfsFile where
  node : ℕ
  parents : List ℕ
  deriving DecidableEq

variable {V : Type}

abbrev M (V : Type) := EStateM Thrown (Fs V)

def Fs.node (fs : Fs V) (i : ℕ) : NtfsNode := fs.nodes.getD i default

def ioError (message : String) : Thrown := ⟨.io, message⟩

def errnoName (errno : ℤ) : String :=
  if errno = 1 then "operation not permitted (EPERM)"
  else if errno = 2 then "no such file or directory (ENOENT)"
  else if errno = 5 then "I/O error (EIO)"
  else if errno = 12 then "out of memory (ENOMEM)"
  else if errno = 13 then "permission denied (EACCES)"
  else if errno = 16 then "busy (EBUSY)"
  else if errno = 17 then "already exists (EEXIST)"
  else if errno = 20 then "not a directory (ENOTDIR)"
  else if errno = 21 then "is a directory (EISDIR)"
  else if errno = 22 then "invalid argument or name (EINVAL)"
  else if errno = 27 then "file too large (EFBIG)"
  else if errno = 28 then "no space left on volume (ENOSPC)"
  else if errno = 30 then "read-only volume (EROFS)"
  else if errno = 36 then "name too long (ENAMETOOLONG)"
  else if errno = 39 then "directory not empty (ENOTEMPTY)"
  else if errno = 61 then "no data (ENODATA)"
  else if errno = 95 then "not supported, e.g. a compressed or encrypted file (EOPNOTSUPP)"
  else s!"errno {errno}"

def failed (what : String) (rc : ℤ) : Thrown := ioError (what ++ ": " ++ errnoName (-rc))

/-! ### The file system -/

def checkWritable : M V PUnit := do
  match (← get).readOnlyReason with
  | some reason => throw (ioError s!"NTFS volume is read-only: {reason}")
  | none => return

/-- `withNative`, before the body: the lock is held and the volume is mounted. -/
def checkMounted : M V PUnit := do
  throwIf ((← get).isUnmounted = true) (ioError "NTFS filesystem is unmounted")

def native {α : Type} (f : V → α × V) : M V α :=
  modifyGet fun fs => ((f fs.vol).1, { fs with vol := (f fs.vol).2 })

def invalidateListings : M V PUnit := modify fun fs => { fs with dirCache := [] }

section Rules

variable {α : Type} {fs : Fs V} {E : Thrown → Fs V → Prop}

@[simp] lemma wp_checkWritable {Q : PUnit → Fs V → Prop} : wp checkWritable Q E fs ↔
    (fs.readOnlyReason = none → Q ⟨⟩ fs) ∧
      ∀ reason, fs.readOnlyReason = some reason →
      E (ioError s!"NTFS volume is read-only: {reason}") fs := by
  unfold checkWritable
  rw [wp_bind, wp_get]
  cases h : fs.readOnlyReason <;> simp

@[simp] lemma wp_checkMounted {Q : PUnit → Fs V → Prop} : wp checkMounted Q E fs ↔
    (fs.isUnmounted = true → E (ioError "NTFS filesystem is unmounted") fs) ∧
    (fs.isUnmounted = false → Q ⟨⟩ fs) := by
  unfold checkMounted
  rw [wp_bind, wp_get, wp_throwIf, Bool.not_eq_true]

@[simp] lemma wp_native (f : V → α × V) {Q : α → Fs V → Prop} :
    wp (native f) Q E fs ↔ Q (f fs.vol).1 { fs with vol := (f fs.vol).2 } := Iff.rfl

@[simp] lemma wp_invalidateListings {Q : PUnit → Fs V → Prop} :
    wp invalidateListings Q E fs ↔ Q ⟨⟩ { fs with dirCache := [] } := Iff.rfl

end Rules

/-- `dirCache[mref] = nodes`, and the eldest listing goes when there are more than 32. -/
def cachePut (cache : List (Ref × List ℕ)) (mref : Ref) (ids : List ℕ) : List (Ref × List ℕ) :=
  let cache := cache.filter (fun e => e.1 ≠ mref) ++ [(mref, ids)]
  if 32 < cache.length then cache.tail else cache

/-- The objects that `readDir` makes: their numbers, behind those that are there. -/
def Fs.alloc (fs : Fs V) (entries : List NtfsNode) : List ℕ :=
  (List.range entries.length).map (fs.nodes.length + ·)

def Fs.record (fs : Fs V) (mref : Ref) (ids : List ℕ) : Fs V :=
  { fs with listed := fs.listed ++ [⟨fs.vol, mref, ids.map fs.node⟩] }

def listDir (lib : NtfsNative V) (mref : Ref) : M V (List ℕ) := do
  checkMounted
  let fs ← get
  match fs.dirCache.lookup mref with
  | some ids => do
    -- the cache is in access order
    set ({ fs with dirCache := cachePut fs.dirCache mref ids }.record mref ids)
    return ids
  | none =>
    match lib.readDir fs.vol mref with
    | .error errno => throw (failed "NTFS directory listing failed" (-errno))
    | .ok entries => do
      let ids := fs.alloc entries
      set ({ fs with
        nodes := fs.nodes ++ entries
        dirCache := cachePut fs.dirCache mref ids }.record mref ids)
      return ids

def unmount : M V PUnit := do
  if (← get).isUnmounted then return
  modify fun fs => { fs with isUnmounted := true, dirCache := [] }

/-! ### Files -/

namespace NtfsFile

variable (file : NtfsFile)

def isRoot : Bool := file.parents.isEmpty

def name (fs : Fs V) : Name := if file.isRoot then [] else (fs.node file.node).name

def absolutePath (fs : Fs V) : String :=
  if file.isRoot then "/"
  else String.join ((file.node :: file.parents).dropLast.reverse.map fun i =>
    "/" ++ String.ofList (fs.node i).name)

def get : M V NtfsNode := do return (← MonadState.get).node file.node

def path : M V String := do return file.absolutePath (← MonadState.get)

def set (f : NtfsNode → NtfsNode) : M V PUnit :=
  modify fun fs => { fs with nodes := fs.nodes.modify file.node f }

def setLength (lib : NtfsNative V) (value : ℤ) : M V PUnit := do
  let node ← file.get
  throwIf (node.isDirectory = true) (ioError "Cannot set length on a directory")
  checkWritable
  checkMounted
  let rc ← native fun v => lib.setLength v node.mref value
  let path ← file.path
  throwIf (rc ≠ 0) (failed s!"NTFS truncate of {path} to {value} failed" rc)
  file.set fun node => { node with size := value }
  invalidateListings

/-- `write` of `size` bytes; the bytes themselves are left out. -/
def write (lib : NtfsNative V) (offset : ℤ) (size : ℕ) : M V PUnit := do
  let node ← file.get
  throwIf (node.isDirectory = true) (ioError "Cannot write to a directory")
  checkWritable
  if size = 0 then return
  checkMounted
  let n ← native fun v => lib.writeFile v node.mref offset size
  let path ← file.path
  throwIf (n < 0) (failed s!"NTFS write to {path} at {offset} ({size} bytes) failed" n)
  throwIf (n ≠ size) (ioError s!"NTFS short write to {path}: {n} of {size} bytes")
  let last := i64 (offset + n)
  if node.size < last then
    file.set fun node => { node with size := last }
    invalidateListings

def childOf (i : ℕ) : NtfsFile := ⟨i, file.node :: file.parents⟩

def listFiles (lib : NtfsNative V) : M V (List NtfsFile) := do
  let node ← file.get
  let path ← file.path
  throwIf (node.isDirectory = false) (ioError s!"Not a directory: {path}")
  let ids ← listDir lib node.mref
  return ids.map file.childOf

/-- `create`, for `createFile` and `createDirectory`. -/
def create (lib : NtfsNative V) (childName : Name) (directory : Bool) : M V NtfsFile := do
  let node ← file.get
  throwIf (node.isDirectory = false) (ioError "Cannot create inside a file")
  checkWritable
  checkMounted
  let created ← native fun v => lib.create v node.mref childName directory
  invalidateListings
  let path ← file.path
  match created with
  | .error errno =>
    throw (failed ("NTFS create of " ++ String.ofList childName ++ s!" in {path} failed") (-errno))
  | .ok child => do
    let i := (← MonadState.get).nodes.length
    modify fun fs => { fs with nodes := fs.nodes ++ [child] }
    return file.childOf i

/-- `newName.equals(name, ignoreCase = true)`: each character is compared in one case. -/
def equalsIgnoreCase (fold : Char → Char) (a b : Name) : Bool := a.map fold = b.map fold

/-- `child`: the exact name first, and then any that is equal up to case. -/
def child (lib : NtfsNative V) (fold : Char → Char) (childName : Name) : M V (Option NtfsFile) := do
  let node ← file.get
  let ids ← listDir lib node.mref
  let fs ← MonadState.get
  let found := (ids.find? fun i => (fs.node i).name = childName).orElse fun _ =>
    ids.find? fun i => equalsIgnoreCase fold (fs.node i).name childName
  return found.map file.childOf

/-- `search`, over the parts of the path that are not empty. -/
def search (lib : NtfsNative V) (fold : Char → Char) : NtfsFile → List Name → M V (Option NtfsFile)
  | current, [] => return current
  | current, part :: parts => do
    let node ← current.get
    if node.isDirectory = false then return none
    match ← current.child lib fold part with
    | none => return none
    | some found => search lib fold found parts

def rename (lib : NtfsNative V) (fold : Char → Char) (newParent : NtfsFile) (newName : Name) :
    M V PUnit := do
  match file.parents with
  | [] => throw (ioError "Cannot move the root")
  | oldParent :: _ => do
    checkWritable
    let fs ← MonadState.get
    let node := fs.node file.node
    -- the target and its parents, as the handles know them
    throwIf (node.isDirectory = true ∧ ∃ p ∈ newParent.node :: newParent.parents,
      (fs.node p).mref = node.mref)
      (ioError "Cannot move a directory into itself")
    let oldDir := (fs.node oldParent).mref
    let newDir := (fs.node newParent.node).mref
    let sameDir : Bool := newDir = oldDir
    if sameDir ∧ newName = node.name then return
    let caseOnly := sameDir && equalsIgnoreCase fold newName node.name
    checkMounted
    let rc ← native fun v => lib.rename v node.mref oldDir node.name newDir newName caseOnly
    invalidateListings
    let path ← file.path
    throwIf (rc ≠ 0) (failed (s!"NTFS rename of {path} to " ++ String.ofList newName ++ " failed") rc)
    file.set fun node => { node with name := newName }

def setName (lib : NtfsNative V) (fold : Char → Char) (value : Name) : M V PUnit :=
  match file.parents with
  | [] => throw (ioError "Cannot rename the root")
  | parent :: parents => file.rename lib fold ⟨parent, parents⟩ value

/-- `moveTo`, to another handle of this file system. -/
def moveTo (lib : NtfsNative V) (fold : Char → Char) (target : NtfsFile) : M V PUnit := do
  let fs ← MonadState.get
  throwIf ((fs.node target.node).isDirectory = false) (ioError "Move target is not a directory")
  file.rename lib fold target (file.name fs)

def deleteName (lib : NtfsNative V) (parent : ℕ) : M V PUnit := do
  checkMounted
  let fs ← MonadState.get
  let node := fs.node file.node
  let rc ← native fun v => lib.delete v (fs.node parent).mref node.mref node.name
  invalidateListings
  let path ← file.path
  throwIf (rc ≠ 0) (failed s!"NTFS delete of {path} failed" rc)

/-- `delete`, with the frames that are left on the stack. -/
def delete (lib : NtfsNative V) : ℕ → NtfsFile → M V PUnit
  | 0, _ => throw ⟨.stackOverflow, "StackOverflowError"⟩
  | frames + 1, file => do
    match file.parents with
    | [] => throw (ioError "Cannot delete the root")
    | parent :: _ => do
      checkWritable
      let node ← file.get
      if node.isDirectory then
        let children ← file.listFiles lib
        children.forM (delete lib frames)
      file.deleteName lib parent

end NtfsFile

end OtgMaster.Ntfs
