import OtgMaster.Ntfs.File
import Mathlib.Data.List.Pairwise

/-!
The volume under `NtfsNative.cpp`: the names of the files, in the directories they are filed in, and
the calls that change them one name at a time (`linkName`, `unlinkName`). A rename is made of two
such steps, or of four and a temporary name where only the case changes.

How the steps go wrong is part of the volume (`Volume.faults`): each step takes the next fault, if
there is one, and fails with it. A link or an unlink step that fails leaves the names as they were;
a call that writes data may fail when it has already changed the size.
-/

namespace OtgMaster.Ntfs

/-! ### Names and files -/

def mftNo (ref : Ref) : ℕ := ref % 2 ^ 48

def FILE_Extend : ℕ := 11

def FILE_first_user : ℕ := 24

def EPERM : ℤ := 1
def ENOENT : ℤ := 2
def EEXIST : ℤ := 17
def ENOTDIR : ℤ := 20
def EINVAL : ℤ := 22
def ENOTEMPTY : ℤ := 39

/-- What the volume compares names by, and which names it takes. -/
structure Tables where
  /-- `$UpCase`. -/
  upcase : Char → Char
  /-- `toNtfsName` refuses the name: it cannot be converted, is empty, or is one that Windows
  forbids. -/
  refuses : Name → Bool

def Tables.collate (t : Tables) (a b : Name) : Bool := a.map t.upcase = b.map t.upcase

/-- A name of a file in a directory, with the short name that Windows files along with it. -/
structure Link where
  dir : Ref
  name : Name
  file : Ref
  /-- The name is in the POSIX namespace. -/
  posix : Bool
  dosName : Option Name
  deriving DecidableEq

/-- The names in the index of the directory. -/
def Link.names (l : Link) : List Name := l.name :: l.dosName.toList

/-- The two do not have a name in one directory. -/
def Link.Apart (a b : Link) : Prop := a.dir = b.dir → a.names.Disjoint b.names

structure Fault where
  errno : ℤ
  /-- What a call that writes data has written by then. -/
  done : ℕ
  pos : 0 < errno

structure Volume where
  links : List Link
  isDir : Ref → Bool
  reparse : Ref → Bool
  size : Ref → ℕ
  /-- `ntfs_inode_open` finds the file. -/
  opens : Ref → Bool
  /-- The record that the next file gets. -/
  free : Ref
  faults : List (Option Fault)
  /-- The index of a directory has a name once. -/
  distinct : links.Pairwise Link.Apart

namespace Volume

variable (t : Tables) (v : Volume)

def fault : Option Fault := v.faults.headD none

def advance : Volume := { v with faults := v.faults.tail }

def addLink (l : Link) (h : ∀ m ∈ v.links, m.Apart l) : Volume where
  links := v.links ++ [l]
  isDir := v.isDir
  reparse := v.reparse
  size := v.size
  opens := v.opens
  free := v.free
  faults := v.faults
  distinct := List.pairwise_append.2 ⟨v.distinct, List.pairwise_singleton _ _, fun m hm l' hl' => by
    rw [List.mem_singleton.1 hl']
    exact h m hm⟩

/-- A name is removed; with the last one the file goes. -/
def removeLink (l : Link) : Volume where
  links := v.links.filter (· ≠ l)
  isDir := v.isDir
  reparse := v.reparse
  size := v.size
  opens ref := v.opens ref && (ref ≠ l.file || (v.links.filter (· ≠ l)).any (·.file = l.file))
  free := v.free
  faults := v.faults
  distinct := v.distinct.filter _

def Has (dir : Ref) (name : Name) (file : Ref) : Prop :=
  ∃ l ∈ v.links, l.dir = dir ∧ l.name = name ∧ l.file = file

instance (dir : Ref) (name : Name) (file : Ref) : Decidable (v.Has dir name file) :=
  inferInstanceAs (Decidable (∃ l ∈ v.links, _))

/-! ### Single steps -/

/-- `nameTaken`: some name in the directory, short or long, is equal ignoring case. -/
def nameTaken (dir : Ref) (name : Name) : Bool :=
  v.links.any fun l => l.dir = dir && l.names.any (t.collate · name)

lemma apart_of_not_taken {t : Tables} {v : Volume} {dir file : Ref} {name : Name}
    (h : ¬v.nameTaken t dir name = true) : ∀ m ∈ v.links, m.Apart ⟨dir, name, file, true, none⟩ := by
  rintro m hm hdir n hn hname
  rw [show n = name from List.mem_singleton.1 hname] at hn
  refine h (List.any_eq_true.2 ⟨m, hm, Bool.and_eq_true_iff.2 ⟨decide_eq_true hdir, ?_⟩⟩)
  exact List.any_eq_true.2 ⟨name, hn, by simp [Tables.collate]⟩

/-- `linkName`: a name for `mref` in `dirRef`, in the POSIX namespace. -/
def linkName (mref dirRef : Ref) (name : Name) : ℤ × Volume :=
  if t.refuses name then (-EINVAL, v.advance)
  else match v.fault with
  | some f => (-f.errno, v.advance)
  | none =>
    if v.opens mref = false then (-ENOENT, v.advance)
    else if v.opens dirRef = false then (-ENOENT, v.advance)
    else if v.isDir dirRef = false ∨ mftNo dirRef = FILE_Extend ∨ v.reparse dirRef = true then
      (-EPERM, v.advance)
    else if h : v.nameTaken t dirRef name = true then (-EEXIST, v.advance)
    else if mftNo mref = mftNo dirRef then (-EINVAL, v.advance)
    else (0, v.advance.addLink ⟨dirRef, name, mref, true, none⟩ (apart_of_not_taken h))

/-- The name that `ntfs_delete` removes: the exact one, or else one that is equal ignoring case and
not in the POSIX namespace. -/
def findLink (dirRef mref : Ref) (name : Name) : Option Link :=
  (v.links.find? fun l => l.dir = dirRef ∧ l.file = mref ∧ name ∈ l.names).orElse fun _ =>
    v.links.find? fun l => l.dir = dirRef ∧ l.file = mref ∧
      (l.posix = false ∧ t.collate l.name name = true ∨ l.dosName.any (t.collate · name) = true)

def linkCount (file : Ref) : ℕ :=
  ((v.links.filter (·.file = file)).map fun l => 1 + l.dosName.toList.length).sum

/-- `ntfs_check_unlinkable_dir` fails: the last name of a directory that is not empty. -/
def lastOfDir (l : Link) : Bool :=
  v.isDir l.file && v.links.any (·.dir = l.file) &&
    (v.linkCount l.file = 1 || v.linkCount l.file = 2 && l.dosName.isSome)

def unlinkName (dirRef mref : Ref) (name : Name) : ℤ × Volume :=
  match v.fault with
  | some f => (-f.errno, v.advance)
  | none =>
    if v.opens mref = false then (-ENOENT, v.advance)
    else if mftNo mref < FILE_first_user then (-EPERM, v.advance)
    else if v.opens dirRef = false then (-ENOENT, v.advance)
    else if mftNo dirRef = FILE_Extend then (-EPERM, v.advance)
    else match v.findLink t dirRef mref name with
    | none => (-ENOENT, v.advance)
    | some l => if v.lastOfDir l then (-ENOTEMPTY, v.advance) else (0, v.advance.removeLink l)

/-! ### The calls -/

def hexDigit (n : ℕ) : Char := if n < 10 then Char.ofNat (48 + n) else Char.ofNat (87 + n)

/-- `.otg-rename-%016llx`. -/
def tmpName (mref : Ref) : Name :=
  ".otg-rename-".toList ++ (List.range 16).map fun i => hexDigit (mftNo mref / 16 ^ (15 - i) % 16)

def rename (mref oldDirRef : Ref) (oldName : Name) (newDirRef : Ref) (newName : Name)
    (caseOnly : Bool) : ℤ × Volume :=
  if caseOnly then
    let r := v.linkName t mref oldDirRef (tmpName mref)
    let r := if r.1 = 0 then r.2.unlinkName t oldDirRef mref oldName else r
    let r := if r.1 = 0 then r.2.linkName t mref newDirRef newName else r
    if r.1 = 0 then r.2.unlinkName t oldDirRef mref (tmpName mref) else r
  else
    let r := v.linkName t mref newDirRef newName
    if r.1 = 0 then r.2.unlinkName t oldDirRef mref oldName else r

def setSize (ref : Ref) (n : ℕ) : Volume := { v with size := fun r => if r = ref then n else v.size r }

/-- `writeFile`: a call that fails may have written a part. -/
def writeFile (mref : Ref) (offset : ℤ) (size : ℕ) : ℤ × Volume :=
  if v.opens mref = false then (-ENOENT, v.advance)
  else if mftNo mref < FILE_first_user ∨ v.isDir mref = true then (-EPERM, v.advance)
  else if offset < 0 then (-EINVAL, v.advance)
  else match v.fault with
  | some f =>
    (-f.errno, if f.done = 0 then v.advance
      else v.advance.setSize mref (max (v.size mref) (offset.toNat + min f.done size)))
  | none => (size, v.advance.setSize mref (max (v.size mref) (offset.toNat + size)))

/-- `setLength`: a call that fails may have set the length. -/
def setLength (mref : Ref) (length : ℤ) : ℤ × Volume :=
  if length < 0 then (-EINVAL, v.advance)
  else if v.opens mref = false then (-ENOENT, v.advance)
  else if mftNo mref < FILE_first_user ∨ v.isDir mref = true then (-EPERM, v.advance)
  else match v.fault with
  | some f => (-f.errno, if f.done = 0 then v.advance else v.advance.setSize mref length.toNat)
  | none => (0, v.advance.setSize mref length.toNat)

def makeNode (ref : Ref) (name : Name) : NtfsNode :=
  ⟨ref, name, v.isDir ref, if v.isDir ref then 0 else v.size ref⟩

def newFile (ref : Ref) (directory : Bool) : Volume :=
  { v with
    isDir := fun r => if r = ref then directory else v.isDir r
    reparse := fun r => if r = ref then false else v.reparse r
    size := fun r => if r = ref then 0 else v.size r
    opens := fun r => if r = ref then true else v.opens r
    free := ref + 1 }

/-- `create`: a call that fails may have made the file. -/
def create (dirRef : Ref) (name : Name) (directory : Bool) : Except ℤ NtfsNode × Volume :=
  if t.refuses name then (.error EINVAL, v.advance)
  else if v.opens dirRef = false then (.error ENOENT, v.advance)
  else if v.isDir dirRef = false then (.error ENOTDIR, v.advance)
  else if mftNo dirRef = FILE_Extend ∨ v.reparse dirRef = true then (.error EPERM, v.advance)
  else if h : v.nameTaken t dirRef name = true then (.error EEXIST, v.advance)
  else
    let v' := (v.advance.addLink ⟨dirRef, name, v.free, true, none⟩ (apart_of_not_taken h)).newFile
      v.free directory
    match v.fault with
    | some f => (.error f.errno, if f.done = 0 then v.advance else v')
    | none => (.ok (v'.makeNode v.free name), v')

/-- `readDir`: the long names of the files that are not metadata. -/
def readDir (dirRef : Ref) : Except ℤ (List NtfsNode) :=
  if v.opens dirRef = false then .error ENOENT
  else if v.isDir dirRef = false then .error ENOTDIR
  else
    let entries :=
      v.links.filter fun l => l.dir = dirRef ∧ FILE_first_user ≤ mftNo l.file ∧ l.name ≠ ['.'] ∧
      l.name ≠ ['.', '.']
    if entries.any (fun l => v.opens l.file = false) then .error ENOENT
    else .ok (entries.map fun l => v.makeNode l.file l.name)

end Volume

def ntfs3g (t : Tables) : NtfsNative Volume where
  readDir := Volume.readDir
  writeFile := Volume.writeFile
  setLength := Volume.setLength
  create := Volume.create t
  delete := Volume.unlinkName t
  rename := Volume.rename t

end OtgMaster.Ntfs
