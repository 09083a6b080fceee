import OtgMaster.Ext4.Lookup

/-!
The objects of `Ext4File`. An object keeps its own copy of the inode; the objects live in the state
under numbers.
-/

namespace OtgMaster.Ext4

open Lib Bytes

/-! ### Objects -/

def newFile (f : Ext4File) : M ℕ :=
  modifyGet fun s =>
    (s.nextFile, { s with files := Function.update s.files s.nextFile f, nextFile := s.nextFile + 1 })

section File

variable (fs : Ext4FileSystem)

def fileOf (inodeNum : ℕ) (name : String) (parent : Option ℕ) (inode : Bytes) : Ext4File :=
  { inodeNum := inodeNum
    entryName := name
    parent := parent
    isDir := inodeIsDir inode
    currentSize := inodeLength inode
    inode := inode
    dirty := false }

def forInode (inodeNum : ℕ) (name : String) (parent : Option ℕ) : M ℕ := do
  let inode ← readInode fs inodeNum
  checkInode fs inode
  newFile (fileOf inodeNum name parent inode)

end File

end OtgMaster.Ext4
