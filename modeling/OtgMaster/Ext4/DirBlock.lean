import OtgMaster.Ext4.File

/-!
The blocks of a directory: the four loops of `Ext4File` that follow the record lengths of a block,
to list it, to add an entry, to remove one and to change the entry `..`.

The loops work on an array in place. Every access names the bytes of the array that it reads or
changes, and throws if the array is too short for them; `size` is the length of the array and
`limit` what is left of it before the checksum. A loop that makes as many turns as there are bytes
has come back to a record of length 0, and goes on for ever.
-/

namespace OtgMaster.Ext4

open Lib Bytes

inductive BlockEx where
  | indexOutOfBounds
  /-- Not an exception: the loop does not end. -/
  | endless
  deriving DecidableEq

abbrev B := EStateM BlockEx Bytes

/-! ### accesses -/

def access (size a n : ℕ) : B Unit := throwIf (size < a + n) .indexOutOfBounds

def fetch {α : Type} (size a n : ℕ) (f : Bytes → α) : B α := do
  access size a n
  let block ← get
  pure (f block)

def store (size a n : ℕ) (f : Bytes → Bytes) : B Unit := do
  access size a n
  modify f

def recInode (block : Bytes) (pos : ℕ) : ℕ := block.le32 pos

def recLen (block : Bytes) (pos : ℕ) : ℕ := block.le16 (pos + 4)

def recNameLen (block : Bytes) (pos : ℕ) : ℕ := (block (pos + 6)).toNat

def recName (block : Bytes) (pos : ℕ) : List UInt8 := block.slice (pos + 8) (recNameLen block pos)

/-- The room that a record with a name of `n` bytes needs. -/
def recRoom (n : ℕ) : ℕ := (8 + n + 3) / 4 * 4

def DOT : List UInt8 := [46]
def DOT_DOT : List UInt8 := [46, 46]

/-! ### listing -/

/-- The loop of `parseDirBlock`: the inodes and the names of the entries. -/
def parseLoop (size limit : ℕ) : ℕ → ℕ → List (ℕ × List UInt8) → B (List (ℕ × List UInt8))
  | 0, _, _ => throw .endless
  | turns + 1, pos, out =>
    if pos + 8 ≤ limit then do
      let ino ← fetch size pos 4 (recInode · pos)
      let len ← fetch size (pos + 4) 2 (recLen · pos)
      if len < 8 then pure out
      else do
        let nameLen ← fetch size (pos + 6) 1 (recNameLen · pos)
        if ino ≠ 0 ∧ 0 < nameLen ∧ pos + 8 + nameLen ≤ limit then do
          let name ← fetch size (pos + 8) nameLen (recName · pos)
          if name ≠ DOT ∧ name ≠ DOT_DOT then
            parseLoop size limit turns (pos + len) (out ++ [(ino, name)])
          else parseLoop size limit turns (pos + len) out
        else parseLoop size limit turns (pos + len) out
    else pure out

def parseEntries (size limit : ℕ) : B (List (ℕ × List UInt8)) := parseLoop size limit (limit + 1) 0 []

/-- `parseDirBlock`: an object for each entry. The objects are made one after another as the entries
are read; `utf8` is the conversion of names. -/
def parseDirBlock (fs : Ext4FileSystem) (utf8 : List UInt8 → String) (parent : Option ℕ) (size limit : ℕ)
    (block : Bytes) : M (List ℕ) :=
  match parseEntries size limit block with
  | .ok entries _ => entries.mapM fun e => forInode fs e.1 (utf8 e.2) parent
  | .error _ _ => throw .indexOutOfBounds

/-! ### adding -/

def addLoop (size limit inoNum : ℕ) (nameBytes : List UInt8) (needed fileType : ℕ) : ℕ → ℕ → B Bool
  | 0, _ => throw .endless
  | turns + 1, pos =>
    if pos + 8 ≤ limit then do
      let len ← fetch size (pos + 4) 2 (recLen · pos)
      if len = 0 then pure false
      else do
        let nameLen ← fetch size (pos + 6) 1 (recNameLen · pos)
        let minLen := recRoom nameLen
        let slack : ℤ := len - minLen
        if needed ≤ slack then do
          -- shrink the record to what it needs, and write the new one behind it
          store size (pos + 4) 2 (·.put16 (pos + 4) minLen)
          let newPos := pos + minLen
          store size newPos 4 (·.put32 newPos inoNum)
          store size (newPos + 4) 2 (·.put16 (newPos + 4) slack.toNat)
          store size (newPos + 6) 1 (·.put8 (newPos + 6) nameBytes.length)
          store size (newPos + 7) 1 (·.put8 (newPos + 7) fileType)
          store size (newPos + 8) nameBytes.length
            (·.patch (newPos + 8) nameBytes.length (ofList nameBytes))
          pure true
        else addLoop size limit inoNum nameBytes needed fileType turns (pos + len)
    else pure false

def addEntryToBlock (size limit inoNum : ℕ) (nameBytes : List UInt8) (fileType : ℕ) : B Bool :=
  addLoop size limit inoNum nameBytes (recRoom nameBytes.length) fileType (limit + 1) 0

/-! ### removing -/

/-- `regionMatches`, against all of `other`. -/
def regionMatches (size : ℕ) : ℕ → List UInt8 → B Bool
  | _, [] => pure true
  | thisOff, c :: other => do
    let x ← fetch size thisOff 1 (· thisOff)
    if x ≠ c then pure false else regionMatches size (thisOff + 1) other

/-- The record at `pos`, of the inode `ino` and with a name of `nameLen` bytes, is the one to
remove. -/
def isEntry (size pos ino nameLen inoNum : ℕ) (nameBytes : List UInt8) : B Bool :=
  if ino = inoNum ∧ nameLen = nameBytes.length then regionMatches size (pos + 8) nameBytes
  else pure false

/-- Take the record at `pos` out: the one before it becomes longer, or if there is none its inode
becomes 0. -/
def takeOut (size pos len : ℕ) : Option ℕ → B Unit
  | some prev => do
    let prevLen ← fetch size (prev + 4) 2 (recLen · prev)
    store size (prev + 4) 2 (·.put16 (prev + 4) (prevLen + len))
  | none => store size pos 4 (·.put32 pos 0)

/-- The inner loop of `removeDirEntry`, over one block. -/
def removeLoop (size limit inoNum : ℕ) (nameBytes : List UInt8) : ℕ → ℕ → Option ℕ → B Bool
  | 0, _, _ => throw .endless
  | turns + 1, pos, prev =>
    if pos + 8 ≤ limit then do
      let ino ← fetch size pos 4 (recInode · pos)
      let len ← fetch size (pos + 4) 2 (recLen · pos)
      if len = 0 then pure false
      else do
        let nameLen ← fetch size (pos + 6) 1 (recNameLen · pos)
        let found ← isEntry size pos ino nameLen inoNum nameBytes
        if found then do
          takeOut size pos len prev
          pure true
        else removeLoop size limit inoNum nameBytes turns (pos + len) (some pos)
    else pure false

def removeFromBlock (size limit inoNum : ℕ) (nameBytes : List UInt8) : B Bool :=
  removeLoop size limit inoNum nameBytes (limit + 1) 0 none

/-! ### the parent -/

def dotDotLoop (size limit newParentIno : ℕ) : ℕ → ℕ → B Bool
  | 0, _ => throw .endless
  | turns + 1, pos =>
    if pos + 8 ≤ limit then do
      let len ← fetch size (pos + 4) 2 (recLen · pos)
      let nameLen ← fetch size (pos + 6) 1 (recNameLen · pos)
      let name ← fetch size (pos + 8) nameLen (recName · pos)
      if name = DOT_DOT then do
        store size pos 4 (·.put32 pos newParentIno)
        pure true
      else dotDotLoop size limit newParentIno turns (pos + len)
    else pure false

def dotDotInBlock (size limit newParentIno : ℕ) : B Bool :=
  dotDotLoop size limit newParentIno (limit + 1) 0

end OtgMaster.Ext4
