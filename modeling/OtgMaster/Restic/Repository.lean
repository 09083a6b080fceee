import OtgMaster.Platform.Codec

/-!
`ResticRepository`: the reading side of a repository. Its files lie in folders and have names that
are digests (`Disk`). The index files say in which pack, where in it and of which type each blob is;
a blob is read through them, decrypted and checked against its id, and a tree is a blob that holds
the nodes of a folder as JSON.
-/

namespace OtgMaster.Restic

open Lib Block Platform

abbrev Id := List Char

abbrev Data := List UInt8

structure Library where
  texts : Texts
  sha256 : Data → Data
  /-- `key.encrypt`, with the bytes that it draws as its IV. -/
  encrypt : Data → Data → Data
  /-- `key.decrypt`; `none` for an `AuthenticationException`. -/
  decrypt : Data → Option Data
  /-- `ZstdNative.decompress`, with the size of the result if it is known. -/
  decompress : Data → Option ℤ → E Data

/-! ### names -/

def hexDigit (n : ℕ) : Char := if n < 10 then Char.ofNat (48 + n) else Char.ofNat (87 + n)

/-- `"%02x"` of each byte. -/
def hex (b : Data) : List Char := b.flatMap fun x => [hexDigit (x.toNat / 16), hexDigit (x.toNat % 16)]

def sha256Hex (lib : Library) (b : Data) : Id := hex (lib.sha256 b)

/-! ### files -/

/-- The folders of a repository. A pack is in `data`, in a folder for the first two letters of its
name. -/
inductive Dir where
  | keys
  | snapshots
  | index
  | locks
  | data
  deriving DecidableEq

abbrev Disk := Dir → List (Id × Data)

inductive BlobType where
  | DATA
  | TREE
  deriving DecidableEq

structure BlobRef where
  pack : Id
  type : BlobType
  offset : ℤ
  length : ℤ
  uncompressedLength : Option ℤ

section Reading

variable (lib : Library) (disk : Disk)

def readFile (dir : Dir) (name : Id) : E Data :=
  orThrow ((disk dir).lookup name) ⟨.fileNotFound, String.ofList name⟩

def readRange (dir : Dir) (name : Id) (offset length : ℤ) : E Data := do
  let data ← readFile disk dir name
  failIf ((data.length : ℤ) < offset) ⟨.io, s!"{String.ofList name} ends before offset {offset}"⟩
  failIf (length < 0) ⟨.negativeArraySize, s!"{length}"⟩
  let rest := data.drop offset.toNat
  failIf (rest.length < length.toNat) ⟨.io, s!"{String.ofList name} ends before {offset + length}"⟩
  return rest.take length.toNat

/-- `unpack`: a leading 2 marks a compressed file. -/
def unpack : Data → E Data
  | 2 :: rest => lib.decompress rest none
  | plain => pure plain

def readUnpacked (dir : Dir) (name : Id) : E Data := do
  let sealed ← readFile disk dir name
  let plain ← orThrow (lib.decrypt sealed)
    ⟨.authentication, "MAC mismatch: wrong key, or the data is damaged"⟩
  unpack lib plain

/-- `JSONObject(String(bytes))`. -/
def jsonOf (bytes : Data) : E Fields :=
  orThrow (lib.texts.parseJson (lib.texts.utf8Decode bytes)) ⟨.json, "JSONException"⟩

def readEntry (packId : Id) (item : Json) : E (Id × BlobRef) := do
  let b ← itemObject item
  let id ← getString lib.texts b "id"
  let type ← getString lib.texts b "type"
  let offset ← getLong lib.texts b "offset"
  let length ← getInt lib.texts b "length"
  let uncompressedLength ← match b.lookup "uncompressed_length" with
    | some _ => some <$> getInt lib.texts b "uncompressed_length"
    | none => pure none
  return (id, ⟨packId, if type = "tree".toList then .TREE else .DATA, offset, length,
    uncompressedLength⟩)

def readPack (item : Json) : E (List (Id × BlobRef)) := do
  let pack ← itemObject item
  let packId ← getString lib.texts pack "id"
  let blobs ← getJSONArray pack "blobs"
  blobs.mapM (readEntry lib packId)

def readIndex (bytes : Data) : E (List (Id × BlobRef)) := do
  let json ← jsonOf lib bytes
  match optJSONArray json "packs" with
  | none => pure []
  | some packs => List.flatten <$> packs.mapM (readPack lib)

/-- `loadIndex`: the entries of all index files, the later ones last. -/
def loadIndex : E (List (Id × BlobRef)) := do
  let files ← (disk .index).mapM fun file => do
    let bytes ← readUnpacked lib disk .index file.1
    readIndex lib bytes
  return files.flatten

def blob (id : Id) : E Data := do
  let index ← loadIndex lib disk
  -- a later entry takes the place of an earlier one
  let ref ← orThrow (index.reverse.lookup id) ⟨.damaged, s!"blob {String.ofList id} is not in the index"⟩
  failIf (ref.pack.length < 2) ⟨.indexOutOfBounds, "begin 0, end 2"⟩
  let sealed ← match readRange disk .data ref.pack ref.offset ref.length with
    | .ok sealed => pure sealed
    | .error e =>
      if e.kind = .fileNotFound then throw ⟨.damaged, s!"pack {String.ofList ref.pack} is missing"⟩
      else throw e
  let opened ← orThrow (lib.decrypt sealed)
    ⟨.damaged, s!"blob {String.ofList id} in pack {String.ofList ref.pack} fails its authentication check"⟩
  let plain ← match ref.uncompressedLength with
    | some size => lib.decompress opened (some size)
    | none => pure opened
  failIf (sha256Hex lib plain ≠ id)
    ⟨.damaged, s!"blob {String.ofList id} in pack {String.ofList ref.pack} does not hash to its id"⟩
  return plain

end Reading

/-! ### nodes -/

namespace Node

variable (texts : Texts)

def name (node : Fields) : E (List Char) := getString texts node "name"

def type (node : Fields) : E (List Char) := getString texts node "type"

def content (node : Fields) : E (List Id) :=
  ((optJSONArray node "content").getD []).mapM (itemString texts)

end Node

/-! ### a library without secrets -/

/-- A platform whose digest of some bytes is these bytes, and whose sealed files have their bytes in
the open, between an IV and a MAC of zeros. -/
def openLibrary : Library where
  texts := codec
  sha256 := id
  encrypt _ plain := List.replicate 16 0 ++ plain ++ List.replicate 16 0
  decrypt sealed :=
    if sealed.length < 32 then none else some ((sealed.drop 16).take (sealed.length - 32))
  decompress b _ := pure b

end OtgMaster.Restic
