import Mathlib.Data.List.DropRight
import OtgMaster.Block.Drive

/-!
The directory entries of `FatRecovery`. Deleting a file overwrites the first byte of its directory
entry and of the parts of its long name; the entry keeps the size and the first cluster. `entries`
reads both kinds of entries from the data of a folder, and puts the overwritten byte back from the
checksum that the long-name parts have.
-/

namespace OtgMaster.Recovery

open Lib Block

abbrev Units := List ℕ

structure Locale where
  /-- The milliseconds of year, month, day, hour, minute and second, where there is such a time. -/
  clock : ℕ → ℕ → ℕ → ℕ → ℕ → ℕ → Option ℤ

/-! ### Directory entries -/

/-- Thirty-two bytes of a folder. -/
abbrev Slot := List UInt8

namespace Slot

def first (e : Slot) : ℕ := (e.getD 0 0).toNat

def attr (e : Slot) : ℕ := (e.getD 11 0).toNat

/-- The two bytes of a cluster number, and the size. -/
def firstCluster (e : Slot) : ℕ := (Bytes.ofList e).le16 20 * 65536 + (Bytes.ofList e).le16 26

def size (e : Slot) : ℕ := (Bytes.ofList e).le32 28

/-- The byte of a long-name part that has the checksum of the short name. -/
def sum (e : Slot) : ℕ := (e.getD 13 0).toNat

end Slot

structure FatEntry where
  name : Units
  attr : ℕ
  firstCluster : ℕ
  size : ℕ
  deleted : Bool
  mtime : Option ℤ
  deriving DecidableEq

/-- One byte of a short name added to a checksum. -/
def addByte (sum : ℕ) (b : UInt8) : ℕ := (sum % 2 * 128 + sum / 2 + b.toNat) % 256

def checksum (sfn : Slot) : ℕ := (sfn.take 11).foldl addByte 0

/-- `Char.isWhitespace`, below 256. -/
def white (c : ℕ) : Bool := (0x09 ≤ c && c ≤ 0x0D) || (0x1C ≤ c && c ≤ 0x20) || c == 0xA0

def trimEnd (s : Units) : Units := s.rdropWhile white

/-- `lowercase()` of a unit below 256. -/
def lower (c : ℕ) : ℕ := if (0x41 ≤ c ∧ c ≤ 0x5A) ∨ (0xC0 ≤ c ∧ c ≤ 0xDE ∧ c ≠ 0xD7) then c + 32 else c

/-- A part of a short name, in the case that the entry's byte 12 says. -/
def caseOf (lowered : Bool) (raw : List UInt8) : Units :=
  let s := trimEnd (raw.map UInt8.toNat)
  if lowered then s.map lower else s

def shortName (e : Slot) (deleted : Bool) : Units :=
  let raw := if deleted then (e.take 11).set 0 0x5F else e.take 11
  let base := caseOf ((e.getD 12 0).toNat.testBit 3) (raw.take 8)
  let ext := caseOf ((e.getD 12 0).toNat.testBit 4) (raw.drop 8)
  if ext = [] then base else base ++ 0x2E :: ext

def partUnits (p : Slot) : Units :=
  [1, 3, 5, 7, 9, 14, 16, 18, 20, 22, 24, 28, 30].map (Bytes.ofList p).le16

/-- The long name from the parts before an entry, if their checksum matches it. They are taken in
the order in which they lie on the drive, which is last part first. -/
def longName (parts : List Slot) (sfn : Slot) : Option Units :=
  if parts = [] ∨ ∃ p ∈ parts, p.sum ≠ checksum sfn then none
  else some ((parts.reverse.flatMap partUnits).takeWhile fun ch => ch ≠ 0 ∧ ch ≠ 0xFFFF)

section Entries

variable (place : Locale)

def dosTime (date time : ℕ) : Option ℤ :=
  if date = 0 then none
  else place.clock (1980 + date / 2 ^ 9) (date / 2 ^ 5 % 16) (date % 32) (time / 2 ^ 11)
    (time / 2 ^ 5 % 64) (time % 32 * 2)

/-- The short name's first byte, which deletion overwrote, is the one that makes the checksum
match. -/
def restored (parts : List Slot) (e : Slot) : Slot :=
  let want := (parts.headD []).sum
  match (List.range' 0x20 224).find? fun b => checksum (e.set 0 (UInt8.ofNat b)) = want with
  | some b => e.set 0 (UInt8.ofNat b)
  | none => e.set 0 0xE5

/-- The entry of a slot that is neither a long-name part nor a label, with the parts before it. -/
def entryOf (parts : List Slot) (e : Slot) : Option FatEntry :=
  let deleted := e.first = 0xE5
  if ¬deleted ∧ e.first = 0x2E then none
  else
    let e := if deleted ∧ parts ≠ [] then restored parts e else e
    let short := shortName e (e.first = 0xE5)
    if short = [0x2E] ∨ short = [0x2E, 0x2E] then none
    else some
      { name := (longName parts e).getD short
        attr := e.attr
        firstCluster := e.firstCluster
        size := e.size
        deleted := deleted
        mtime := dosTime place ((Bytes.ofList e).le16 24) ((Bytes.ofList e).le16 22) }

/-- The loop of `entries`; `lfn` are the long-name parts met since the last other slot. -/
def entriesLoop : (lfn : List Slot) → List Slot → List FatEntry
  | _, [] => []
  | lfn, e :: rest =>
    if e.first = 0 then []
    else if e.attr = 0x0F then entriesLoop (lfn ++ [e]) rest
    else if e.attr.testBit 3 then entriesLoop [] rest
    else (entryOf place lfn e).toList ++ entriesLoop [] rest

def slotsOf (data : List UInt8) : List Slot :=
  (List.range (data.length / 32)).map fun k => (data.drop (32 * k)).take 32

def fatEntries (data : List UInt8) : List FatEntry := entriesLoop place [] (slotsOf data)

end Entries

end OtgMaster.Recovery
