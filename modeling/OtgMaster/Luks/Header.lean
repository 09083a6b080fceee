import OtgMaster.Lib.Base64
import OtgMaster.Platform.Json
import OtgMaster.Veracrypt.NativeDevice

/-!
The headers of LUKS1 and LUKS2 and `LuksParser`, which reads them.

A LUKS2 header is a binary part and a text in JSON. The parser is lenient in one place: where no
digest of type `pbkdf2` is found, the digest of the header is the empty one it started with.
-/

namespace OtgMaster.Luks

open Lib Block Platform Veracrypt

/-! ### The platform -/

inductive Sha where
  | sha1
  | sha256
  | sha512
  deriving DecidableEq

def Sha.digestLength : Sha → ℕ
  | sha1 => 20
  | sha256 => 32
  | sha512 => 64

/-- The libraries of the platform: digests and MACs, texts, and the native context of a device with
large sectors. -/
structure Jdk extends Texts where
  digest : Sha → List UInt8 → List UInt8
  hmac : Sha → (key message : List UInt8) → List UInt8
  /-- `BitLockerNative.newContext` for XTS with sectors of this size succeeds. -/
  newXtsContext : Key → ℤ → Bool
  digest_length : ∀ a m, (digest a m).length = a.digestLength
  hmac_length : ∀ a k m, (hmac a k m).length = a.digestLength

section Numbers

/-- A decimal numeral between `lo` and `hi`. -/
def parseInteger (lo hi : ℤ) (s : List Char) : Option ℤ :=
  let (negative, digits) := match s with
    | '-' :: t => (true, t)
    | '+' :: t => (false, t)
    | t => (false, t)
  if digits.isEmpty || digits.any (!·.isDigit) then none
  else
    let n : ℤ := digits.foldl (fun n c => n * 10 + (c.toNat - 48)) 0
    let v := if negative then -n else n
    if lo ≤ v ∧ v ≤ hi then some v else none

def numberFormat (s : List Char) : Thrown := ⟨.numberFormat, "For input string: " ++ String.ofList s⟩

def toLong (s : List Char) : E ℤ := orThrow (parseInteger (-2 ^ 63) (2 ^ 63 - 1) s) (numberFormat s)

def toInt (s : List Char) : E ℤ := orThrow (parseInteger (-2 ^ 31) (2 ^ 31 - 1) s) (numberFormat s)

def decodeBase64 (s : List Char) : E (List UInt8) :=
  orThrow (Base64.decode s) ⟨.illegalArgument, "Illegal base64 character"⟩

end Numbers

/-! ### The headers -/

structure Luks1Keyslot where
  index : ℕ
  active : Bool
  iterations : ℤ
  salt : List UInt8
  keyMaterialOffsetSectors : ℕ
  stripes : ℤ

structure Luks1 where
  cipherName : List Char
  cipherMode : List Char
  hashSpec : List Char
  payloadOffsetSectors : ℕ
  keyBytes : ℤ
  mkDigest : List UInt8
  mkDigestSalt : List UInt8
  mkDigestIter : ℤ
  keyslots : List Luks1Keyslot

/-- What tells the two kinds of LUKS2 keyslots apart. -/
inductive Luks2Kdf where
  | argon2id (timeCost memoryCostKiB parallelism : ℤ) (salt : List UInt8)
  | pbkdf2 (hash : List Char) (iterations : ℤ) (salt : List UInt8)

structure Luks2Keyslot where
  index : ℤ
  keySize : ℤ
  areaOffsetBytes : ℤ
  areaSizeBytes : ℤ
  areaEncryption : List Char
  areaKeySize : ℤ
  afStripes : ℤ
  afHash : List Char
  kdf : Luks2Kdf

structure Luks2Digest where
  hash : List Char
  iterations : ℤ
  salt : List UInt8
  digest : List UInt8

structure Luks2 where
  cipherName : List Char
  cipherMode : List Char
  payloadOffsetSectors : ℤ
  keyBytes : ℤ
  sectorSize : ℤ
  ivTweak : ℤ
  keyslots : List Luks2Keyslot
  digest : Luks2Digest

/-! ### Reading them -/

def LUKS_MAGIC : List UInt8 := [0x4C, 0x55, 0x4B, 0x53, 0xBA, 0xBE]

def LUKS2_BINARY_HDR_SIZE : ℕ := 4096

def hasLuksMagic (data : List UInt8) : Bool := data.take 6 = LUKS_MAGIC

def getVersion (data : List UInt8) : ℤ :=
  if data.length < 8 then -1 else beNat ((data.drop 6).take 2)

def intAt (data : List UInt8) (o : ℕ) : ℤ := i32 (beNat ((data.drop o).take 4))

def uintAt (data : List UInt8) (o : ℕ) : ℕ := beNat ((data.drop o).take 4)

/-- `nullTermString`; a byte that is not ASCII is decoded as the replacement character. -/
def nullTermString (data : List UInt8) (offset maxLen : ℕ) : List Char :=
  (((data.drop offset).take maxLen).takeWhile (· ≠ 0)).map fun b =>
    if b < 128 then Char.ofNat b.toNat else Char.ofNat 0xFFFD

def check (c : Prop) [Decidable c] (message : String) : E PUnit := failIf (¬c) ⟨.illegalState, message⟩

def luks1Keyslot (data : List UInt8) (i : ℕ) : Luks1Keyslot :=
  let base := 208 + i * 48
  { index := i
    active := uintAt data base = 0x00AC71F3
    iterations := intAt data (base + 4)
    salt := (data.drop (base + 8)).take 32
    keyMaterialOffsetSectors := uintAt data (base + 40)
    stripes := intAt data (base + 44) }

def parseLuks1 (data : List UInt8) : E Luks1 := do
  require (592 ≤ data.length) s!"LUKS1 header too short: {data.length}"
  check (hasLuksMagic data = true) "Not a LUKS volume"
  check (getVersion data = 1) s!"Expected LUKS version 1, got {getVersion data}"
  return {
    cipherName := nullTermString data 8 32
    cipherMode := nullTermString data 40 32
    hashSpec := nullTermString data 72 32
    payloadOffsetSectors := uintAt data 104
    keyBytes := intAt data 108
    mkDigest := (data.drop 112).take 20
    mkDigestSalt := (data.drop 132).take 32
    mkDigestIter := intAt data 164
    keyslots := (List.range 8).map (luks1Keyslot data) }

structure Segment where
  cipherName : List Char := []
  cipherMode : List Char := []
  payloadOffBytes : ℤ := 0
  sectorSize : ℤ := 512
  ivTweak : ℤ := 0

section Parser

variable (jdk : Jdk)

def parseSegment (seg : Fields) : E Segment := do
  let encryption ← getString jdk.toTexts seg "encryption"
  let parts := encryption.splitOn '-'
  let offset ← getString jdk.toTexts seg "offset"
  let payloadOffBytes ← toLong offset
  let sectorSize := optInt jdk.toTexts seg "sector_size" 512
  let ivTweak ← toLong (optString jdk.toTexts seg "iv_tweak" ['0'])
  return {
    cipherName := parts.headD "aes".toList
    cipherMode :=
      if 1 < parts.length then List.intercalate ['-'] (parts.drop 1) else "xts-plain64".toList
    payloadOffBytes, sectorSize, ivTweak }

def findSegment (segments : Fields) : List String → E Segment
  | [] => pure {}
  | key :: keys => do
    let seg ← getJSONObject segments key
    let type ← getString jdk.toTexts seg "type"
    if type = "crypt".toList then parseSegment jdk seg else findSegment segments keys

def parseKdf (kdf : Fields) : E (Option Luks2Kdf) := do
  let type ← getString jdk.toTexts kdf "type"
  if type = "argon2id".toList ∨ type = "argon2i".toList then
    let time ← getInt jdk.toTexts kdf "time"
    let memory ← getInt jdk.toTexts kdf "memory"
    let cpus ← getInt jdk.toTexts kdf "cpus"
    let salt ← getString jdk.toTexts kdf "salt"
    let salt ← decodeBase64 salt
    return some (.argon2id time memory cpus salt)
  else if type = "pbkdf2".toList then
    let hash ← getString jdk.toTexts kdf "hash"
    let iterations ← getInt jdk.toTexts kdf "iterations"
    let salt ← getString jdk.toTexts kdf "salt"
    let salt ← decodeBase64 salt
    return some (.pbkdf2 hash iterations salt)
  else return none

def parseKeyslot (key : String) (ksl : Fields) : E (Option Luks2Keyslot) := do
  let index ← toInt key.toList
  let keySize ← getInt jdk.toTexts ksl "key_size"
  let area ← getJSONObject ksl "area"
  let areaOff ← getString jdk.toTexts area "offset"
  let areaOff ← toLong areaOff
  let areaSize ← getString jdk.toTexts area "size"
  let areaSize ← toLong areaSize
  let areaEnc ← getString jdk.toTexts area "encryption"
  let areaKsz ← getInt jdk.toTexts area "key_size"
  let af ← getJSONObject ksl "af"
  let afStripes ← getInt jdk.toTexts af "stripes"
  let afHash ← getString jdk.toTexts af "hash"
  let kdf ← getJSONObject ksl "kdf"
  let kdf ← parseKdf jdk kdf
  return kdf.map fun kdf => ⟨index, keySize, areaOff, areaSize, areaEnc, areaKsz, afStripes, afHash, kdf⟩

def parseKeyslots (keyslots : Fields) : List String → E (List Luks2Keyslot)
  | [] => pure []
  | key :: keys => do
    let ksl ← getJSONObject keyslots key
    let type ← getString jdk.toTexts ksl "type"
    if type ≠ "luks2".toList then parseKeyslots keyslots keys
    else do
      let slot ← parseKeyslot jdk key ksl
      let slots ← parseKeyslots keyslots keys
      return slot.toList ++ slots

def parseDigest (d : Fields) : E Luks2Digest := do
  let hash ← getString jdk.toTexts d "hash"
  let iterations ← getInt jdk.toTexts d "iterations"
  let salt ← getString jdk.toTexts d "salt"
  let salt ← decodeBase64 salt
  let digest ← getString jdk.toTexts d "digest"
  let digest ← decodeBase64 digest
  return ⟨hash, iterations, salt, digest⟩

/-- The first digest of type `pbkdf2`, or the empty one. -/
def findDigest (digests : Fields) : List String → E Luks2Digest
  | [] => pure ⟨"sha256".toList, 0, [], []⟩
  | key :: keys => do
    let d ← getJSONObject digests key
    let type ← getString jdk.toTexts d "type"
    if type = "pbkdf2".toList then parseDigest jdk d else findDigest digests keys

def trimEnd (s : List Char) : List Char := (s.reverse.dropWhile (· = Char.ofNat 0)).reverse

/-- The part of `parseLuks2` that reads the JSON object. -/
def parseLuks2Json (json : Fields) : E Luks2 := do
  let segsJson ← getJSONObject json "segments"
  let seg ← findSegment jdk segsJson (segsJson.map Prod.fst)
  let kslJson ← getJSONObject json "keyslots"
  let keyslots ← parseKeyslots jdk kslJson (kslJson.map Prod.fst)
  let digsJson ← getJSONObject json "digests"
  let digest ← findDigest jdk digsJson (digsJson.map Prod.fst)
  return {
    cipherName := seg.cipherName
    cipherMode := seg.cipherMode
    payloadOffsetSectors := seg.payloadOffBytes.tdiv 512
    keyBytes := (keyslots.head?.map (·.keySize)).getD 64
    sectorSize := seg.sectorSize
    ivTweak := seg.ivTweak
    keyslots, digest }

def parseLuks2 (data : List UInt8) : E Luks2 := do
  require (LUKS2_BINARY_HDR_SIZE ≤ data.length) s!"LUKS2 data too short: {data.length}"
  check (hasLuksMagic data = true) "Not a LUKS volume"
  check (getVersion data = 2) s!"Expected LUKS version 2, got {getVersion data}"
  let hdrSize := i64 (beNat ((data.drop 8).take 8))
  failIf (hdrSize ≤ LUKS2_BINARY_HDR_SIZE) ⟨.unsupportedFormat,
    s!"LUKS2 header size {hdrSize} is not larger than the " ++
      s!"{LUKS2_BINARY_HDR_SIZE}-byte binary header"⟩
  let jsonEnd := min hdrSize data.length
  let jsonBytes ← copyOfRange data LUKS2_BINARY_HDR_SIZE jsonEnd
  let json ← orThrow (jdk.parseJson (trimEnd (jdk.utf8Decode jsonBytes))) ⟨.json, "JSONException"⟩
  parseLuks2Json jdk json

end Parser

/-! ### The text in a header -/

lemma trimEnd_append {s : List Char} {c : Char} (h : s.getLast? = some c) (hc : c ≠ Char.ofNat 0)
    (k : ℕ) : trimEnd (s ++ List.replicate k (Char.ofNat 0)) = s := by
  obtain ⟨t, rfl⟩ := List.getLast?_eq_some_iff.1 h
  have hzeros : ∀ l : List Char, (List.replicate k (Char.ofNat 0) ++ c :: l).dropWhile
      (· = Char.ofNat 0) = c :: l := by
    intro l
    induction k with
    | zero => simp [hc]
    | succ k ih => simpa [List.replicate_succ, List.dropWhile] using ih
  rw [trimEnd, List.reverse_append, List.reverse_replicate, List.reverse_append, List.reverse_singleton,
    List.singleton_append, hzeros]
  simp

/-- A text that NUL bytes follow, in the part of the data that the binary header says. -/
lemma parseLuks2_run {jdk : Jdk} {data text : List UInt8} {s : List Char} {o : Fields} {size k : ℕ}
    (hmagic : hasLuksMagic data = true) (hversion : getVersion data = 2)
    (hsize : i64 (beNat ((data.drop 8).take 8)) = size)
    (hlo : LUKS2_BINARY_HDR_SIZE < size) (hhi : size ≤ data.length)
    (htext : (data.drop LUKS2_BINARY_HDR_SIZE).take (size - LUKS2_BINARY_HDR_SIZE) =
      text ++ List.replicate k 0)
    (hutf8 : jdk.utf8Decode (text ++ List.replicate k 0) = s ++ List.replicate k (Char.ofNat 0))
    (hlast : s.getLast? = some '}') (hparse : jdk.parseJson s = some o) :
    parseLuks2 jdk data = parseLuks2Json jdk o := by
  have hend : min (size : ℤ) (data.length : ℕ) = size := by omega
  unfold parseLuks2
  rw [except_bind_run (require_run (hlo.le.trans hhi)), check, check,
    failIf_bind_run (not_not.2 hmagic), failIf_bind_run (not_not.2 hversion), hsize]
  dsimp only
  rw [failIf_bind_run (not_le.2 (Int.ofNat_lt.2 hlo)), hend,
    except_bind_run (copyOfRange_run hlo.le hhi), htext, hutf8, trimEnd_append hlast (by decide),
    hparse]
  rfl

end OtgMaster.Luks
