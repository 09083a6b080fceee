import OtgMaster.Lib.Assemble
import OtgMaster.Luks.Unlocker

/-!
`LuksVolumeCreator.create` writes a LUKS2 header twice, a keyslot and zeros up to the data segment,
and returns the decrypted data segment.

The header is a buffer of pieces that do not touch one another (`headerWith_fields`), and its JSON
part goes through the parser field by field (`parse_luksJson`). So the parser reads the object that
was written (`parseLuks2_header`).
-/

namespace OtgMaster.Luks

open Lib Block Platform Veracrypt

/-! ### Creating -/

def HEADER_SIZE : ℕ := 16384

def BINARY_SIZE : ℕ := 4096

def KEYSLOTS_OFFSET : ℕ := 2 * HEADER_SIZE

/-- `16L shl 20`. -/
def DATA_OFFSET : ℕ := 16777216

def KEY_BYTES : ℕ := 64

def STRIPES : ℕ := 4000

def ARGON2_TIME : ℕ := 4

def ARGON2_MEMORY_KIB : ℕ := 262144

def ARGON2_LANES : ℕ := 1

def DIGEST_ITERATIONS : ℕ := 100000

def AF_BYTES : ℕ := STRIPES * KEY_BYTES

/-- `areaSize`: `afBytes` in whole 4 KiB. -/
def AREA_SIZE : ℕ := (AF_BYTES + 4095) / 4096 * 4096

def dataBytes (partitionBytes : ℤ) : ℤ := i64 (partitionBytes - DATA_OFFSET)

def decimal (n : ℕ) : List Char := Nat.toDigits 10 n

def unescape : List Char → List Char
  | '\\' :: '/' :: s => '/' :: unescape s
  | c :: s => c :: unescape s
  | [] => []

def keyslotJson (kdfSalt : List UInt8) : Fields :=
  [("type", .str "luks2".toList), ("key_size", .int KEY_BYTES),
    ("af", .obj [("type", .str "luks1".toList), ("stripes", .int STRIPES),
      ("hash", .str "sha256".toList)]),
    ("area", .obj [("type", .str "raw".toList), ("offset", .str (decimal KEYSLOTS_OFFSET)),
      ("size", .str (decimal AREA_SIZE)), ("encryption", .str "aes-xts-plain64".toList),
      ("key_size", .int KEY_BYTES)]),
    ("kdf", .obj [("type", .str "argon2id".toList), ("time", .int ARGON2_TIME),
      ("memory", .int ARGON2_MEMORY_KIB), ("cpus", .int ARGON2_LANES),
      ("salt", .str (Base64.encode kdfSalt))])]

def segmentJson : Fields :=
  [("type", .str "crypt".toList), ("offset", .str (decimal DATA_OFFSET)),
    ("size", .str "dynamic".toList), ("iv_tweak", .str ['0']),
    ("encryption", .str "aes-xts-plain64".toList), ("sector_size", .int 512)]

def digestJson (digestSalt digest : List UInt8) : Fields :=
  [("type", .str "pbkdf2".toList), ("keyslots", .arr [.str ['0']]), ("segments", .arr [.str ['0']]),
    ("hash", .str "sha256".toList), ("iterations", .int DIGEST_ITERATIONS),
    ("salt", .str (Base64.encode digestSalt)), ("digest", .str (Base64.encode digest))]

def luksJson (kdfSalt digestSalt digest : List UInt8) : Fields :=
  [("keyslots", .obj [("0", .obj (keyslotJson kdfSalt))]),
    ("tokens", .obj []),
    ("segments", .obj [("0", .obj segmentJson)]),
    ("digests", .obj [("0", .obj (digestJson digestSalt digest))]),
    ("config", .obj [("json_size", .str (decimal (HEADER_SIZE - BINARY_SIZE))),
      ("keyslots_size", .str (decimal (DATA_OFFSET - KEYSLOTS_OFFSET)))])]

abbrev Uuid := { b : List UInt8 // b.length = 36 }

section Programs

variable (jdk : Jdk) (native : Native)

def jsonText (o : Fields) : List Char := unescape (jdk.renderJson o)

def json (kdfSalt digestSalt digest : List UInt8) : E (List UInt8) := do
  let bytes := jdk.utf8Encode (jsonText jdk (luksJson kdfSalt digestSalt digest))
  require (bytes.length < HEADER_SIZE - BINARY_SIZE) "LUKS2 JSON too large"
  return bytes

/-- The fields of a header and their offsets, for the salt that `header` draws. -/
def headerPieces (json : List UInt8) (uuid : Uuid) (label : List Char) (hdrOffset : ℕ)
    (salt : List UInt8) : List (List UInt8 × ℕ) :=
  [(LUKS_MAGIC, 0), (bigEndian 2 2, 6), (bigEndian 8 HEADER_SIZE, 8), (bigEndian 8 1, 16),
    ((jdk.utf8Encode label).take 47, 24), ([0x73, 0x68, 0x61, 0x32, 0x35, 0x36], 72), (salt, 104),
    (uuid.1, 168), (bigEndian 8 hdrOffset, 256), (json, BINARY_SIZE)]

/-- The header with its checksum, which is taken over the header without it. -/
def headerWith (json : List UInt8) (uuid : Uuid) (label : List Char) (hdrOffset : ℕ)
    (salt : List UInt8) : List UInt8 :=
  let h := assemble (List.replicate HEADER_SIZE 0) (headerPieces jdk json uuid label hdrOffset salt)
  copyInto (jdk.digest .sha256 h) h 448

def header (json : List UInt8) (uuid : Uuid) (label : List Char) (hdrOffset : ℕ) : M (List UInt8) := do
  let salt ← nextBytes 64
  return headerWith jdk json uuid label hdrOffset salt

def diffuse (buf : List UInt8) : List UInt8 :=
  mapUnits (fun chunk unit => (jdk.digest .sha256 (bigEndian 4 chunk ++ unit)).take unit.length) 32
    (rounds buf.length 32) 0 buf

/-- The loop of `afSplit`: `k` stripes are drawn; the stripes and the last `buf`. -/
def afStripes : (k : ℕ) → (buf : List UInt8) → M (List UInt8 × List UInt8)
  | 0, buf => pure ([], buf)
  | k + 1, buf => do
    let stripe ← nextBytes buf.length
    let (out, last) ← afStripes k (diffuse jdk (xorBytes buf stripe))
    return (stripe ++ out, last)

def afSplit (key : List UInt8) (stripes : ℕ) : M (List UInt8) := do
  let (out, buf) ← afStripes jdk (stripes - 1) (List.replicate key.length 0)
  return out ++ xorBytes buf key

def argon2Key (password salt : List UInt8) : E (List UInt8) :=
  match native.argon2id password salt ARGON2_TIME ARGON2_MEMORY_KIB ARGON2_LANES KEY_BYTES with
  | .ok (some key) => pure key
  | .ok none => throw ⟨.illegalState, "Argon2id failed"⟩
  | .error message => throw ⟨.illegalState, message⟩

/-- The loop that writes zeros from `off` up to the data segment. -/
def zeroFill (partition : Slice) (off : ℕ) : M PUnit :=
  if off < DATA_OFFSET then do
    let n := min (2 ^ 20) (DATA_OFFSET - off)
    partition.writeBlocks (off / 512 : ℕ) (List.replicate n 0)
    zeroFill partition (off + n)
  else pure ⟨⟩
termination_by DATA_OFFSET - off

def create (partition : Slice) (password : List UInt8) (label : List Char) (uuid : Uuid) :
    M NativeDevice := do
  let w ← get
  require (w.blockSize = 512) "LUKS2 is created on 512-byte sectors only"
  let partitionBytes := i64 (partition.blockCount * 512)
  require (2 ^ 20 ≤ dataBytes partitionBytes) "The partition is too small for a LUKS2 volume."
  let masterKey ← nextBytes KEY_BYTES
  let kdfSalt ← nextBytes 32
  let slotKey ← argon2Key native password kdfSalt
  let area ← nextBytes AREA_SIZE
  let split ← afSplit jdk masterKey STRIPES
  let area := copyInto split area 0
  let area ← orThrow (native.cryptSectorsInPlace aesOnly .encrypt slotKey 0 area area.length)
    ⟨.illegalState, "keyslot encryption failed"⟩
  let digestSalt ← nextBytes 32
  let digest ← pbkdf2 jdk .sha256 masterKey digestSalt DIGEST_ITERATIONS 32
  let json ← json jdk kdfSalt digestSalt digest
  let primary ← header jdk json uuid label 0
  let secondary ← header jdk json uuid label HEADER_SIZE
  partition.writeBlocks 0 (primary ++ secondary)
  partition.writeBlocks (KEYSLOTS_OFFSET / 512 : ℕ) area
  zeroFill partition (KEYSLOTS_OFFSET + AREA_SIZE)
  return {
    blockSize := w.blockSize
    masterKey := masterKey
    volumeDataOffset := DATA_OFFSET / 512
    decryptedBlockCount := (dataBytes partitionBytes).toNat / 512
    cipherNativeIds := aesOnly
    tweakDataOffset := 0 }

end Programs

/-! ### The header -/

section Header

variable (jdk : Jdk) (json salt : List UInt8) (uuid : Uuid) (label : List Char) (hdrOffset : ℕ)

lemma headerPieces_fit (hsalt : salt.length = 64) (hjson : json.length ≤ HEADER_SIZE - BINARY_SIZE) :
    ∀ p ∈ headerPieces jdk json uuid label hdrOffset salt,
      p.2 + p.1.length ≤ (List.replicate HEADER_SIZE (0 : UInt8)).length := by
  have huuid := uuid.2
  rw [List.length_replicate]
  simp only [HEADER_SIZE, BINARY_SIZE] at hjson ⊢
  simp [headerPieces, LUKS_MAGIC, bigEndian_length, BINARY_SIZE, hsalt, huuid]
  omega

lemma headerWith_range (hsalt : salt.length = 64) (hjson : json.length ≤ HEADER_SIZE - BINARY_SIZE) :
    (headerWith jdk json uuid label hdrOffset salt).length = HEADER_SIZE ∧
      ∀ a n, a + n ≤ 448 ∨ 480 ≤ a → ((headerWith jdk json uuid label hdrOffset salt).drop a).take n =
        ((assemble (List.replicate HEADER_SIZE 0)
          (headerPieces jdk json uuid label hdrOffset salt)).drop a).take n := by
  unfold headerWith
  obtain ⟨l, hl⟩ :
      ∃ l, assemble (List.replicate HEADER_SIZE 0)
          (headerPieces jdk json uuid label hdrOffset salt) = l :=
    ⟨_, rfl⟩
  have hlen : l.length = 16384 := by
    rw [← hl, assemble_length (headerPieces_fit jdk json salt uuid label hdrOffset hsalt hjson),
      List.length_replicate]
    rfl
  have hdigest : (jdk.digest .sha256 l).length = 32 := jdk.digest_length ..
  simp only [hl]
  exact ⟨(copyInto_length (by omega)).trans hlen,
    fun a n h => range_copyInto_outside (by omega) (by omega)⟩

/-- **What the parser reads from a header.** -/
lemma headerWith_fields (hsalt : salt.length = 64) (hjson : json.length ≤ HEADER_SIZE - BINARY_SIZE) :
    ∃ k, (headerWith jdk json uuid label hdrOffset salt).length = HEADER_SIZE ∧
      (headerWith jdk json uuid label hdrOffset salt).take 6 = LUKS_MAGIC ∧
      ((headerWith jdk json uuid label hdrOffset salt).drop 6).take 2 = bigEndian 2 2 ∧
      ((headerWith jdk json uuid label hdrOffset salt).drop 8).take 8 = bigEndian 8 HEADER_SIZE ∧
      (headerWith jdk json uuid label hdrOffset salt).drop BINARY_SIZE = json ++ List.replicate k 0 := by
  have hfit := headerPieces_fit jdk json salt uuid label hdrOffset hsalt hjson
  have huuid := uuid.2
  -- no later piece touches these
  have hmagic := range_assemble (i := 0) (p := (LUKS_MAGIC, 0)) rfl hfit
    (by simp [headerPieces, LUKS_MAGIC, BINARY_SIZE])
  have hversion := range_assemble (i := 1) (p := (bigEndian 2 2, 6)) rfl hfit
    (by simp [headerPieces, bigEndian_length, BINARY_SIZE])
  have hsize := range_assemble (i := 2) (p := (bigEndian 8 HEADER_SIZE, 8)) rfl hfit
    (by simp [headerPieces, bigEndian_length, BINARY_SIZE])
  have htext := range_assemble (i := 9) (p := (json, BINARY_SIZE)) rfl hfit (by simp [headerPieces])
  have hrest := range_assemble_outside (a := BINARY_SIZE + json.length)
    (n := HEADER_SIZE - BINARY_SIZE - json.length) hfit (by
      simp [headerPieces, LUKS_MAGIC, bigEndian_length, BINARY_SIZE, hsalt, huuid]
      omega)
  obtain ⟨hlen, hrange⟩ := headerWith_range jdk json salt uuid label hdrOffset hsalt hjson
  refine ⟨HEADER_SIZE - BINARY_SIZE - json.length, hlen, (hrange 0 6 (by decide)).trans hmagic,
    (hrange 6 2 (by decide)).trans hversion, (hrange 8 8 (by decide)).trans hsize, ?_⟩
  obtain ⟨l, hl⟩ : ∃ l, headerWith jdk json uuid label hdrOffset salt = l := ⟨_, rfl⟩
  rw [hl] at hlen hrange ⊢
  rw [← List.take_append_drop json.length (l.drop BINARY_SIZE), List.drop_drop,
    (hrange BINARY_SIZE json.length (Or.inr (by decide))).trans htext,
    ← List.take_of_length_le (i := HEADER_SIZE - BINARY_SIZE - json.length)
      (l := l.drop (BINARY_SIZE + json.length)) (by rw [List.length_drop]; omega),
    hrange _ _ (Or.inr (Nat.le_add_right_of_le (by decide))), hrest, List.drop_replicate,
    List.take_replicate, Nat.sub_sub, Nat.min_self]

end Header

/-! ### The JSON object -/

lemma decodeBase64_encode (bytes : List UInt8) : decodeBase64 (Base64.encode bytes) = .ok bytes := by
  rw [decodeBase64, Base64.decode_encode]
  rfl

lemma parseSegment_created (jdk : Jdk) :
    parseSegment jdk segmentJson = .ok ⟨"aes".toList, "xts-plain64".toList, DATA_OFFSET, 512, 0⟩ := by
  unfold parseSegment
  rw [except_bind_run (getString_run rfl)]
  dsimp only
  rw [except_bind_run (getString_run rfl),
    except_bind_run (a := (DATA_OFFSET : ℤ)) (show toLong (decimal DATA_OFFSET) = _ by decide +kernel)]
  rfl

lemma parseKdf_created (jdk : Jdk) (kdfSalt : List UInt8) :
    parseKdf jdk [("type", .str "argon2id".toList), ("time", .int ARGON2_TIME),
      ("memory", .int ARGON2_MEMORY_KIB), ("cpus", .int ARGON2_LANES),
        ("salt", .str (Base64.encode kdfSalt))] =
        .ok (some (.argon2id ARGON2_TIME ARGON2_MEMORY_KIB ARGON2_LANES kdfSalt)) := by
  unfold parseKdf
  rw [except_bind_run (getString_run rfl), if_pos (Or.inl rfl), except_bind_run (getInt_run rfl),
    except_bind_run (getInt_run rfl), except_bind_run (getInt_run rfl),
    except_bind_run (getString_run rfl), except_bind_run (decodeBase64_encode kdfSalt)]
  rfl

def createdKeyslot (kdfSalt : List UInt8) : Luks2Keyslot :=
  ⟨0, KEY_BYTES, KEYSLOTS_OFFSET, AREA_SIZE, "aes-xts-plain64".toList, KEY_BYTES, STRIPES,
    "sha256".toList, .argon2id ARGON2_TIME ARGON2_MEMORY_KIB ARGON2_LANES kdfSalt⟩

lemma parseKeyslot_created (jdk : Jdk) (kdfSalt : List UInt8) :
    parseKeyslot jdk "0" (keyslotJson kdfSalt) = .ok (some (createdKeyslot kdfSalt)) := by
  unfold parseKeyslot
  rw [except_bind_run (a := 0) (show toInt "0".toList = _ by decide +kernel),
    except_bind_run (getInt_run rfl), except_bind_run (getJSONObject_run rfl),
    except_bind_run (getString_run rfl),
    except_bind_run (a := (KEYSLOTS_OFFSET : ℤ)) (by decide +kernel),
    except_bind_run (getString_run rfl), except_bind_run (a := (AREA_SIZE : ℤ)) (by decide +kernel),
    except_bind_run (getString_run rfl), except_bind_run (getInt_run rfl),
    except_bind_run (getJSONObject_run rfl), except_bind_run (getInt_run rfl),
    except_bind_run (getString_run rfl), except_bind_run (getJSONObject_run rfl),
    except_bind_run (parseKdf_created jdk kdfSalt)]
  rfl

lemma parseDigest_created (jdk : Jdk) (digestSalt digest : List UInt8) :
    parseDigest jdk (digestJson digestSalt digest) =
      .ok ⟨"sha256".toList, DIGEST_ITERATIONS, digestSalt, digest⟩ := by
  unfold parseDigest
  rw [except_bind_run (getString_run rfl), except_bind_run (getInt_run rfl),
    except_bind_run (getString_run rfl), except_bind_run (decodeBase64_encode digestSalt),
    except_bind_run (getString_run rfl), except_bind_run (decodeBase64_encode digest)]
  rfl

/-- **The JSON part is read back.** -/
lemma parse_luksJson (jdk : Jdk) (kdfSalt digestSalt digest : List UInt8) :
    parseLuks2Json jdk (luksJson kdfSalt digestSalt digest) = .ok {
      cipherName := "aes".toList
      cipherMode := "xts-plain64".toList
      payloadOffsetSectors := DATA_OFFSET / 512
      keyBytes := KEY_BYTES
      sectorSize := 512
      ivTweak := 0
      keyslots := [createdKeyslot kdfSalt]
      digest := ⟨"sha256".toList, DIGEST_ITERATIONS, digestSalt, digest⟩ } := by
  have hseg : findSegment jdk [("0", .obj segmentJson)]
      (List.map Prod.fst [("0", Json.obj segmentJson)]) = .ok _ :=
    parseSegment_created jdk
  have hdig : findDigest jdk [("0", .obj (digestJson digestSalt digest))]
      (List.map Prod.fst [("0", Json.obj (digestJson digestSalt digest))]) = .ok _ :=
    parseDigest_created jdk digestSalt digest
  have hslot : parseKeyslots jdk [("0", .obj (keyslotJson kdfSalt))]
      (List.map Prod.fst [("0", Json.obj (keyslotJson kdfSalt))]) = .ok [createdKeyslot kdfSalt] := by
    rw [List.map_cons, List.map_nil, parseKeyslots, except_bind_run (getJSONObject_run rfl),
      except_bind_run (getString_run rfl), if_neg (not_not.2 rfl),
      except_bind_run (parseKeyslot_created jdk kdfSalt)]
    rfl
  unfold parseLuks2Json luksJson
  rw [except_bind_run (getJSONObject_run rfl), except_bind_run hseg,
    except_bind_run (getJSONObject_run rfl), except_bind_run hslot,
    except_bind_run (getJSONObject_run rfl), except_bind_run hdig]
  rfl

/-! ### The text -/

section Text

variable {jdk : Jdk} {o : Fields}

/-- What is assumed of the libraries for the object that is written: its text fits into the header,
ends in a brace and is read back, also where NUL bytes follow it. -/
structure ReadsBack (jdk : Jdk) (o : Fields) : Prop where
  fits : (jdk.utf8Encode (jsonText jdk o)).length < HEADER_SIZE - BINARY_SIZE
  reads : jdk.parseJson (jsonText jdk o) = some o
  ends : (jsonText jdk o).getLast? = some '}'
  utf8 : ∀ k, jdk.utf8Decode (jdk.utf8Encode (jsonText jdk o) ++ List.replicate k 0) =
    jsonText jdk o ++ List.replicate k (Char.ofNat 0)

/-- **The header is read back**, from data that starts with it. -/
lemma parseLuks2_header (hreads : ReadsBack jdk o) {salt : List UInt8} (hsalt : salt.length = 64)
    (uuid : Uuid) (label : List Char) (hdrOffset : ℕ) (rest : List UInt8) :
    getVersion (headerWith jdk (jdk.utf8Encode (jsonText jdk o)) uuid label hdrOffset salt ++ rest) = 2 ∧
      parseLuks2 jdk (headerWith jdk (jdk.utf8Encode (jsonText jdk o)) uuid label hdrOffset salt ++
        rest) =
        parseLuks2Json jdk o := by
  obtain ⟨k, hlen, hmagic, hversion, hsize, htext⟩ :=
    headerWith_fields jdk (jdk.utf8Encode (jsonText jdk o)) salt
    uuid label hdrOffset hsalt hreads.fits.le
  obtain ⟨h, hh⟩ : ∃ h, headerWith jdk (jdk.utf8Encode (jsonText jdk o)) uuid label hdrOffset salt =
    h := ⟨_, rfl⟩
  rw [hh] at hlen hmagic hversion hsize htext ⊢
  simp only [HEADER_SIZE] at hlen
  -- a field of the data is one of the header
  have hfield : ∀ a n, a + n ≤ 16384 → ((h ++ rest).drop a).take n = (h.drop a).take n := by
    intro a n ha
    rw [List.drop_append_of_le_length (by omega),
      List.take_append_of_le_length (by rw [List.length_drop]; omega)]
  have hversion' : getVersion (h ++ rest) = 2 := by
    rw [getVersion, if_neg (by rw [List.length_append]; omega), hfield 6 2 (by decide), hversion]
    decide
  have hmagic' : hasLuksMagic (h ++ rest) = true := by
    rw [hasLuksMagic, List.take_append_of_le_length (by omega), hmagic]
    decide
  have hsize' : i64 (beNat (((h ++ rest).drop 8).take 8)) = (16384 : ℕ) := by
    rw [hfield 8 8 (by decide), hsize]
    decide
  refine ⟨hversion', parseLuks2_run hmagic' hversion' hsize' (by decide)
    (by rw [List.length_append]; omega) ?_ (hreads.utf8 k) hreads.ends hreads.reads⟩
  rw [hfield _ _ (by decide), List.take_of_length_le (by rw [List.length_drop, hlen])]
  exact htext

end Text

end OtgMaster.Luks
