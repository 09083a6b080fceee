import OtgMaster.Lib.Units
import OtgMaster.Veracrypt.NativeDevice

/-!
`VeraCryptNative` and the cascade under it: the header of a volume crypted under a key derived from
the password, a run of sectors crypted under the master key, and Argon2id for the keyslots of LUKS2.

The ciphers and the key derivations come from libraries. `Native` says what is assumed of them: they
are functions of their arguments, they keep lengths, and XTS decryption undoes XTS encryption for
one cipher. That a cascade of them is undone, and a run of sectors, is proved here.
-/

namespace OtgMaster.Veracrypt

open Lib

inductive SingleCipher where
  | aes
  | serpent
  | twofish
  deriving DecidableEq

def SingleCipher.nativeId : SingleCipher → ℕ
  | aes => 0
  | serpent => 1
  | twofish => 2

/-- The ids that `stageInit` knows. -/
def SingleCipher.ofNativeId : ℕ → Option SingleCipher
  | 0 => some aes
  | 1 => some serpent
  | 2 => some twofish
  | _ => none

/-- The libraries: Argon2id (its own message when it fails), PBKDF2 with HMAC-SHA-512, and XTS of
one cipher over one data unit under a data key and a tweak key. -/
structure Native where
  argon2idHashRaw : (timeCost memoryKiB lanes : ℤ) → (password salt : Key) → (outLen : ℕ) →
    Except String Key
  pbkdf2HmacSha512 : (password salt : Key) → (iterations : ℤ) → (keyLen : ℕ) → Option Key
  xts : SingleCipher → Direction → (primary secondary : Key) → (unit : ℕ) → List UInt8 → List UInt8
  argon2id_length : ∀ {t m p pwd salt n key}, argon2idHashRaw t m p pwd salt n = .ok key → key.length = n
  pbkdf2_length : ∀ {pwd salt i n key}, pbkdf2HmacSha512 pwd salt i n = some key → key.length = n
  xts_length : ∀ c d k t u b, (xts c d k t u b).length = b.length
  xts_undo : ∀ c k t u b, b.length % 16 = 0 → xts c .decrypt k t u (xts c .encrypt k t u b) = b

/-! ### The cascade -/

/-- One cipher of a cascade with its 32-byte keys. -/
structure CascadeStage where
  cipher : SingleCipher
  primary : Key
  secondary : Key

def maxCascade : ℕ := 3

/-- `vc_cascade_new`: all primary keys come first, then all secondary ones. -/
def vcCascadeNew (ids : List ℕ) (key : Key) : Option (List CascadeStage) :=
  if ids.length < 1 ∨ maxCascade < ids.length ∨ key.length < 64 * ids.length then none
  else ids.zipIdx.mapM fun (id, i) =>
    (SingleCipher.ofNativeId id).map fun c =>
      ⟨c, (key.drop (32 * i)).take 32, (key.drop (32 * (ids.length + i))).take 32⟩

namespace Native

variable (native : Native)

def stageCrypt (dir : Direction) (unit : ℕ) (buf : List UInt8) (s : CascadeStage) : List UInt8 :=
  native.xts s.cipher dir s.primary s.secondary unit buf

/-- `vc_cascade_encrypt_unit` and `vc_cascade_decrypt_unit`: the second runs the list backwards. -/
def cryptUnit (cascade : List CascadeStage) (dir : Direction) (unit : ℕ) (buf : List UInt8) :
    List UInt8 :=
  match dir with
  | .encrypt => cascade.foldl (native.stageCrypt .encrypt unit) buf
  | .decrypt => cascade.reverse.foldl (native.stageCrypt .decrypt unit) buf

lemma foldl_stageCrypt_length (dir : Direction) (unit : ℕ) (stages : List CascadeStage)
    (buf : List UInt8) : (stages.foldl (native.stageCrypt dir unit) buf).length = buf.length := by
  induction stages generalizing buf with
  | nil => rfl
  | cons s stages ih => rw [List.foldl_cons, ih]; exact native.xts_length ..

@[simp] lemma cryptUnit_length (cascade : List CascadeStage) (dir : Direction) (unit : ℕ)
    (buf : List UInt8) : (native.cryptUnit cascade dir unit buf).length = buf.length := by
  cases dir <;> exact native.foldl_stageCrypt_length ..

lemma cryptUnit_undo (cascade : List CascadeStage) (unit : ℕ) (buf : List UInt8)
    (h : buf.length % 16 = 0) :
    native.cryptUnit cascade .decrypt unit (native.cryptUnit cascade .encrypt unit buf) = buf := by
  show cascade.reverse.foldl _ (cascade.foldl _ buf) = buf
  induction cascade generalizing buf with
  | nil => rfl
  | cons s cascade ih =>
    have hs : (native.stageCrypt .encrypt unit buf s).length % 16 = 0 := by
      rw [stageCrypt, native.xts_length, h]
    rw [List.reverse_cons, List.foldl_append, List.foldl_cons (l := cascade), ih _ hs]
    exact native.xts_undo _ _ _ _ _ h

/-! ### The header -/

def kdfPbkdf2Sha512 : ℕ := 0

def kdfArgon2id : ℕ := 1

def headerEncryptedSize : ℕ := 448

def argon2HeaderKeydataSize : ℕ := 192

/-- The key derivation of `cryptHeader`: an error is the exception that a failing Argon2id
throws. -/
def headerKey (kdf : ℕ) (password salt : Key) (iterations memoryKiB : ℤ) (keyBytes : ℕ) :
    Except String (Option Key) :=
  if kdf = kdfArgon2id then
    (native.argon2idHashRaw iterations memoryKiB 1 password salt argon2HeaderKeydataSize).map some
  else if kdf = kdfPbkdf2Sha512 then .ok (native.pbkdf2HmacSha512 password salt iterations keyBytes)
  else .ok none

/-- `cryptHeader`: `decryptHeader` and `encryptHeader` by direction; `none` for `null`. -/
def cryptHeader (ids : List ℕ) (kdf : ℕ) (password salt : Key) (iterations memoryKiB : ℤ)
    (header : List UInt8) (dir : Direction) : Except String (Option (List UInt8)) :=
  if ids.length < 1 ∨ maxCascade < ids.length ∨ header.length < headerEncryptedSize then .ok none
  else (native.headerKey kdf password salt iterations memoryKiB (64 * ids.length)).map fun key? => do
    let key ← key?
    let cascade ← vcCascadeNew ids (key.take (64 * ids.length))
    return native.cryptUnit cascade dir 0 (header.take headerEncryptedSize)

/-- **The header is read back**: what was encrypted is decrypted under the same password and
salt. -/
theorem cryptHeader_undo {ids : List ℕ} {kdf : ℕ} {password salt : Key} {iterations memoryKiB : ℤ}
    {header enc : List UInt8} (hlen : header.length = headerEncryptedSize)
    (h : native.cryptHeader ids kdf password salt iterations memoryKiB header .encrypt =
      .ok (some enc)) : enc.length = headerEncryptedSize ∧
      native.cryptHeader ids kdf password salt iterations memoryKiB enc .decrypt =
        .ok (some header) := by
  unfold cryptHeader at h
  split at h
  · cases h
  rename_i hids
  cases hkey : native.headerKey kdf password salt iterations memoryKiB (64 * ids.length) with
  | error e => rw [hkey] at h; cases h
  | ok key? =>
    rw [hkey] at h
    obtain ⟨key, hkey?, h⟩ := Option.bind_eq_some_iff.1 (Except.ok.inj h)
    obtain ⟨cascade, hcascade, h⟩ := Option.bind_eq_some_iff.1 h
    cases h
    have henc : (native.cryptUnit cascade .encrypt 0 (header.take headerEncryptedSize)).length =
        headerEncryptedSize := by
      rw [cryptUnit_length, List.length_take, hlen, Nat.min_self]
    refine ⟨henc, ?_⟩
    unfold cryptHeader
    rw [if_neg (by rw [henc]; rw [hlen] at hids; exact hids), hkey]
    show Except.ok (key?.bind fun key => _) = _
    rw [hkey?]
    show Except.ok ((vcCascadeNew ids (key.take (64 * ids.length))).bind fun cascade => _) = _
    rw [hcascade]
    show Except.ok (some (native.cryptUnit cascade .decrypt 0 _)) = _
    rw [List.take_of_length_le (Nat.le_of_eq henc), List.take_of_length_le (Nat.le_of_eq hlen),
      native.cryptUnit_undo _ _ _ (by rw [hlen]; rfl)]

/-! ### Sectors -/

/-- `cryptSectorsInPlace` over the first `length` bytes of `buffer`; `none` for an error code. -/
def cryptSectorsInPlace (ids : List ℕ) (dir : Direction) (masterKey : Key) (startSector : ℕ)
    (buffer : List UInt8) (length : ℤ) : Option (List UInt8) :=
  if ids.length < 1 ∨ maxCascade < ids.length then none
  else if length ≤ 0 ∨ length % 512 ≠ 0 then none
  else if (buffer.length : ℤ) < length then none
  else (vcCascadeNew ids masterKey).map fun cascade =>
    mapUnits (fun i => native.cryptUnit cascade dir (i % 2 ^ 64)) 512 (length / 512).toNat
      startSector buffer

lemma cryptSectorsInPlace_length {ids : List ℕ} {dir : Direction} {key : Key} {start : ℕ}
    {buffer out : List UInt8} {length : ℤ}
    (h : native.cryptSectorsInPlace ids dir key start buffer length = some out) :
    out.length = buffer.length := by
  unfold cryptSectorsInPlace at h
  split at h
  · cases h
  split at h
  · cases h
  split at h
  · cases h
  obtain ⟨cascade, -, rfl⟩ := Option.map_eq_some_iff.1 h
  exact length_mapUnits (fun _ _ _ => native.cryptUnit_length ..) ..

/-- **Sectors are read back**, from the first on and as many as are asked for. -/
theorem cryptSectorsInPlace_undo {ids : List ℕ} {key : Key} {start n : ℕ} {buffer out : List UInt8}
    (h : native.cryptSectorsInPlace ids .encrypt key start buffer buffer.length = some out)
    (hn : 0 < n) (hle : n * 512 ≤ buffer.length) :
    native.cryptSectorsInPlace ids .decrypt key start (out.take (n * 512)) (n * 512 : ℕ) =
      some (buffer.take (n * 512)) := by
  have hout := native.cryptSectorsInPlace_length h
  obtain ⟨j, hj⟩ : ∃ j, buffer.length / 512 = n + j := ⟨_, (Nat.add_sub_cancel' (by omega)).symm⟩
  have hfit : (n + j) * 512 ≤ buffer.length := hj ▸ Nat.div_mul_le_self ..
  unfold cryptSectorsInPlace at h ⊢
  split at h
  · cases h
  rename_i hids
  split at h
  · cases h
  rename_i hlen
  rw [if_neg (by omega)] at h
  obtain ⟨cascade, hcascade, rfl⟩ := Option.map_eq_some_iff.1 h
  rw [if_neg hids, if_neg (by omega), if_neg (by rw [List.length_take, hout]; omega), hcascade,
    show ((buffer.length : ℤ) / 512).toNat = n + j from hj,
    show (((n * 512 : ℕ) : ℤ) / 512).toNat = n from Nat.mul_div_cancel n (by decide)]
  exact congrArg some (mapUnits_undo (f := fun i => native.cryptUnit cascade .encrypt (i % 2 ^ 64))
    (g := fun i => native.cryptUnit cascade .decrypt (i % 2 ^ 64))
      (fun _ _ => native.cryptUnit_length ..)
    (fun _ _ hl => native.cryptUnit_undo _ _ _ (by rw [hl])) n j start buffer hfit)

/-! ### Argon2id for LUKS2 -/

/-- `VeraCryptNative.argon2id`; `none` for `null`, an error for the exception. -/
def argon2id (password salt : Key) (timeCost memoryKiB lanes outLen : ℤ) : Except String (Option Key) :=
  if outLen ≤ 0 ∨ 1024 < outLen then .ok none
  else (native.argon2idHashRaw timeCost memoryKiB lanes password salt outLen.toNat).map some

end Native

def plainNative : Native where
  argon2idHashRaw _ _ _ _ _ n := .ok (List.replicate n 0)
  pbkdf2HmacSha512 _ _ _ n := some (List.replicate n 0)
  xts _ _ _ _ _ b := b
  argon2id_length := by rintro _ _ _ _ _ n _ h; cases h; simp
  pbkdf2_length := by rintro _ _ _ n _ h; cases h; simp
  xts_length _ _ _ _ _ _ := rfl
  xts_undo _ _ _ _ _ _ := rfl

end OtgMaster.Veracrypt
