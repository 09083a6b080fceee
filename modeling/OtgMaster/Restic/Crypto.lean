import OtgMaster.Lib.Base64
import OtgMaster.Restic.Poly1305
import OtgMaster.Restic.Repository

/-!
`ResticCrypto`: a repository's objects are an IV, the text under AES in counter mode, and a
Poly1305-AES tag of that. What a key opens is exactly what it can have sealed
(`decrypt_iff_encrypt`), and so a key file opens with the password that it was made with
(`open_create`).
-/

namespace OtgMaster.Restic

open Lib Block Platform

structure Ciphers where
  texts : Texts
  /-- The key stream of `AES/CTR/NoPadding`, for a key and an IV. -/
  keystream : Data → Data → ℕ → UInt8
  /-- A block under `AES/ECB/NoPadding`. -/
  aes : Data → Data → Data
  aes_length : ∀ k b, (aes k b).length = b.length
  /-- `Scrypt.derive(password, salt, n, r, p, 64)`. -/
  scrypt : Data → Data → ℤ → ℤ → ℤ → E { b : Data // b.length = 64 }

structure ResticKey where
  encryptKey : Data
  macK : Data
  macR : Data
  sizes : encryptKey.length = 32 ∧ macK.length = 16 ∧ macR.length = 16

namespace ResticKey

def new (encryptKey macK macR : Data) : E ResticKey :=
  if h : encryptKey.length = 32 ∧ macK.length = 16 ∧ macR.length = 16 then
    pure ⟨encryptKey, macK, macR, h⟩
  else throw ⟨.illegalArgument, "restic keys are 32 + 16 + 16 bytes"⟩

variable (c : Ciphers) (key : ResticKey)

def ctr (iv data : Data) : Data := data.mapIdx fun i b => b ^^^ c.keystream key.encryptKey iv i

def mac (iv msg : Data) : E Data := do
  let poly ← Poly1305.new (key.macR ++ c.aes key.macK iv)
  return (poly.update msg).finish

def decrypt (data : Data) : E Data := do
  failIf (data.length < 32)
    ⟨.authentication, s!"ciphertext of {data.length} bytes is shorter than IV and MAC"⟩
  let iv := data.take 16
  let ct := (data.drop 16).take (data.length - 32)
  let expected ← key.mac c iv ct
  failIf (expected ≠ data.drop (data.length - 16))
    ⟨.authentication, "MAC mismatch: wrong key, or the data is damaged"⟩
  return key.ctr c iv ct

def encrypt (plain iv : Data) : E Data := do
  let ct := key.ctr c iv plain
  let tag ← key.mac c iv ct
  return iv ++ ct ++ tag

def toJson : Fields :=
  [("mac", .obj [("k", .str (Base64.encode key.macK)), ("r", .str (Base64.encode key.macR))]),
    ("encrypt", .str (Base64.encode key.encryptKey))]

def unb64 (s : List Char) : E Data :=
  orThrow (Base64.decode s) ⟨.illegalArgument, "Illegal base64 character"⟩

def fromJson (o : Fields) : E ResticKey := do
  let mac ← getJSONObject o "mac"
  let encryptKey ← unb64 (← getString c.texts o "encrypt")
  let macK ← unb64 (← getString c.texts mac "k")
  let macR ← unb64 (← getString c.texts mac "r")
  new encryptKey macK macR

def derive (password salt : Data) (n r p : ℤ) : E ResticKey := do
  let b ← c.scrypt password salt n r p
  return ⟨b.1.take 32, (b.1.drop 32).take 16, b.1.drop 48, by have := b.2; simp; omega⟩

/-! ### what a key opens -/

lemma ctr_ctr (iv data : Data) : key.ctr c iv (key.ctr c iv data) = data := by
  refine List.ext_getElem (by simp [ctr]) fun i h₁ h₂ => ?_
  simp [ctr]

lemma mac_ok {iv : Data} (hiv : iv.length = 16) (msg : Data) :
    ∃ tag, key.mac c iv msg = .ok tag ∧ tag.length = 16 := by
  have hlen : (key.macR ++ c.aes key.macK iv).length = 32 := by
    rw [List.length_append, key.sizes.2.2, c.aes_length, hiv]
  unfold mac Poly1305.new
  rw [require_run hlen]
  exact ⟨_, rfl, rfl⟩

lemma decrypt_encrypt (plain : Data) {iv : Data} (hiv : iv.length = 16) :
    ∃ data, key.encrypt c plain iv = .ok data ∧ key.decrypt c data = .ok plain := by
  obtain ⟨tag, htag, hlen⟩ := mac_ok c key hiv (key.ctr c iv plain)
  have hct : (key.ctr c iv plain).length = plain.length := by simp [ctr]
  refine ⟨iv ++ key.ctr c iv plain ++ tag, ?_, ?_⟩
  · unfold encrypt
    rw [except_bind_run htag]
    rfl
  · have hall : (iv ++ key.ctr c iv plain ++ tag).length = plain.length + 32 := by
      simp only [List.length_append, hiv, hct, hlen]
      omega
    unfold decrypt
    rw [failIf_bind_run (by omega), hall, Nat.add_sub_cancel,
      show plain.length + 32 - 16 = plain.length + 16 by omega,
      List.append_assoc, List.take_left' hiv, List.drop_left' hiv, List.take_left' hct,
      except_bind_run htag, ← List.append_assoc,
      List.drop_left' (by rw [List.length_append, hiv, hct, Nat.add_comm]),
      failIf_bind_run (by simp),
      ctr_ctr]
    rfl

variable {c key}

/-- **A key opens what it can have sealed, and nothing else.** -/
theorem decrypt_iff_encrypt (data plain : Data) :
    key.decrypt c data = .ok plain ↔ ∃ iv, iv.length = 16 ∧ key.encrypt c plain iv = .ok data := by
  constructor
  · intro h
    unfold decrypt at h
    obtain ⟨hlen, h⟩ := failIf_bind_ok h
    obtain ⟨tag, htag, h⟩ := except_bind_ok h
    obtain ⟨hsame, h⟩ := failIf_bind_ok h
    cases h
    refine ⟨data.take 16, by rw [List.length_take]; omega, ?_⟩
    unfold encrypt
    rw [ctr_ctr, except_bind_run htag, not_not.1 hsame]
    refine congrArg Except.ok ?_
    rw [List.append_assoc, ← show 16 + (data.length - 32) = data.length - 16 by omega, ← List.drop_drop,
      List.take_append_drop, List.take_append_drop]
  · rintro ⟨iv, hiv, h⟩
    obtain ⟨data', hdata, hopen⟩ := decrypt_encrypt c key plain hiv
    rw [hdata] at h
    cases h
    exact hopen

end ResticKey

/-! ### key files -/

namespace ResticKeyFile

variable (c : Ciphers)

/-- `open`; `none` if the password does not open it. -/
def «open» (json : Fields) (password : Data) : E (Option ResticKey) := do
  let kdf ← getString c.texts json "kdf"
  require (kdf = "scrypt".toList) s!"unsupported key derivation {String.ofList kdf}"
  let salt ← ResticKey.unb64 (← getString c.texts json "salt")
  let user ← ResticKey.derive c password salt (← getInt c.texts json "N")
    (← getInt c.texts json "r") (← getInt c.texts json "p")
  let data ← ResticKey.unb64 (← getString c.texts json "data")
  match user.decrypt c data with
  | .error e => if e.kind = .authentication then return none else throw e
  | .ok plain =>
    let o ← orThrow (c.texts.parseJson (c.texts.utf8Decode plain)) ⟨.json, "JSONException"⟩
    some <$> ResticKey.fromJson c o

def create (master : ResticKey) (password : Data) (username hostname created : List Char)
    (n r p : ℤ) (salt iv : Data) : E Fields := do
  let user ← ResticKey.derive c password salt n r p
  let data ← user.encrypt c (c.texts.utf8Encode (c.texts.renderJson master.toJson)) iv
  return [("created", .str created), ("username", .str username), ("hostname", .str hostname),
    ("kdf", .str "scrypt".toList), ("N", .int n), ("r", .int r), ("p", .int p),
    ("salt", .str (Base64.encode salt)), ("data", .str (Base64.encode data))]

variable {c}

lemma unb64_encode (b : Data) : ResticKey.unb64 (Base64.encode b) = .ok b := by
  rw [ResticKey.unb64, Base64.decode_encode, orThrow_run]

lemma fromJson_toJson (key : ResticKey) : ResticKey.fromJson c key.toJson = .ok key := by
  unfold ResticKey.fromJson ResticKey.toJson
  rw [except_bind_run (getJSONObject_run rfl), except_bind_run (getString_run rfl),
    except_bind_run (unb64_encode _), except_bind_run (getString_run rfl),
    except_bind_run (unb64_encode _), except_bind_run (getString_run rfl),
    except_bind_run (unb64_encode _), ResticKey.new, dif_pos key.sizes]
  rfl

/-- **The password that a key file was made with opens it**, and gives the master key. -/
theorem open_create {master : ResticKey} {password salt iv : Data}
    {username hostname created : List Char} {n r p : ℤ} {file : Fields} (hiv : iv.length = 16)
    (hn : i32 n = n ∧ i32 r = r ∧ i32 p = p)
    (htexts : c.texts.parseJson
      (c.texts.utf8Decode (c.texts.utf8Encode (c.texts.renderJson master.toJson))) =
        some master.toJson)
    (h : create c master password username hostname created n r p salt iv = .ok file) :
    «open» c file password = .ok (some master) := by
  obtain ⟨user, huser, h⟩ := except_bind_ok h
  obtain ⟨data, hdata, hopen⟩ := ResticKey.decrypt_encrypt c user
    (c.texts.utf8Encode (c.texts.renderJson master.toJson)) hiv
  rw [except_bind_run hdata] at h
  cases h
  unfold «open»
  rw [except_bind_run (getString_run rfl), except_bind_run (require_run rfl),
    except_bind_run (getString_run rfl), except_bind_run (unb64_encode _),
    except_bind_run (getInt_run rfl), except_bind_run (getInt_run rfl),
    except_bind_run (getInt_run rfl), hn.1, hn.2.1, hn.2.2, except_bind_run huser,
    except_bind_run (getString_run rfl), except_bind_run (unb64_encode _), hopen]
  dsimp only
  rw [htexts, except_bind_run orThrow_run, fromJson_toJson]
  rfl

def zeroKey : ResticKey := ⟨List.replicate 32 0, List.replicate 16 0, List.replicate 16 0, by decide⟩

/-- Ciphers that leave everything open, and texts that all stand for that key. -/
def openCiphers : Ciphers :=
  ⟨{ codec with parseJson := fun _ => some zeroKey.toJson }, fun _ _ _ => 0, fun _ b => b,
      fun _ _ => rfl, fun _ _ _ _ _ => .ok ⟨List.replicate 64 0, rfl⟩⟩

def zeroFile : E Fields := create openCiphers zeroKey [1] [] [] [] 32768 8 1 [] (List.replicate 16 0)

theorem open_create_zero :
    ∃ file, zeroFile = .ok file ∧ «open» openCiphers file [1] = .ok (some zeroKey) := by
  have hmade : zeroFile.isOk = true := by decide +kernel
  cases h : zeroFile with
  | error e => rw [h] at hmade; cases hmade
  | ok file => exact ⟨file, rfl, open_create (by decide) (by decide) rfl h⟩

end ResticKeyFile

end OtgMaster.Restic
