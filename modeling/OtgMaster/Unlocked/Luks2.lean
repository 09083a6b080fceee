import OtgMaster.Unlocked.Tweaks

/-!
The tweaks of the volume that `unlockLuks2` returns.

The header gives the payload a tweak for its first sector, `iv_tweak`. The device for large sectors
is made with it. The device for sectors of 512 bytes is made by `makeCryptoDevice`, which is not
given it and starts at 0. So the volume serves the payload of the header if the sectors are large,
if `iv_tweak` is 0, or if there is no payload to serve, and otherwise it does not
(`luks2_tweaks_iff`).
-/

namespace OtgMaster.Unlocked

open Lib Block Platform Veracrypt Luks

/-! ### The numbers of a header -/

section Header

variable {jdk : Jdk} {headerData : List UInt8} {hdr : Luks2}

lemma getInt_bounds {texts : Texts} {o : Fields} {name : String} {n : ℤ}
    (h : getInt texts o name = .ok n) : -2 ^ 31 ≤ n ∧ n < 2 ^ 31 := by
  unfold getInt at h
  split at h
  · cases h
    exact (i32_eq _).choose_spec.2
  · obtain ⟨m, -, rfl⟩ := Option.map_eq_some_iff.1 (orThrow_ok h)
    exact (i32_eq m).choose_spec.2
  · cases h

lemma toLong_bounds {s : List Char} {n : ℤ} (h : toLong s = .ok n) : -2 ^ 63 ≤ n ∧ n < 2 ^ 63 := by
  have hrange : ∀ {lo hi : ℤ}, parseInteger lo hi s = some n → lo ≤ n ∧ n ≤ hi := by
    intro lo hi h
    unfold parseInteger at h
    split at h
    all_goals
      simp only [Option.ite_none_left_eq_some, Option.ite_none_right_eq_some, Option.some.injEq] at h
      obtain ⟨-, hrange, rfl⟩ := h
      exact hrange
  have := hrange (orThrow_ok h)
  omega

lemma parseKeyslots_bounds {keyslots : Fields} : ∀ {keys : List String} {slots : List Luks2Keyslot},
    parseKeyslots jdk keyslots keys = .ok slots → ∀ slot ∈ slots,
      slot.keySize < 2 ^ 31 ∧ -2 ^ 63 ≤ slot.areaOffsetBytes ∧ slot.areaOffsetBytes < 2 ^ 63
  | [], slots, h, slot, hslot => by
    cases h
    cases hslot
  | key :: keys, slots, h, slot, hslot => by
    rw [parseKeyslots] at h
    obtain ⟨ksl, -, h⟩ := except_bind_ok h
    obtain ⟨type, -, h⟩ := except_bind_ok h
    split at h
    · exact parseKeyslots_bounds h slot hslot
    · obtain ⟨slot?, hslot?, h⟩ := except_bind_ok h
      obtain ⟨rest, hrest, h⟩ := except_bind_ok h
      cases h
      rcases List.mem_append.1 hslot with hslot | hslot
      · unfold parseKeyslot at hslot?
        obtain ⟨_, -, h⟩ := except_bind_ok hslot?
        obtain ⟨keySize, hsize, h⟩ := except_bind_ok h
        obtain ⟨_, -, h⟩ := except_bind_ok h
        obtain ⟨_, -, h⟩ := except_bind_ok h
        obtain ⟨_, harea, h⟩ := except_bind_ok h
        obtain ⟨_, -, h⟩ := except_bind_ok h
        obtain ⟨_, -, h⟩ := except_bind_ok h
        obtain ⟨_, -, h⟩ := except_bind_ok h
        obtain ⟨_, -, h⟩ := except_bind_ok h
        obtain ⟨_, -, h⟩ := except_bind_ok h
        obtain ⟨_, -, h⟩ := except_bind_ok h
        obtain ⟨_, -, h⟩ := except_bind_ok h
        obtain ⟨_, -, h⟩ := except_bind_ok h
        obtain ⟨kdf, -, h⟩ := except_bind_ok h
        cases h
        obtain ⟨_, -, rfl⟩ := Option.map_eq_some_iff.1 (Option.mem_toList.1 hslot)
        exact ⟨(getInt_bounds hsize).2, toLong_bounds harea⟩
      · exact parseKeyslots_bounds hrest slot hslot

lemma findSegment_bounds {segments : Fields} : ∀ {keys : List String} {seg : Segment},
    findSegment jdk segments keys = .ok seg → (-2 ^ 63 ≤ seg.ivTweak ∧ seg.ivTweak < 2 ^ 63) ∧
      -2 ^ 63 ≤ seg.payloadOffBytes ∧ seg.payloadOffBytes < 2 ^ 63
  | [], seg, h => by
    cases h
    decide
  | key :: keys, seg, h => by
    rw [findSegment] at h
    obtain ⟨_, -, h⟩ := except_bind_ok h
    obtain ⟨_, -, h⟩ := except_bind_ok h
    split at h
    · unfold parseSegment at h
      obtain ⟨_, -, h⟩ := except_bind_ok h
      obtain ⟨_, -, h⟩ := except_bind_ok h
      obtain ⟨_, hoffset, h⟩ := except_bind_ok h
      obtain ⟨ivTweak, htweak, h⟩ := except_bind_ok h
      cases h
      exact ⟨toLong_bounds htweak, toLong_bounds hoffset⟩
    · exact findSegment_bounds h

lemma parseLuks2_bounds (h : parseLuks2 jdk headerData = .ok hdr) :
    (-2 ^ 63 ≤ hdr.ivTweak ∧ hdr.ivTweak < 2 ^ 63) ∧ ∀ slot ∈ hdr.keyslots, slot.keySize < 2 ^ 31 := by
  unfold parseLuks2 at h
  obtain ⟨_, -, h⟩ := except_bind_ok h
  obtain ⟨-, h⟩ := check_bind_ok h
  obtain ⟨-, h⟩ := check_bind_ok h
  obtain ⟨-, h⟩ := failIf_bind_ok h
  obtain ⟨_, -, h⟩ := except_bind_ok h
  obtain ⟨json, -, h⟩ := except_bind_ok h
  unfold parseLuks2Json at h
  obtain ⟨_, -, h⟩ := except_bind_ok h
  obtain ⟨seg, hseg, h⟩ := except_bind_ok h
  obtain ⟨_, -, h⟩ := except_bind_ok h
  obtain ⟨keyslots, hslots, h⟩ := except_bind_ok h
  obtain ⟨_, -, h⟩ := except_bind_ok h
  obtain ⟨_, -, h⟩ := except_bind_ok h
  cases h
  exact ⟨(findSegment_bounds hseg).1, fun slot hslot => (parseKeyslots_bounds hslots slot hslot).1⟩

end Header

/-! ### The length of the key -/

section KeyLength

variable {jdk : Jdk} {native : Native}

lemma pbkdf2Blocks_length {block : ℕ → List UInt8} {hLen : ℕ} (hblock : ∀ i, (block i).length = hLen) :
    ∀ n remaining blockIdx : ℕ, remaining ≤ n * hLen →
      (pbkdf2Blocks block hLen n remaining blockIdx).length = remaining := by
  intro n
  induction n with
  | zero =>
    intro remaining blockIdx h
    rw [pbkdf2Blocks]
    exact (Nat.le_zero.1 (h.trans_eq (Nat.zero_mul _))).symm
  | succ n ih =>
    intro remaining blockIdx h
    rw [Nat.succ_mul] at h
    rw [pbkdf2Blocks, List.length_append, List.length_take, hblock, ih _ _ (by omega)]
    omega

lemma le_rounds (total : ℕ) {step : ℕ} (h : 0 < step) : total ≤ rounds total step * step := by
  have h1 := Nat.div_add_mod' (total + step - 1) step
  have h2 := Nat.mod_lt (total + step - 1) h
  unfold rounds
  omega

lemma digestLength_pos (a : Sha) : 0 < a.digestLength := by
  cases a <;> decide

lemma slotKeyOf_length {slot : Luks2Keyslot} {password key : List UInt8}
    (h : slotKeyOf jdk native slot password = .ok key) : (key.length : ℤ) = slot.keySize := by
  unfold slotKeyOf at h
  split at h
  · split at h
    · rename_i hkey
      cases h
      unfold Native.argon2id at hkey
      split at hkey
      · cases hkey
      · rename_i hrange
        cases hraw : native.argon2idHashRaw _ _ _ password _ slot.keySize.toNat with
        | error e =>
          rw [hraw] at hkey
          cases hkey
        | ok raw =>
          rw [hraw] at hkey
          cases hkey
          rw [native.argon2id_length hraw]
          omega
    · cases h
    · cases h
  · unfold pbkdf2 at h
    obtain ⟨_, -, h⟩ := except_bind_ok h
    obtain ⟨hpos, h⟩ := failIf_bind_ok h
    cases h
    rw [pbkdf2Blocks_length (fun i => pbkdf2Block_length (jdk.hmac_length _ _) _ _ i) _ _ _
      (le_rounds _ (digestLength_pos _))]
    omega

lemma key_le_of_crypt {dir : Direction} {key : Key} {start : ℕ} {buffer out : List UInt8} {length : ℤ}
    (h : native.cryptSectorsInPlace aesOnly dir key start buffer length = some out) :
    64 ≤ key.length := by
  unfold Native.cryptSectorsInPlace at h
  split at h
  · cases h
  split at h
  · cases h
  split at h
  · cases h
  obtain ⟨cascade, hcascade, -⟩ := Option.map_eq_some_iff.1 h
  unfold vcCascadeNew at hcascade
  split at hcascade
  · cases hcascade
  · rename_i hlen
    simp only [aesOnly, List.length_singleton, not_or, not_lt] at hlen
    exact hlen.2.2

lemma hashDiffuse_length (alg : Sha) (buf : List UInt8) :
    (hashDiffuse jdk alg buf).length = buf.length := by
  refine length_mapUnits (fun chunk unit hunit => ?_) ..
  rw [List.length_take, jdk.digest_length]
  exact Nat.min_eq_left hunit

/-- **The merged key has the length that is asked for.** -/
lemma afMerge_length {keyMaterial key : List UInt8} {stripes : ℤ} {n : ℕ} {hashSpec : List Char}
    (hn : n < 2 ^ 31) (h : afMerge jdk keyMaterial stripes n hashSpec = .ok key) : key.length = n :=
  by
  have hloop : ∀ (l : List ℕ) (buf out : List UInt8), buf.length = n →
      l.foldlM (fun buf (i : ℕ) => do
        let stripe ← copyOfRange keyMaterial (i32 (i * n)) (i32 ((i + 1) * n))
        return hashDiffuse jdk (shaFor hashSpec) (xorBytes buf stripe)) buf =
          (.ok out : E (List UInt8)) →
      out.length = n := by
    intro l
    induction l with
    | nil =>
      intro buf out hbuf h
      cases h
      exact hbuf
    | cons i l ih =>
      intro buf out hbuf h
      rw [List.foldlM_cons] at h
      obtain ⟨buf', hbuf', h⟩ := except_bind_ok h
      obtain ⟨stripe, hstripe, hturn⟩ := except_bind_ok hbuf'
      have hlen := stripe_length hn (add_one_mul _ _) hstripe
      cases hturn
      refine ih _ _ ?_ h
      rw [hashDiffuse_length, xorBytes_length (hbuf.trans hlen.symm), hbuf]
  unfold afMerge at h
  obtain ⟨-, h⟩ := failIf_bind_ok h
  obtain ⟨buf, hbuf, h⟩ := except_bind_ok h
  obtain ⟨last, hlast, h⟩ := except_bind_ok h
  have hbuf := hloop _ _ _ (by rw [List.length_replicate]; rfl) hbuf
  have hlen := stripe_length hn (by rw [sub_one_mul]; omega) hlast
  cases h
  rw [xorBytes_length (hbuf.trans hlen.symm), hbuf]

lemma masterKey_length {w : Machine} {startBlock : ℕ} {slot : Luks2Keyslot}
    {password masterKey : List UInt8} (hsize : slot.keySize < 2 ^ 31)
    (h : tryLuks2Keyslot jdk native w startBlock slot password = .ok (some masterKey)) :
    64 ≤ masterKey.length := by
  unfold tryLuks2Keyslot at h
  obtain ⟨slotKey, hslotKey, h⟩ := except_bind_ok h
  obtain ⟨kmData, -, h⟩ := except_bind_ok h
  have hlen := slotKeyOf_length hslotKey
  split at h
  · cases h
  · rename_i hcrypt
    have hkey := key_le_of_crypt hcrypt
    obtain ⟨keyMaterial, -, h⟩ := except_bind_ok h
    obtain ⟨merged, hmerged, h⟩ := except_bind_ok h
    cases h
    rw [← hlen] at hmerged
    rw [afMerge_length (by omega) hmerged]
    exact hkey

end KeyLength

/-! ### The volume and the payload of the header -/

section Volume

variable (bs : ℕ) (p : Slice) (hdr : Luks2) (masterKey : Key) (library : Native)

def smallDevice : NativeDecryptedBlockDevice :=
  decryptedAt p (payloadOffsetBlocks bs hdr.payloadOffsetSectors) masterKey aesOnly 0

def largeDevice : LargeSectorXtsDevice :=
  ⟨i64 (p.firstBlock + payloadOffsetBlocks bs hdr.payloadOffsetSectors),
    i64 (p.blockCount - payloadOffsetBlocks bs hdr.payloadOffsetSectors), hdr.sectorSize.toNat,
    hdr.ivTweak, aesXts library masterKey hdr.sectorSize.toNat⟩

/-- The volume that `unlockLuks2` makes for a master key, over the library that crypts its
sectors. -/
def luks2Volume : Volume :=
  if hdr.sectorSize = 512 then .native library (smallDevice bs p hdr masterKey)
  else .largeSector (largeDevice bs p hdr masterKey library)

/-- The payload as the header gives it: sector `s` is under the tweak `iv_tweak + s`. -/
def luks2Payload : Payload :=
  ⟨hdr.sectorSize.toNat, (p.firstBlock + payloadOffsetBlocks bs hdr.payloadOffsetSectors) * bs,
    hdr.ivTweak, aesXts library masterKey hdr.sectorSize.toNat⟩

/-- Some block of the payload lies on the drive, before the end of the partition. -/
def HasPayload : Prop :=
  ∃ s : ℕ, 0 ≤ p.firstBlock + payloadOffsetBlocks bs hdr.payloadOffsetSectors + s ∧
    ((s + 1 : ℕ) : ℤ) ≤ p.blockCount - payloadOffsetBlocks bs hdr.payloadOffsetSectors ∧
    (s + 1) * bs + 512 ≤ 2 ^ 63

end Volume

section Unlocked

variable {jdk : Jdk} {native : Native} {w : Machine} {startBlock : ℕ} {blockCount : Option ℕ}
  {headerData password : List UInt8} {opened : Opened} {hdr : Luks2} {masterKey : Key} {p : Slice}

lemma luks2_shows (library : Native) (hbs : 512 ≤ w.blockSize)
    (hp : startBlock + totalBlocks w startBlock blockCount ≤ w.blockCount) (hsize : 0 ≤ hdr.sectorSize)
    (h : luks2Device jdk w startBlock blockCount hdr masterKey = .ok opened) :
    Shows w.blockSize opened
      (luks2Volume w.blockSize ⟨startBlock, totalBlocks w startBlock blockCount⟩ hdr masterKey
        library) ∧ (hdr.sectorSize ≠ 512 → hdr.sectorSize.toNat % w.blockSize = 0) := by
  unfold luks2Device at h
  unfold luks2Volume
  split at h
  · rename_i hne
    rw [if_neg hne]
    obtain ⟨hblocks, hshows⟩ := makeLargeSectorDevice_shows (aesXts library masterKey) hbs hp hsize h
    exact ⟨hshows, fun _ => hblocks⟩
  · rename_i heq
    rw [if_pos (not_not.1 heq)]
    exact ⟨(makeCryptoDevice_shows library hbs hp h).2, fun hne => absurd hne heq⟩

lemma payload_start_bounds (hbs : 512 ≤ w.blockSize)
    (hp : p.firstBlock + p.blockCount ≤ w.blockCount) (n : ℤ) :
    -2 ^ 55 ≤ p.firstBlock + payloadOffsetBlocks w.blockSize n ∧
      p.firstBlock + payloadOffsetBlocks w.blockSize n ≤ 2 ^ 55 := by
  obtain ⟨hlo, hhi⟩ := payloadOffsetBlocks_bounds hbs n
  have hblocks : w.blockCount * 512 < 2 ^ 63 := Nat.lt_of_le_of_lt (Nat.mul_le_mul_left _ hbs) w.offsets
  omega

lemma largeDevice_regular (library : Native) (hbs : 512 ≤ w.blockSize)
    (hp : p.firstBlock + p.blockCount ≤ w.blockCount) (hsize : hdr.sectorSize ∈ [512, 1024, 2048, 4096])
    (hblocks : hdr.sectorSize.toNat % w.blockSize = 0) :
    (largeDevice w.blockSize p hdr masterKey library).Regular w.blockSize := by
  obtain ⟨hstart, -⟩ := place_of_payload hbs hp hdr.payloadOffsetSectors
  obtain ⟨hlo, hhi⟩ := payload_start_bounds hbs hp hdr.payloadOffsetSectors
  rw [← hstart] at hlo hhi
  obtain ⟨-, -, hge, hlt⟩ :=
    i64_eq (p.blockCount - payloadOffsetBlocks w.blockSize hdr.payloadOffsetSectors)
  have hsizes : hdr.sectorSize.toNat ∣ 2 ^ 63 ∧ hdr.sectorSize.toNat ≤ 4096 := by
    simp only [List.mem_cons, List.not_mem_nil, or_false] at hsize
    rcases hsize with h | h | h | h <;> rw [h] <;> decide
  exact ⟨hbs, hsizes.1, hsizes.2, Nat.dvd_of_mod_eq_zero hblocks, hlo, hhi, hge, hlt⟩

lemma largeDevice_served (library : Native) (hbs : 512 ≤ w.blockSize)
    (hp : p.firstBlock + p.blockCount ≤ w.blockCount) (hsize : hdr.sectorSize ∈ [512, 1024, 2048, 4096])
    (hblocks : hdr.sectorSize.toNat % w.blockSize = 0) :
    (luks2Payload w.blockSize p hdr masterKey library).ServedBy
      (.largeSector (largeDevice w.blockSize p hdr masterKey library)) w.blockSize w.blockCount := by
  obtain ⟨hstart, hcount⟩ := place_of_payload hbs hp hdr.payloadOffsetSectors
  have hpayload : (largeDevice w.blockSize p hdr masterKey library).payload w.blockSize =
      luks2Payload w.blockSize p hdr masterKey library := by
    unfold largeDevice LargeSectorXtsDevice.payload luks2Payload
    rw [hstart]
  rw [← hpayload]
  refine largeSector_served (largeDevice_regular library hbs hp hsize hblocks) ?_
  unfold largeDevice
  dsimp only
  rw [hstart, hcount]
  omega

lemma smallDevice_regular (hdr : Luks2) (hpos : 0 < w.blockSize) (hdvd : 512 ∣ w.blockSize)
    (hp : p.firstBlock + p.blockCount ≤ w.blockCount) (hkey : 64 ≤ masterKey.length) :
    (smallDevice w.blockSize p hdr masterKey).Regular w.blockSize := by
  have hbs := Nat.le_of_dvd hpos hdvd
  obtain ⟨hstart, -⟩ := place_of_payload hbs hp hdr.payloadOffsetSectors
  obtain ⟨hlo, hhi⟩ := payload_start_bounds hbs hp hdr.payloadOffsetSectors
  rw [← hstart] at hlo hhi
  exact ⟨hpos, hdvd, rfl, hkey, hlo, hhi⟩

lemma smallDevice_end (hdr : Luks2) (masterKey : Key) (hbs : 512 ≤ w.blockSize)
    (hp : p.firstBlock + p.blockCount ≤ w.blockCount) :
    (smallDevice w.blockSize p hdr masterKey).volumeDataOffset +
      (smallDevice w.blockSize p hdr masterKey).decryptedBlockCount ≤ w.blockCount := by
  obtain ⟨hstart, hcount⟩ := place_of_payload hbs hp hdr.payloadOffsetSectors
  unfold smallDevice decryptedAt
  dsimp only
  rw [hstart, hcount]
  omega

lemma smallDevice_hasBlock (masterKey : Key) (hbs : 512 ≤ w.blockSize)
    (hp : p.firstBlock + p.blockCount ≤ w.blockCount) :
    (smallDevice w.blockSize p hdr masterKey).HasBlock w.blockSize ↔ HasPayload w.blockSize p hdr := by
  obtain ⟨hstart, hcount⟩ := place_of_payload hbs hp hdr.payloadOffsetSectors
  unfold NativeDecryptedBlockDevice.HasBlock HasPayload smallDevice decryptedAt
  rw [hstart, hcount]

lemma luks2Payload_small (library : Native) (hbs : 512 ≤ w.blockSize)
    (hp : p.firstBlock + p.blockCount ≤ w.blockCount) (h512 : hdr.sectorSize = 512) :
      luks2Payload w.blockSize p hdr masterKey library =
      ⟨512, (smallDevice w.blockSize p hdr masterKey).volumeDataOffset * w.blockSize, hdr.ivTweak,
        aesXts library (smallDevice w.blockSize p hdr masterKey).masterKey 512⟩ := by
  obtain ⟨hstart, -⟩ := place_of_payload hbs hp hdr.payloadOffsetSectors
  unfold luks2Payload smallDevice decryptedAt
  rw [h512, hstart]
  rfl

/-- **The volume of a header serves its payload exactly if the tweaks start at 0 or the sectors are
large.** -/
lemma luks2_served_iff (library : Native) (hpos : 0 < w.blockSize) (hdvd : 512 ∣ w.blockSize)
    (hint : w.blockSize < 2 ^ 31) (hp : p.firstBlock + p.blockCount ≤ w.blockCount)
    (hkey : 64 ≤ masterKey.length) (hsize : hdr.sectorSize ∈ [512, 1024, 2048, 4096])
    (htweak : -2 ^ 63 ≤ hdr.ivTweak ∧ hdr.ivTweak < 2 ^ 63)
    (hblocks : hdr.sectorSize ≠ 512 → hdr.sectorSize.toNat % w.blockSize = 0) :
    (∀ library, (luks2Payload w.blockSize p hdr masterKey library).ServedBy
      (luks2Volume w.blockSize p hdr masterKey library) w.blockSize w.blockCount) ↔
        (hdr.sectorSize = 512 → hdr.ivTweak = 0 ∨ ¬HasPayload w.blockSize p hdr) := by
  have hbs := Nat.le_of_dvd hpos hdvd
  by_cases h512 : hdr.sectorSize = 512
  · have hregular := smallDevice_regular hdr hpos hdvd hp hkey
    have hend := smallDevice_end hdr masterKey hbs hp
    have hvolume : ∀ library, luks2Volume w.blockSize p hdr masterKey library =
        .native library (smallDevice w.blockSize p hdr masterKey) := fun _ => if_pos h512
    simp only [hvolume, luks2Payload_small _ hbs hp h512, h512, true_imp_iff,
      ← smallDevice_hasBlock masterKey hbs hp]
    constructor
    · intro hserved
      rw [or_iff_not_imp_right, not_not]
      intro hsome
      have hzero : u64 hdr.ivTweak = u64 (0 * _) :=
        tweak_of_served hregular hint hend hsome hserved library
      unfold u64 at hzero
      omega
    · rintro (hzero | hnone) library
      · have hpayload : (smallDevice w.blockSize p hdr masterKey).payload library w.blockSize =
            ⟨512, (smallDevice w.blockSize p hdr masterKey).volumeDataOffset * w.blockSize, 0,
              aesXts library (smallDevice w.blockSize p hdr masterKey).masterKey 512⟩ :=
          congrArg (fun tweak => Payload.mk 512 _ tweak _) (Int.zero_mul _)
        rw [hzero, ← hpayload]
        exact native_served hregular hend
      · exact hregular.idle_served hend hnone rfl rfl
  · refine ⟨fun _ h => absurd h h512, fun _ library => ?_⟩
    unfold luks2Volume
    rw [if_neg h512]
    exact largeDevice_served library hbs hp hsize (hblocks h512)

/-- **Where the tweaks of a LUKS2 volume are those of its header.** For every header that
`unlockLuks2` accepts: the device that is returned reads and writes sector `s` of the payload under
the tweak `iv_tweak + s`, whatever the cipher does and however the requests are split, if and only
if the sectors are larger than 512 bytes, or `iv_tweak` is 0, or no block of the payload lies on the
drive. -/
theorem luks2_tweaks_iff (hpos : 0 < w.blockSize) (hdvd : 512 ∣ w.blockSize)
    (hint : w.blockSize < 2 ^ 31)
    (hp : startBlock + totalBlocks w startBlock blockCount ≤ w.blockCount)
    (h : unlockLuks2 jdk native w startBlock blockCount headerData password = .ok opened) :
    ∃ hdr masterKey, parseLuks2 jdk headerData = .ok hdr ∧
      (∀ library, Shows w.blockSize opened
        (luks2Volume w.blockSize ⟨startBlock, totalBlocks w startBlock blockCount⟩ hdr masterKey
          library)) ∧
      ((∀ library,
        (luks2Payload w.blockSize ⟨startBlock, totalBlocks w startBlock blockCount⟩ hdr masterKey
          library).ServedBy
            (luks2Volume w.blockSize ⟨startBlock, totalBlocks w startBlock blockCount⟩ hdr masterKey
          library) w.blockSize w.blockCount) ↔
        (hdr.sectorSize = 512 → hdr.ivTweak = 0 ∨
          ¬HasPayload w.blockSize ⟨startBlock, totalBlocks w startBlock blockCount⟩ hdr)) := by
  have hbs := Nat.le_of_dvd hpos hdvd
  obtain ⟨hdr, hparse, hsize, slot, hslot, masterKey, hkey, -, hdevice⟩ := unlockLuks2_ok h
  obtain ⟨htweak, hkeys⟩ := parseLuks2_bounds hparse
  have hnonneg : 0 ≤ hdr.sectorSize := by
    simp only [List.mem_cons, List.not_mem_nil, or_false] at hsize
    omega
  have hshows := fun library => luks2_shows library hbs hp hnonneg hdevice
  exact ⟨hdr, masterKey, hparse, fun library => (hshows library).1,
    luks2_served_iff native hpos hdvd hint hp (masterKey_length (hkeys slot hslot) hkey) hsize
      htweak (hshows native).2⟩

end Unlocked

/-! ### Two headers with a tweak -/

/-- The header of `sampleJson`, with a sector size and the tweak 1. -/
def tweakedJson (sectorSize : ℤ) : Fields :=
  ("segments",
    .obj [("0", .obj [("type", .str "crypt".toList), ("encryption", .str "aes-xts-plain64".toList),
      ("offset", .str "6656".toList), ("sector_size", .int sectorSize), ("iv_tweak", .str ['1'])])]) ::
  (sampleJson sampleDigest).tail

abbrev tweakedDrive (sectorSize : ℤ) : Machine := Luks.sampleDrive (tweakedJson sectorSize)

abbrev tweakedHeader (sectorSize : ℤ) : List UInt8 := sampleHeader (tweakedJson sectorSize)

lemma tweaked_parsed {sectorSize : ℤ} (h : sectorSize ∈ [512, 1024]) :
    parseLuks2 sampleJdk (tweakedHeader sectorSize) =
      parseLuks2Json sampleJdk (tweakedJson sectorSize) := by
  rcases List.mem_pair.1 h with rfl | rfl <;>
    exact (parseLuks2_sample (by decide +kernel) (by decide +kernel)).2

lemma exists_ok_with {α : Type} {x : E α} {p : α → Bool}
    (h : (match x with | .ok a => p a | .error _ => false) = true) : ∃ a, x = .ok a ∧ p a = true := by
  cases x with
  | error e => cases h
  | ok a => exact ⟨a, rfl, h⟩

lemma tweaked_header {sectorSize : ℤ} (h : sectorSize ∈ [512, 1024]) :
    ∃ hdr, parseLuks2 sampleJdk (tweakedHeader sectorSize) = .ok hdr ∧ hdr.sectorSize = sectorSize ∧
      hdr.ivTweak = 1 ∧ hdr.payloadOffsetSectors = 13 := by
  rw [tweaked_parsed h]
  obtain ⟨hdr, hparse, hhdr⟩ := exists_ok_with
    (x := parseLuks2Json sampleJdk (tweakedJson sectorSize))
    (p := fun hdr =>
      hdr.sectorSize = sectorSize ∧ hdr.ivTweak = 1 ∧ hdr.payloadOffsetSectors = 13)
    (by rcases List.mem_pair.1 h with rfl | rfl <;> decide +kernel)
  exact ⟨hdr, hparse, of_decide_eq_true hhdr⟩

lemma tweaked_unlock :
    unlockLuks2 sampleJdk plainNative (tweakedDrive 512) 0 (some 22) (tweakedHeader 512) [1] =
      .ok (.crypto ⟨512, List.replicate 64 0, 13, 9, aesOnly, 0⟩) := by
  rw [unlockLuks2, tweaked_parsed (by decide)]
  decide +kernel

/-- **The tweak of the header is ignored.** With sectors of 512 bytes and `iv_tweak` 1, sector 8 of
the payload is decrypted under the tweak 8: with a library that flips the bytes under that tweak
only, the zeros of the drive are read as 255, and under the tweak 9 they stay 0. -/
theorem tweak_ignored : ∃ opened hdr, ∃ masterKey : Key, ∃ data h,
    unlockLuks2 sampleJdk plainNative (tweakedDrive 512) 0 (some 22) (tweakedHeader 512) [1] =
      .ok opened ∧
    parseLuks2 sampleJdk (tweakedHeader 512) = .ok hdr ∧ hdr.sectorSize = 512 ∧ hdr.ivTweak = 1 ∧
    Shows 512 opened (luks2Volume 512 ⟨0, 22⟩ hdr masterKey (flipping plainNative 8)) ∧
    (luks2Volume 512 ⟨0, 22⟩ hdr masterKey (flipping plainNative 8)).readBlocks 8 1
      ⟨tweakedDrive 512, []⟩ = .ok data h ∧
    data.getD 0 0 = 255 ∧
    (luks2Payload 512 ⟨0, 22⟩ hdr masterKey (flipping plainNative 8)).plainAt (tweakedDrive 512)
      (8 * 512) = 0 := by
  obtain ⟨hdr, hparse, hsize, htweak, hoffset⟩ :=
    tweaked_header (show (512 : ℤ) ∈ [512, 1024] by decide)
  have hvolume : luks2Volume 512 ⟨0, 22⟩ hdr (List.replicate 64 0) (flipping plainNative 8) =
      .native (flipping plainNative 8) ⟨List.replicate 64 0, 13, 9, aesOnly, 0⟩ := by
    have hdevice : smallDevice 512 ⟨0, 22⟩ hdr (List.replicate 64 0) =
        ⟨List.replicate 64 0, 13, 9, aesOnly, 0⟩ := by
      unfold smallDevice
      rw [hoffset]
      rfl
    rw [← hdevice]
    exact if_pos hsize
  obtain ⟨data, h, hread, hdata⟩ := returns_ok
    (m := NativeDecryptedBlockDevice.readBlocks (flipping plainNative 8)
      ⟨List.replicate 64 0, 13, 9, aesOnly, 0⟩ 8 1)
    (s := ⟨tweakedDrive 512, []⟩) (P := fun data _ => data.getD 0 0 = 255) (by decide +kernel)
  refine ⟨_, hdr, List.replicate 64 0, data, h, tweaked_unlock, hparse, hsize, htweak, ?_, ?_,
    of_decide_eq_true hdata, ?_⟩
  · rw [hvolume]
    exact Shows.crypto _ ⟨List.replicate 64 0, 13, 9, aesOnly, 0⟩
  · rw [hvolume]
    exact hread
  · unfold luks2Payload
    rw [hsize, htweak, hoffset]
    decide +kernel

theorem luks2_tweaks_sample : ∃ opened hdr, ∃ masterKey : Key,
    unlockLuks2 sampleJdk plainNative (tweakedDrive 1024) 0 (some 22) (tweakedHeader 1024) [1] =
      .ok opened ∧
    parseLuks2 sampleJdk (tweakedHeader 1024) = .ok hdr ∧ hdr.ivTweak = 1 ∧
    Shows 512 opened (luks2Volume 512 ⟨0, 22⟩ hdr masterKey plainNative) ∧
    (luks2Payload 512 ⟨0, 22⟩ hdr masterKey plainNative).ServedBy
      (luks2Volume 512 ⟨0, 22⟩ hdr masterKey plainNative) 512 22 := by
  obtain ⟨opened, hunlock⟩ : ∃ opened, unlockLuks2 sampleJdk plainNative (tweakedDrive 1024) 0
      (some 22) (tweakedHeader 1024) [1] = .ok opened := by
    apply exists_ok
    rw [unlockLuks2, tweaked_parsed (by decide)]
    decide +kernel
  obtain ⟨hdr, masterKey, hparse, hshows, hiff⟩ :=
    luks2_tweaks_iff (by decide) (by decide) (by decide) (by decide) hunlock
  obtain ⟨hdr', hparse', hsize, htweak, -⟩ :=
    tweaked_header (show (1024 : ℤ) ∈ [512, 1024] by decide)
  cases hparse.symm.trans hparse'
  have hserved := hiff.2 (fun h512 => absurd (hsize.symm.trans h512) (by decide)) plainNative
  exact ⟨opened, hdr, masterKey, hunlock, hparse, htweak, hshows plainNative, hserved⟩

end OtgMaster.Unlocked
