import OtgMaster.Luks.Creator

/-!
What `LuksVolumeCreator.create` has written is opened by `LuksUnlocker.unlock` with the same
password, as the same device (`created_unlocks`).

The master key goes through the anti-forensic split and merge (`afMerge_afSplit`), the key material
through the cipher of the keyslot (`keyslot_run`), and the digest through PBKDF2 of two lengths
(`pbkdf2_digest`).
-/

namespace OtgMaster.Luks

open Lib Block Platform Veracrypt

/-! ### The anti-forensic split -/

section AfSplit

variable (jdk : Jdk) {n : ℕ}

lemma xorBytes_length {a b : List UInt8} (h : a.length = b.length) :
    (xorBytes a b).length = a.length := by
  rw [xorBytes, List.length_zipWith, h, Nat.min_self]

lemma xorBytes_undo : ∀ {a b : List UInt8}, a.length = b.length → xorBytes a (xorBytes a b) = b
  | [], [], _ => rfl
  | x :: a, y :: b, h => by
    have hxy : x ^^^ (x ^^^ y) = y := by rw [← UInt8.xor_assoc, UInt8.xor_self, UInt8.zero_xor]
    have ih := xorBytes_undo (Nat.succ.inj h)
    simp only [xorBytes, List.zipWith_cons_cons] at ih ⊢
    rw [hxy, ih]

lemma flatten_length {ss : List (List UInt8)} (hss : ∀ s ∈ ss, s.length = n) :
    ss.flatten.length = ss.length * n := by
  rw [List.length_flatten, List.map_congr_left hss, List.map_const', List.sum_replicate_nat]

lemma stripe_run {keyMaterial : List UInt8} {i : ℕ} (hint : (i + 1) * n < 2 ^ 31)
    (hle : (i + 1) * n ≤ keyMaterial.length) :
    copyOfRange keyMaterial (i32 (i * n)) (i32 ((i + 1) * n)) =
      .ok ((keyMaterial.drop (i * n)).take n) := by
  rw [Nat.succ_mul] at hint hle
  have hend : ((i : ℤ) + 1) * n = (i * n + n : ℕ) := by push_cast; rw [add_one_mul]
  rw [hend, ← Int.natCast_mul, i32_natCast (by omega), i32_natCast hint, copyOfRange_run (by omega) hle,
    Nat.add_sub_cancel_left]

/-- One turn of the loops of `afSplit` and `afMerge`. -/
def turn (jdk : Jdk) (buf stripe : List UInt8) : List UInt8 := diffuse jdk (xorBytes buf stripe)

lemma turn_length {buf stripe : List UInt8} (h : buf.length = stripe.length) :
    (turn jdk buf stripe).length = buf.length := by
  have hf : ∀ (chunk : ℕ) (unit : List UInt8), unit.length ≤ 32 →
      ((jdk.digest .sha256 (bigEndian 4 chunk ++ unit)).take unit.length).length = unit.length := by
    intro chunk unit hunit
    rw [List.length_take, jdk.digest_length]
    exact Nat.min_eq_left hunit
  rw [turn, diffuse, length_mapUnits hf, xorBytes_length h]

lemma afStripes_run (k : ℕ) : ∀ (buf : List UInt8) (w : Machine), buf.length = n →
    ∃ ss : List (List UInt8), ss.length = k ∧ (∀ s ∈ ss, s.length = n) ∧
      (ss.foldl (turn jdk) buf).length = n ∧
      afStripes jdk k buf w = .ok (ss.flatten, ss.foldl (turn jdk) buf) (w.drawn (k * n)) := by
  induction k with
  | zero =>
    intro buf w hbuf
    refine ⟨[], rfl, by simp, hbuf, ?_⟩
    rw [Nat.zero_mul, Machine.drawn_zero]
    rfl
  | succ k ih =>
    intro buf w hbuf
    obtain ⟨s, hs⟩ : ∃ s, (List.range buf.length).map w.random = s := ⟨_, rfl⟩
    have hlen : s.length = n := by rw [← hs, List.length_map, List.length_range, hbuf]
    obtain ⟨ss, hk, hss, hlast, hrun⟩ := ih (turn jdk buf s) (w.drawn n)
      ((turn_length jdk (hbuf.trans hlen.symm)).trans hbuf)
    refine ⟨s :: ss, by rw [List.length_cons, hk], List.forall_mem_cons.2 ⟨hlen, hss⟩, hlast, ?_⟩
    rw [Machine.drawn_drawn] at hrun
    unfold turn at hrun
    rw [afStripes, bind_run (nextBytes_run _), hs, hbuf, bind_run hrun, Nat.succ_mul,
      Nat.add_comm (k * n)]
    rfl

lemma mergeStripes_run (buf : List UInt8) (ss : List (List UInt8)) : (∀ s ∈ ss, s.length = n) →
    ss.length * n < 2 ^ 31 → ∀ rest,
    (List.range ss.length).foldlM (fun buf (i : ℕ) => do
      let stripe ← copyOfRange (ss.flatten ++ rest) (i32 (i * n)) (i32 ((i + 1) * n))
      return hashDiffuse jdk (shaFor "sha256".toList) (xorBytes buf stripe)) buf =
        (.ok (ss.foldl (turn jdk) buf) : E (List UInt8)) := by
  induction ss using List.reverseRecOn with
  | nil => intro _ _ rest; rfl
  | append_singleton ss s ih =>
    intro hss hint rest
    have hinits : ∀ t ∈ ss, t.length = n := fun t ht => hss t (List.mem_append_left _ ht)
    have hs : s.length = n := hss s (by simp)
    have hflat : ss.flatten.length = ss.length * n := flatten_length hinits
    rw [List.length_append, List.length_singleton, Nat.succ_mul] at hint
    have hinit := ih hinits (by omega) (s ++ rest)
    have hstripe : copyOfRange (ss.flatten ++ (s ++ rest)) (i32 (ss.length * n))
      (i32 ((ss.length + 1) * n)) =
        .ok s := by
      rw [stripe_run (by rw [Nat.succ_mul]; omega)
        (by simp only [List.length_append, hflat, hs, Nat.succ_mul]; omega),
        List.drop_left' hflat, List.take_left' hs]
    rw [List.length_append, List.length_singleton, List.range_succ, List.foldlM_append,
      List.flatten_append, List.flatten_singleton, List.append_assoc, except_bind_run hinit,
      List.foldlM_cons, except_bind_run hstripe, List.foldl_append]
    rfl

lemma afMerge_afSplit (key : List UInt8) (stripes : ℕ) (hstripes : stripes < 2 ^ 31)
    (hint : (stripes + 1) * key.length < 2 ^ 31) (w : Machine) :
      ∃ split, afSplit jdk key (stripes + 1) w = .ok split (w.drawn (stripes * key.length)) ∧
      split.length = (stripes + 1) * key.length ∧
      afMerge jdk split (stripes + 1) key.length "sha256".toList = .ok key := by
  obtain ⟨ss, hk, hss, hlast, hrun⟩ := afStripes_run jdk stripes (List.replicate key.length 0) w
    List.length_replicate
  obtain ⟨buf, hbuf⟩ : ∃ buf, ss.foldl (turn jdk) (List.replicate key.length 0) = buf := ⟨_, rfl⟩
  rw [hbuf] at hlast hrun
  have hint' := hint
  rw [Nat.succ_mul] at hint'
  have hflat := flatten_length hss
  rw [hk] at hflat
  have hxor := xorBytes_length hlast
  have hlen : (ss.flatten ++ xorBytes buf key).length = (stripes + 1) * key.length := by
    rw [List.length_append, hflat, hxor, hlast, Nat.succ_mul]
  refine ⟨ss.flatten ++ xorBytes buf key, ?_, hlen, ?_⟩
  · unfold afSplit
    rw [Nat.add_sub_cancel, bind_run hrun]
    rfl
  · have hloop :=
      mergeStripes_run jdk (List.replicate key.length 0) ss hss (by rw [hk]; omega)
        (xorBytes buf key)
    rw [hk, hbuf] at hloop
    have hlaststripe := stripe_run hint hlen.ge
    rw [List.drop_left' hflat, List.take_of_length_le (by omega)] at hlaststripe
    unfold afMerge
    rw [failIf_bind_run (by omega), Int.add_sub_cancel, i32_natCast hstripes, Int.toNat_natCast,
      Int.toNat_natCast, except_bind_run hloop, except_bind_run hlaststripe]
    exact congrArg Except.ok (xorBytes_undo hlast)

end AfSplit

/-! ### The digest -/

section Digest

variable {n : ℕ}

lemma pbkdf2Block_length {mac : List UInt8 → List UInt8} (hmac : ∀ m, (mac m).length = n)
    (salt : List UInt8) (iterations : ℤ) (blockIdx : ℕ) :
    (pbkdf2Block mac salt iterations blockIdx).length = n := by
  have hloop : ∀ (l : List ℕ) (ut : List UInt8 × List UInt8), ut.2.length = n →
      (l.foldl (fun ut _ => (mac ut.1, xorBytes ut.2 (mac ut.1))) ut).2.length = n := by
    intro l
    induction l with
    | nil => exact fun _ h => h
    | cons _ l ih => exact fun ut h => ih _ ((xorBytes_length (h.trans (hmac _).symm)).trans h)
  exact hloop _ _ (hmac _)

/-- The digest that `create` stores: one block of PBKDF2. -/
def digestOf (jdk : Jdk) (masterKey salt : List UInt8) : List UInt8 :=
  pbkdf2Block (jdk.hmac .sha256 masterKey) salt DIGEST_ITERATIONS 1

lemma digestOf_length (jdk : Jdk) (masterKey salt : List UInt8) :
    (digestOf jdk masterKey salt).length = 32 :=
  pbkdf2Block_length (jdk.hmac_length .sha256 masterKey) ..

/-- **Two lengths of PBKDF2**: the digest is what the first 32 bytes of the longer key are. -/
lemma pbkdf2_digest (jdk : Jdk) {masterKey : List UInt8} (hkey : masterKey.length = KEY_BYTES)
    (salt : List UInt8) :
    pbkdf2 jdk .sha256 masterKey salt DIGEST_ITERATIONS 32 = .ok (digestOf jdk masterKey salt) ∧
      ∃ rest, pbkdf2 jdk .sha256 masterKey salt DIGEST_ITERATIONS masterKey.length =
        .ok (digestOf jdk masterKey salt ++ rest) := by
  have hne : masterKey ≠ [] := by
    rintro rfl
    cases hkey
  have hlen := digestOf_length jdk masterKey salt
  have hblock : (digestOf jdk masterKey salt).take 32 = digestOf jdk masterKey salt :=
    List.take_of_length_le hlen.le
  unfold pbkdf2
  rw [except_bind_run (require_run hne), except_bind_run (require_run hne),
    failIf_bind_run (by decide), hkey,
    failIf_bind_run (by decide)]
  refine ⟨?_, pbkdf2Blocks (pbkdf2Block (jdk.hmac .sha256 masterKey) salt DIGEST_ITERATIONS) 32 1 32
    2, ?_⟩
  · show Except.ok ((digestOf jdk masterKey salt).take 32 ++ []) = _
    rw [hblock, List.append_nil]
  · show Except.ok ((digestOf jdk masterKey salt).take 32 ++ _) = _
    rw [hblock]
    rfl

lemma matchesLuks2_digest (jdk : Jdk) {masterKey : List UInt8} (hkey : masterKey.length = KEY_BYTES)
    (salt : List UInt8) :
    matchesLuks2 jdk ⟨"sha256".toList, DIGEST_ITERATIONS, salt, digestOf jdk masterKey salt⟩
      masterKey = .ok true := by
  obtain ⟨-, rest, hderived⟩ := pbkdf2_digest jdk hkey salt
  obtain ⟨digest, hdigest⟩ : ∃ digest, digestOf jdk masterKey salt = digest := ⟨_, rfl⟩
  rw [hdigest] at hderived ⊢
  have hrange := copyOfRange_run (l := digest ++ rest) (m := 0) (n := digest.length) (Nat.zero_le _)
    (by rw [List.length_append]; omega)
  rw [List.drop_zero, Nat.sub_zero, List.take_left] at hrange
  refine (except_bind_run hderived).trans ((except_bind_run hrange).trans ?_)
  exact congrArg Except.ok (decide_eq_true rfl)

end Digest

/-! ### What is on the drive -/

section Drive

variable {jdk : Jdk} {native : Native} {partition : Slice} {w : Machine}

lemma zeroFill_run (hsize : w.blockSize = 512)
    (hdrive : partition.firstBlock + partition.blockCount ≤ w.blockCount)
    (hlarge : DATA_OFFSET ≤ partition.blockCount * 512) (off : ℕ) (hoff : off % 512 = 0) :
    ∃ w', zeroFill partition off w = .ok ⟨⟩ w' ∧
      w.WritesIn (partition.firstBlock * 512 + off) (partition.firstBlock * 512 + DATA_OFFSET) w' := by
  induction hm : DATA_OFFSET - off using Nat.strong_induction_on generalizing off w with
  | _ m ih =>
  rw [zeroFill]
  split
  · rename_i hlt
    simp only [DATA_OFFSET] at hlt hlarge hm
    obtain ⟨n, hn, hpos, hmod, hle⟩ : ∃ n, min (2 ^ 20) (DATA_OFFSET - off) = n ∧ 0 < n ∧ n % 512 = 0 ∧
        off + n ≤ 16777216 := ⟨_, rfl, by simp only [DATA_OFFSET]; omega⟩
    have hstart : (partition.firstBlock + off / 512) * 512 = partition.firstBlock * 512 + off := by omega
    obtain ⟨w1, hwrite, -, hkeep⟩ := Slice.writeBlocks_spec (w := w) partition (off / 512)
      (List.replicate n 0) (by omega) (by rw [List.length_replicate, hsize, hmod])
      (by rw [List.length_replicate, hsize]; omega) hdrive
    rw [hsize, hstart, List.length_replicate] at hkeep
    obtain ⟨w', hrest, hkeep'⟩ := ih _ (by simp only [DATA_OFFSET]; omega)
      (hkeep.blockSize.trans hsize) (hkeep.blockCount.symm ▸ hdrive) (off + n) (by omega) rfl
    simp only [hn]
    rw [bind_run hwrite, hrest]
    refine ⟨w', rfl, ?_⟩
    exact (hkeep.mono (Nat.le_refl _) (by simp only [DATA_OFFSET]; omega)).trans
      (hkeep'.mono (by omega) (Nat.le_refl _))
  · exact ⟨w, rfl, .refl ..⟩

/-! ### What `create` leaves behind -/

def masterKeyOf (w : Machine) : List UInt8 := (List.range KEY_BYTES).map w.random

def kdfSaltOf (w : Machine) : List UInt8 := (List.range 32).map (w.drawn KEY_BYTES).random

def digestSaltOf (w : Machine) : List UInt8 :=
  (List.range 32).map (w.drawn (KEY_BYTES + 32 + AREA_SIZE + (STRIPES - 1) * KEY_BYTES)).random

def jsonOf (jdk : Jdk) (w : Machine) : Fields :=
  luksJson (kdfSaltOf w) (digestSaltOf w) (digestOf jdk (masterKeyOf w) (digestSaltOf w))

def createdDevice (partition : Slice) (masterKey : List UInt8) : NativeDevice where
  blockSize := 512
  masterKey := masterKey
  volumeDataOffset := DATA_OFFSET / 512
  decryptedBlockCount := partition.blockCount - DATA_OFFSET / 512
  cipherNativeIds := aesOnly
  tweakDataOffset := 0

/-- A LUKS2 volume on the drive, from byte `start` on. -/
structure OnDrive (jdk : Jdk) (native : Native) (o : Fields) (slotKey masterKey : List UInt8) (start : ℕ)
    (w : Machine) : Prop where
  header : ∃ uuid label salt, salt.length = 64 ∧ w.bytes.slice start HEADER_SIZE =
    headerWith jdk (jdk.utf8Encode (jsonText jdk o)) uuid label 0 salt
  /-- The keyslot decrypts to stripes that are merged to the master key. -/
  keyslot : ∃ split, split.length = AF_BYTES ∧
    native.cryptSectorsInPlace aesOnly .decrypt slotKey 0
      (w.bytes.slice (start + KEYSLOTS_OFFSET) AF_BYTES) AF_BYTES =
      some split ∧
    afMerge jdk split STRIPES KEY_BYTES "sha256".toList = .ok masterKey

lemma argon2Key_run {password salt slotKey : List UInt8}
    (h : native.argon2id password salt ARGON2_TIME ARGON2_MEMORY_KIB ARGON2_LANES KEY_BYTES =
      .ok (some slotKey)) : argon2Key native password salt = .ok slotKey := by
  rw [argon2Key, h]
  rfl

lemma keyslot_run {password salt slotKey area split : List UInt8}
    (h : native.argon2id password salt ARGON2_TIME ARGON2_MEMORY_KIB ARGON2_LANES KEY_BYTES =
      .ok (some slotKey))
    (harea : area.length = AREA_SIZE) (hsplit : split.length = AF_BYTES) :
    ∃ enc, native.cryptSectorsInPlace aesOnly .encrypt slotKey 0 (copyInto split area 0)
        (copyInto split area 0).length = some enc ∧ enc.length = AREA_SIZE ∧
      native.cryptSectorsInPlace aesOnly .decrypt slotKey 0 (enc.take AF_BYTES) AF_BYTES =
        some split := by
  have hkey : slotKey.length = 64 := by
    rw [Native.argon2id, if_neg (by decide)] at h
    cases hraw : native.argon2idHashRaw ARGON2_TIME ARGON2_MEMORY_KIB ARGON2_LANES password salt
        KEY_BYTES with
    | error e => rw [Int.toNat_natCast, hraw] at h; cases h
    | ok key =>
      rw [Int.toNat_natCast, hraw] at h
      cases h
      exact native.argon2id_length hraw
  obtain ⟨buffer, hbuffer⟩ : ∃ buffer, copyInto split area 0 = buffer := ⟨_, rfl⟩
  have hlen : buffer.length = 258048 := by
    rw [← hbuffer, copyInto_length (by rw [hsplit, harea]; decide), harea]
    rfl
  have htake : buffer.take (500 * 512) = split := by
    rw [← hbuffer, copyInto_zero]
    exact List.take_left' hsplit
  obtain ⟨enc, henc⟩ :
      ∃ enc, native.cryptSectorsInPlace aesOnly .encrypt slotKey 0 buffer buffer.length =
          some enc := by
    unfold Native.cryptSectorsInPlace vcCascadeNew
    rw [if_neg (by decide), if_neg (by rw [hlen]; decide), if_neg (by omega),
      if_neg (by rw [hkey]; decide)]
    exact ⟨_, rfl⟩
  have hdec := native.cryptSectorsInPlace_undo (n := 500) henc (by decide) (by rw [hlen]; decide)
  rw [htake] at hdec
  rw [hbuffer]
  exact ⟨enc, henc, (native.cryptSectorsInPlace_length henc).trans hlen, hdec⟩

lemma header_run (jdk : Jdk) (json : List UInt8) (uuid : Uuid) (label : List Char) (hdrOffset : ℕ)
    (w : Machine) : ∃ salt, salt.length = 64 ∧
      header jdk json uuid label hdrOffset w = .ok (headerWith jdk json uuid label hdrOffset salt)
        (w.drawn 64) :=
  ⟨(List.range 64).map w.random, by simp, rfl⟩

lemma writes_run (partition : Slice) {primary secondary area : List UInt8} (hsize : w.blockSize = 512)
    (hdrive : partition.firstBlock + partition.blockCount ≤ w.blockCount)
    (hlarge : DATA_OFFSET ≤ partition.blockCount * 512) (hprimary : primary.length = HEADER_SIZE)
    (hsecondary : secondary.length = HEADER_SIZE) (harea : area.length = AREA_SIZE) :
    ∃ w', (∀ {α : Type} (f : M α), (partition.writeBlocks 0 (primary ++ secondary) >>= fun _ =>
        partition.writeBlocks (KEYSLOTS_OFFSET / 512 : ℕ) area >>= fun _ =>
          zeroFill partition (KEYSLOTS_OFFSET + AREA_SIZE) >>= fun _ => f) w = f w') ∧
      w'.bytes.slice (partition.firstBlock * 512) HEADER_SIZE = primary ∧
      w'.bytes.slice (partition.firstBlock * 512 + KEYSLOTS_OFFSET) AREA_SIZE = area ∧
      w.WritesIn (partition.firstBlock * 512) (partition.firstBlock * 512 + DATA_OFFSET) w' := by
  have hboth : (primary ++ secondary).length = 32768 := by
    rw [List.length_append, hprimary, hsecondary]
    rfl
  clear hsecondary
  replace hprimary : primary.length = 16384 := hprimary
  replace harea : area.length = 258048 := harea
  rw [show KEYSLOTS_OFFSET = 32768 from rfl, show AREA_SIZE = 258048 from rfl,
    show HEADER_SIZE = 16384 from rfl]
  have hblocks : 32768 ≤ partition.blockCount := by
    simp only [DATA_OFFSET] at hlarge
    omega
  obtain ⟨w1, hwrite1, hread1, hin1⟩ := Slice.writeBlocks_spec (w := w) partition 0
    (primary ++ secondary) (by omega) (by rw [hboth, hsize])
    (by rw [hboth, hsize]; exact Nat.le_trans (by decide) (Nat.mul_le_mul_right _ hblocks)) hdrive
  rw [hsize, hboth, Nat.add_zero] at hread1 hin1
  have hsize1 : w1.blockSize = 512 := hin1.blockSize.trans hsize
  have hdrive1 : partition.firstBlock + partition.blockCount ≤ w1.blockCount :=
    hin1.blockCount.symm ▸ hdrive
  obtain ⟨w2, hwrite2, hread2, hin2⟩ := Slice.writeBlocks_spec (w := w1) partition 64
    area (by omega) (by rw [harea, hsize1]) (by rw [harea, hsize1]; omega) hdrive1
  rw [hsize1, harea, Nat.add_mul] at hread2 hin2
  obtain ⟨w3, hwrite3, hin3⟩ :=
    zeroFill_run (hin2.blockSize.trans hsize1) (hin2.blockCount.symm ▸ hdrive1) hlarge
    290816 (by decide)
  refine ⟨w3, fun f => ?_, ?_, ?_, ?_⟩
  · exact (bind_run hwrite1).trans ((bind_run hwrite2).trans (bind_run hwrite3))
  · have hhead : w3.bytes.slice (partition.firstBlock * 512) 32768 = primary ++ secondary := by
      rw [hin3.slice (Or.inl (by omega)), hin2.slice (Or.inl (by omega)), hread1]
    have htake := congrArg (List.take 16384) hhead
    rwa [Bytes.take_slice (by decide), List.take_left' hprimary] at htake
  · exact (hin3.slice (Or.inl (by omega))).trans hread2
  · exact ((hin1.mono (Nat.le_refl _) (by simp only [DATA_OFFSET]; omega)).trans
      (hin2.mono (by omega) (by simp only [DATA_OFFSET]; omega))).trans
        (hin3.mono (by omega) (Nat.le_refl _))

/-- **What a run of `create` leaves behind.** -/
lemma create_run {password slotKey : List UInt8} (label : List Char) (uuid : Uuid)
    (hsize : w.blockSize = 512)
    (hdrive : partition.firstBlock + partition.blockCount ≤ w.blockCount)
    (hlarge : DATA_OFFSET + 2 ^ 20 ≤ partition.blockCount * 512)
    (hargon : native.argon2id password (kdfSaltOf w) ARGON2_TIME ARGON2_MEMORY_KIB ARGON2_LANES
      KEY_BYTES = .ok (some slotKey)) (hreads : ReadsBack jdk (jsonOf jdk w)) :
    ∃ w', create jdk native partition password label uuid w =
      .ok (createdDevice partition (masterKeyOf w)) w' ∧
      OnDrive jdk native (jsonOf jdk w) slotKey (masterKeyOf w) (partition.firstBlock * 512) w' ∧
      w.WritesIn (partition.firstBlock * 512) (partition.firstBlock * 512 + DATA_OFFSET) w' := by
  have hlong := w.offsets
  rw [hsize] at hlong
  have hlong : partition.blockCount * 512 < 2 ^ 63 :=
    Nat.lt_of_le_of_lt (Nat.mul_le_mul_right _ (Nat.le_trans (Nat.le_add_left ..) hdrive)) hlong
  obtain ⟨n, hn⟩ : ∃ n, partition.blockCount * 512 = DATA_OFFSET + n :=
    Nat.exists_eq_add_of_le (Nat.le_trans (Nat.le_add_right ..) hlarge)
  rw [hn] at hlarge hlong
  have hbytes : i64 ((partition.blockCount : ℤ) * 512) = (DATA_OFFSET + n : ℕ) := by
    rw [← hn] at hlong ⊢
    exact i64_natCast hlong
  have hdata : dataBytes (i64 ((partition.blockCount : ℤ) * 512)) = n := by
    rw [hbytes, dataBytes, Nat.cast_add, add_sub_cancel_left]
    exact i64_natCast (Nat.lt_of_le_of_lt (Nat.le_add_left ..) hlong)
  have hkey : (masterKeyOf w).length = KEY_BYTES := by simp [masterKeyOf]
  obtain ⟨area, harea⟩ : ∃ area, (List.range AREA_SIZE).map (w.drawn (KEY_BYTES + 32)).random =
    area := ⟨_, rfl⟩
  obtain ⟨split, hsplit, hslen, hmerge⟩ := afMerge_afSplit jdk (masterKeyOf w) (STRIPES - 1) (by decide)
    (by rw [hkey]; decide) (w.drawn (KEY_BYTES + 32 + AREA_SIZE))
  rw [hkey] at hsplit hslen hmerge
  obtain ⟨enc, henc, hlen, hdec⟩ := keyslot_run hargon
    (show area.length = AREA_SIZE by rw [← harea, List.length_map, List.length_range]) hslen
  have hdigest := (pbkdf2_digest jdk hkey (digestSaltOf w)).1
  have hdraw1 : nextBytes KEY_BYTES w = .ok (masterKeyOf w) (w.drawn KEY_BYTES) := nextBytes_run _
  have hdraw2 : nextBytes 32 (w.drawn KEY_BYTES) = .ok (kdfSaltOf w) (w.drawn (KEY_BYTES + 32)) :=
    nextBytes_drawn ..
  have hdraw3 : nextBytes AREA_SIZE (w.drawn (KEY_BYTES + 32)) =
      .ok area (w.drawn (KEY_BYTES + 32 + AREA_SIZE)) :=
    harea ▸ nextBytes_drawn ..
  rw [Machine.drawn_drawn, show STRIPES - 1 + 1 = STRIPES from rfl] at hsplit
  have hdraw4 : nextBytes 32 (w.drawn (KEY_BYTES + 32 + AREA_SIZE + (STRIPES - 1) * KEY_BYTES)) =
    .ok (digestSaltOf w) _ := nextBytes_drawn ..
  have hjson : json jdk (kdfSaltOf w) (digestSaltOf w) (digestOf jdk (masterKeyOf w) (digestSaltOf w)) =
      .ok (jdk.utf8Encode (jsonText jdk (jsonOf jdk w))) := except_bind_run (require_run hreads.fits)
  have hn20 : (2 ^ 20 : ℤ) ≤ (n : ℤ) := by exact_mod_cast Nat.le_of_add_le_add_left hlarge
  unfold create
  rw [get_bind_run, require_bind_run hsize]
  dsimp only
  rw [hdata, require_bind_run hn20, bind_run hdraw1, bind_run hdraw2,
    lift_bind_run (argon2Key_run hargon), bind_run hdraw3, bind_run hsplit, henc,
    lift_bind_run orThrow_run, bind_run hdraw4, lift_bind_run hdigest, lift_bind_run hjson]
  obtain ⟨salt, hsalt, hprimary⟩ :=
    header_run jdk (jdk.utf8Encode (jsonText jdk (jsonOf jdk w))) uuid label 0
    (w.drawn (KEY_BYTES + 32 + AREA_SIZE + (STRIPES - 1) * KEY_BYTES + 32))
  obtain ⟨salt', hsalt', hsecondary⟩ :=
    header_run jdk (jdk.utf8Encode (jsonText jdk (jsonOf jdk w))) uuid label
    HEADER_SIZE (w.drawn (KEY_BYTES + 32 + AREA_SIZE + (STRIPES - 1) * KEY_BYTES + 32 + 64))
  rw [Machine.drawn_drawn] at hprimary hsecondary
  obtain ⟨w', hwrites, hhead, hslot, hin⟩ := writes_run partition
    (w := w.drawn (KEY_BYTES + 32 + AREA_SIZE + (STRIPES - 1) * KEY_BYTES + 32 + 64 + 64)) hsize hdrive
    (hn ▸ Nat.le_add_right ..) (headerWith_range jdk _ _ uuid label 0 hsalt hreads.fits.le).1
    (headerWith_range jdk _ _ uuid label HEADER_SIZE hsalt' hreads.fits.le).1 hlen
  rw [bind_run hprimary, bind_run hsecondary, hwrites]
  refine ⟨w', ?_, ⟨⟨uuid, label, salt, hsalt, hhead⟩, split, hslen, ?_, hmerge⟩, ⟨hin.1, hin.2, hin.3⟩⟩
  · have hcount : n / 512 = partition.blockCount - DATA_OFFSET / 512 := by
      simp only [DATA_OFFSET] at hn ⊢
      omega
    rw [hsize, Int.toNat_natCast, hcount]
    rfl
  · rw [← hslot, Bytes.take_slice (by decide)] at hdec
    exact hdec

/-! ### Unlocking it -/

lemma readBytes_run {start n : ℕ} (hsize : w.blockSize = 512) (hfits : start + n ≤ w.blockCount)
    (hn : n < 2 ^ 31) :
    readBytes w (start * 512 : ℕ) (n * 512 : ℕ) = .ok (w.bytes.slice (start * 512) (n * 512)) := by
  have hstart : ((start * 512 : ℕ) : ℤ).tdiv 512 = start := by
    rw [Int.tdiv_eq_ediv_of_nonneg (by omega)]
    omega
  have hend : (((start * 512 : ℕ) : ℤ) + (n * 512 : ℕ) + 512 - 1).tdiv 512 = (start + n : ℕ) := by
    rw [Int.tdiv_eq_ediv_of_nonneg (by omega)]
    omega
  have hread : readBlocksInt w start n = .ok (w.bytes.slice (start * 512) (n * 512)) := by
    unfold readBlocksInt
    rw [except_bind_run (require_run (by omega)), failIf_bind_run (by omega), Int.toNat_natCast,
      Int.toNat_natCast, Machine.readBlocks_run hfits, hsize]
  have hrange :=
    copyOfRange_run (l := w.bytes.slice (start * 512) (n * 512)) (m := 0) (n := n * 512) (by omega)
    (Bytes.length_slice ..).ge
  rw [List.drop_zero, Nat.sub_zero, List.take_of_length_le (Bytes.length_slice ..).le] at hrange
  unfold readBytes
  rw [hsize, show ((512 : ℕ) : ℤ) = 512 from rfl]
  dsimp only
  rw [hstart, hend, Nat.cast_add, add_sub_cancel_left, i32_natCast hn, except_bind_run hread,
    show ((start * 512 : ℕ) : ℤ) - start * 512 = (0 : ℕ) by omega, Nat.cast_zero, zero_add]
  exact hrange

lemma tryLuks2Keyslot_run {o : Fields} {first : ℕ} {kdfSalt password slotKey masterKey : List UInt8}
    (hsize : w.blockSize = 512) (hfits : first + 1024 ≤ w.blockCount)
    (hargon : native.argon2id password kdfSalt ARGON2_TIME ARGON2_MEMORY_KIB ARGON2_LANES KEY_BYTES =
      .ok (some slotKey)) (hdrive : OnDrive jdk native o slotKey masterKey (first * 512) w) :
    tryLuks2Keyslot jdk native w first (createdKeyslot kdfSalt) password = .ok (some masterKey) := by
  obtain ⟨split, hlen, hdec, hmerge⟩ := hdrive.keyslot
  have hlong := w.offsets
  rw [hsize] at hlong
  have hslot : slotKeyOf jdk native (createdKeyslot kdfSalt) password = .ok slotKey := by
    dsimp only [slotKeyOf, createdKeyslot]
    rw [hargon]
    rfl
  have hoffset : i64 (first * w.blockSize + KEYSLOTS_OFFSET) = ((first + 64) * 512 : ℕ) := by
    rw [hsize, show KEYSLOTS_OFFSET = 64 * 512 from rfl, ← Nat.cast_mul, ← Nat.cast_add, ← Nat.add_mul]
    have hle : first + 64 ≤ w.blockCount := Nat.le_trans (Nat.add_le_add_left (by decide) _) hfits
    exact i64_natCast (Nat.lt_of_le_of_lt (Nat.mul_le_mul_right _ hle) hlong)
  -- the sizes that are computed from the header
  have hbytes : luks2KmBytes (createdKeyslot kdfSalt) = AF_BYTES := by
    show i32 ((i32 ((STRIPES : ℤ) * KEY_BYTES + 511)).tdiv 512 * 512) = _
    decide
  have hread : luks2Material w first (createdKeyslot kdfSalt) =
      .ok (w.bytes.slice (first * 512 + KEYSLOTS_OFFSET) AF_BYTES) := by
    unfold luks2Material
    rw [hbytes, show (createdKeyslot kdfSalt).areaOffsetBytes = KEYSLOTS_OFFSET from rfl]
    dsimp only
    rw [hoffset, show AF_BYTES = 500 * 512 from rfl, readBytes_run hsize (by omega) (by decide),
      Nat.add_mul, show KEYSLOTS_OFFSET = 64 * 512 from rfl]
  have hmaterial : copyOfRange split 0 AF_BYTES = .ok split := by
    have h := copyOfRange_run (l := split) (m := 0) (Nat.zero_le _) hlen.ge
    rwa [List.drop_zero, Nat.sub_zero, List.take_of_length_le hlen.le, Nat.cast_zero] at h
  have haf : i32 ((STRIPES : ℤ) * KEY_BYTES) = AF_BYTES := by decide
  unfold tryLuks2Keyslot
  rw [except_bind_run hslot, except_bind_run hread, hbytes]
  simp only [hdec, createdKeyslot, haf]
  rw [except_bind_run hmaterial, except_bind_run hmerge]
  rfl

lemma makeCryptoDevice_run (partition : Slice) {blockCount : Option ℕ} (masterKey : List UInt8)
    (hsize : w.blockSize = 512)
    (hblocks : totalBlocks w partition.firstBlock blockCount = partition.blockCount) :
    makeCryptoDevice w partition.firstBlock blockCount masterKey (DATA_OFFSET / 512) =
      .ok (.crypto ((createdDevice partition masterKey).onDrive partition.firstBlock)) := by
  have hoffset : i64 ((DATA_OFFSET : ℤ) / 512 * 512) = (DATA_OFFSET : ℕ) := by decide
  unfold makeCryptoDevice
  rw [hoffset, hsize, hblocks]
  dsimp only
  rw [except_bind_run (require_run (by decide)), show ((DATA_OFFSET : ℕ) : ℤ).tdiv (512 : ℕ) =
    (DATA_OFFSET / 512 : ℕ) from rfl, ← Nat.cast_add, Int.toNat_natCast, Int.toNat_sub]
  rfl

end Drive

/-! ### Main result -/

section Main

variable {jdk : Jdk} {native : Native} {partition : Slice} {password slotKey : List UInt8}
  {label : List Char} {uuid : Uuid} {blockCount : Option ℕ} {w : Machine}

/-- **Unlocking what is on the drive.** -/
lemma unlock_run {kdfSalt digestSalt masterKey : List UInt8} (hsize : w.blockSize = 512)
    (hdrive : partition.firstBlock + partition.blockCount ≤ w.blockCount)
    (hlarge : 1024 ≤ partition.blockCount)
    (hargon : native.argon2id password kdfSalt ARGON2_TIME ARGON2_MEMORY_KIB ARGON2_LANES
      KEY_BYTES = .ok (some slotKey)) (hkey : masterKey.length = KEY_BYTES)
    (hjson : ReadsBack jdk (luksJson kdfSalt digestSalt (digestOf jdk masterKey digestSalt)))
    (hon : OnDrive jdk native (luksJson kdfSalt digestSalt (digestOf jdk masterKey digestSalt))
      slotKey masterKey (partition.firstBlock * 512) w)
    (hblocks : totalBlocks w partition.firstBlock blockCount = partition.blockCount) :
    unlock jdk native w partition.firstBlock blockCount password =
      .ok (.crypto ((createdDevice partition masterKey).onDrive partition.firstBlock)) := by
  obtain ⟨uuid, label, salt, hsalt, hhead⟩ := hon.header
  obtain ⟨rest, hread⟩ : ∃ rest, readHeader w partition.firstBlock blockCount =
      .ok (headerWith jdk (jdk.utf8Encode (jsonText jdk
        (luksJson kdfSalt digestSalt (digestOf jdk masterKey digestSalt)))) uuid label 0 salt ++
            rest) := by
    refine ⟨w.bytes.slice (partition.firstBlock * 512 + HEADER_SIZE) (512 * 512 - HEADER_SIZE), ?_⟩
    rw [← hhead, ← Bytes.slice_add, readHeader, hblocks, Nat.min_eq_left (by omega),
      Machine.readBlocks_run (by omega), hsize]
    rfl
  obtain ⟨hversion, hparse⟩ := parseLuks2_header hjson hsalt uuid label 0 rest
  rw [parse_luksJson] at hparse
  have hcipher : verifyCipher "aes".toList "xts-plain64".toList = .ok () := by decide
  unfold unlock
  rw [except_bind_run hread, hversion]
  dsimp only
  rw [if_neg (by decide), if_pos rfl, unlockLuks2, except_bind_run hparse, except_bind_run hcipher,
    failIf_bind_run (by simp), failIf_bind_run (by simp), tryKeyslots,
    except_bind_run (tryLuks2Keyslot_run hsize (by omega) hargon hon)]
  dsimp only
  rw [except_bind_run (matchesLuks2_digest jdk hkey digestSalt), if_pos rfl, luks2Device,
    if_neg (by simp)]
  exact makeCryptoDevice_run partition masterKey hsize hblocks

/-- **A created volume is unlocked as it was created.** On every partition of 512-byte sectors that
is large enough, for every password and every source of randomness, `create` returns, and `unlock`
of the partition with the same password returns a device with the same key, block count, mapping and
tweaks. Nothing but the part of the partition before the data segment is written. -/
theorem created_unlocks (hsize : w.blockSize = 512)
    (hdrive : partition.firstBlock + partition.blockCount ≤ w.blockCount)
    (hlarge : DATA_OFFSET + 2 ^ 20 ≤ partition.blockCount * 512)
    (hargon : native.argon2id password (kdfSaltOf w) ARGON2_TIME ARGON2_MEMORY_KIB ARGON2_LANES
      KEY_BYTES = .ok (some slotKey))
    (hjson : ReadsBack jdk (jsonOf jdk w))
    (hblocks : totalBlocks w partition.firstBlock blockCount = partition.blockCount) :
    ∃ created unlocked w', create jdk native partition password label uuid w = .ok created w' ∧
      unlock jdk native w' partition.firstBlock blockCount password = .ok (.crypto unlocked) ∧
      SameVolume partition.firstBlock created unlocked ∧
      unlocked.decryptedBlockCount = created.decryptedBlockCount ∧
      w.WritesIn (partition.firstBlock * 512) (partition.firstBlock * 512 + DATA_OFFSET) w' := by
  obtain ⟨w', hcreate, hon, hin⟩ := create_run label uuid hsize hdrive hlarge hargon hjson
  have hlarge' : 1024 ≤ partition.blockCount := by
    simp only [DATA_OFFSET] at hlarge
    omega
  have hblocks' : totalBlocks w' partition.firstBlock blockCount = partition.blockCount := by
    rw [← hblocks, totalBlocks, totalBlocks, hin.blockCount]
  have hunlock : unlock jdk native w' partition.firstBlock blockCount password = _ :=
    unlock_run (hin.blockSize.trans hsize) (hin.blockCount.symm ▸ hdrive) hlarge' hargon
      (by rw [masterKeyOf, List.length_map, List.length_range]) hjson hon hblocks'
  exact ⟨_, _, w', hcreate, hunlock, sameVolume_onDrive .., rfl, hin⟩

end Main

/-! ### The smallest volume -/

def smallDrive : Machine := ⟨512, 34816, fun _ => 0, UInt8.ofNat, by decide⟩

lemma unescape_eq {s : List Char} (h : s.all (· ≠ '\\') = true) : unescape s = s := by
  induction s with
  | nil => rfl
  | cons c s ih =>
    rw [List.all_cons, Bool.and_eq_true] at h
    rw [unescape, ih h.2]
    exact fun _ hc _ => of_decide_eq_true h.1 hc

/-- The JSON object that is written: digests of `sampleJdk` are zeros. -/
def smallJson : Fields :=
  luksJson (kdfSaltOf smallDrive) (digestSaltOf smallDrive) (List.replicate 32 0)

lemma pbkdf2Block_zeros (salt : List UInt8) (n : ℤ) (i : ℕ) :
    pbkdf2Block (fun _ => List.replicate 32 0) salt n i = List.replicate 32 0 := by
  unfold pbkdf2Block
  generalize List.range (n - 1).toNat = l
  induction l with
  | nil => rfl
  | cons _ l ih => exact ih

lemma jsonOf_small : jsonOf sampleJdk smallDrive = smallJson := by
  have hdigest : ∀ key salt, digestOf sampleJdk key salt = List.replicate 32 0 :=
    fun _ salt => pbkdf2Block_zeros salt DIGEST_ITERATIONS 1
  rw [jsonOf, hdigest, smallJson]

lemma smallJson_readsBack : ReadsBack sampleJdk smallJson := by
  have htext : jsonText sampleJdk smallJson = Codec.encode (.obj smallJson) :=
    unescape_eq (by decide +kernel)
  constructor
  · rw [htext]
    decide +kernel
  · rw [htext, show sampleJdk.toTexts = codec from rfl, parseJson_encode]
  · rw [htext, getLast?_encode]
  · rw [htext]
    exact utf8Decode_append_zeros (by decide +kernel)

theorem created_unlocks_small : ∃ created unlocked w',
    create sampleJdk plainNative ⟨0, 34816⟩ [1] "usb".toList ⟨List.replicate 36 0x61, rfl⟩ smallDrive =
        .ok created w' ∧
      unlock sampleJdk plainNative w' 0 (some 34816) [1] = .ok (.crypto unlocked) ∧
      SameVolume 0 created unlocked ∧
      unlocked.decryptedBlockCount = created.decryptedBlockCount ∧
      smallDrive.WritesIn (0 * 512) (0 * 512 + DATA_OFFSET) w' := by
  have hargon : plainNative.argon2id [1] (kdfSaltOf smallDrive) ARGON2_TIME ARGON2_MEMORY_KIB ARGON2_LANES
      KEY_BYTES = .ok (some (List.replicate 64 0)) := rfl
  exact created_unlocks rfl (Nat.le_refl _) (by decide) hargon (jsonOf_small ▸ smallJson_readsBack) rfl

end OtgMaster.Luks
