import OtgMaster.Luks.Created

/-!
The anti-forensic split and merge as they are written: on arrays, with lengths and positions that
are `Int`s and may wrap, and with two diffusers that replace the chunks of a buffer in place, each
with its own way to find how long the last one is.

A diffuser returns what the chunks make of the buffer (`chunks_run`), for every buffer in which the
position does not wrap; in a longer one both throw. Where the material fits into an array, the split
is the one on lists, and where it does not the split throws (`afSplit_fits`), so that whatever it
returns is merged to the key.
-/

namespace OtgMaster.Luks.InPlace

open Lib Block Platform

/-! ### the diffusers -/

section Diffusers

variable (jdk : Jdk)

/-- `md.update(buf, pos, count)`: the bytes that the digest is fed with. -/
def updated (buf : List UInt8) (pos count : ℤ) : E (List UInt8) := do
  failIf (i32 (buf.length - pos) < count) ⟨.illegalArgument, "Input buffer too short"⟩
  failIf (pos < 0 ∨ count < 0 ∨ buf.length < pos + count) ⟨.indexOutOfBounds, ""⟩
  return (buf.drop pos.toNat).take count.toNat

/-- The loop of a diffuser over chunks of `step` bytes: `count` is the number of bytes that it takes
at a position. `turns` bounds the turns; the loop ends before. -/
def chunks (alg : Sha) (step : ℕ) (count : ℤ → ℤ) (buf : List UInt8) :
    (turns : ℕ) → (pos chunk : ℤ) → (result : List UInt8) → E (List UInt8)
  | 0, _, _, _ => throw ⟨.illegalState, "the loop goes on"⟩
  | turns + 1, pos, chunk, result =>
    if pos < buf.length then do
      let bytes ← updated buf pos (count pos)
      let hash := jdk.digest alg (bigEndian 4 chunk ++ bytes)
      -- `copyInto` finds the range that `update` has found in an array of the same length
      chunks alg step count buf turns (i32 (pos + step)) (i32 (chunk + 1))
        (copyInto (hash.take (count pos).toNat) result pos.toNat)
    else return result

def diffuse (buf : List UInt8) : E (List UInt8) :=
  chunks jdk .sha256 32 (fun pos => min 32 (i32 (buf.length - pos))) buf (rounds buf.length 32 + 1) 0 0
    (List.replicate buf.length 0)

def hashDiffuse (hashSpec : List Char) (buf : List UInt8) : E (List UInt8) :=
  let alg := shaFor hashSpec
  let hLen := alg.digestLength
  chunks jdk alg hLen (fun pos => i32 (min (i32 (pos + hLen)) buf.length - pos)) buf
    (rounds buf.length hLen + 1) 0 0
    (List.replicate buf.length 0)

end Diffusers

/-! ### split and merge -/

section Programs

variable (jdk : Jdk)

def copyIntoArray (src out : List UInt8) (offset : ℤ) : E (List UInt8) := do
  failIf (offset < 0 ∨ (out.length : ℤ) < offset + src.length) ⟨.indexOutOfBounds, ""⟩
  return copyInto src out offset.toNat

def setAt (out : List UInt8) (i : ℤ) (v : UInt8) : E (List UInt8) := do
  failIf (i < 0 ∨ (out.length : ℤ) ≤ i) ⟨.indexOutOfBounds, s!"index: {i}"⟩
  return out.set i.toNat v

/-- A loop that stores bytes one by one from an index on. -/
def storeAll : (values : List UInt8) → (index : ℤ) → (out : List UInt8) → E (List UInt8)
  | [], _, out => pure out
  | v :: values, index, out => do
    let out ← setAt out (i32 index) v
    storeAll values (index + 1) out

def splitLoop (n : ℕ) : (turns i : ℕ) → (out buf : List UInt8) → M (List UInt8 × List UInt8)
  | 0, _, out, buf => pure (out, buf)
  | turns + 1, i, out, buf => do
    let stripe ← nextBytes n
    let out ← copyIntoArray stripe out (i32 (i * n))
    let buf ← diffuse jdk (xorBytes buf stripe)
    splitLoop n turns (i + 1) out buf

def afSplit (key : List UInt8) (stripes : ℤ) : M (List UInt8) := do
  let size := i32 (key.length * stripes)
  (failIf (size < 0) ⟨.negativeArraySize, s!"{size}"⟩ : E PUnit)
  let (out, buf) ← splitLoop jdk key.length (i32 (stripes - 1)).toNat 0 (List.replicate size.toNat 0)
    (List.replicate key.length 0)
  storeAll (xorBytes buf key) ((stripes - 1) * key.length) out

def afMerge (keyMaterial : List UInt8) (stripes keyLen : ℤ) (hashSpec : List Char) : E (List UInt8) := do
  failIf (keyLen < 0) ⟨.negativeArraySize, s!"{keyLen}"⟩
  let buf ← (List.range (i32 (stripes - 1)).toNat).foldlM (fun buf (i : ℕ) => do
    let stripe ← copyOfRange keyMaterial (i32 (i * keyLen)) (i32 ((i + 1) * keyLen))
    hashDiffuse jdk hashSpec (xorBytes buf stripe)) (List.replicate keyLen.toNat 0)
  let last ← copyOfRange keyMaterial (i32 ((stripes - 1) * keyLen)) (i32 (stripes * keyLen))
  return xorBytes buf last

end Programs

/-! ### what a diffuser returns -/

section Chunks

variable (jdk : Jdk) {alg : Sha} {step : ℕ} {count : ℤ → ℤ} {buf : List UInt8}

def diffused (alg : Sha) (chunk : ℕ) (unit : List UInt8) : List UInt8 :=
  (jdk.digest alg (bigEndian 4 chunk ++ unit)).take unit.length

lemma updated_run {pos cnt : ℕ} (h : pos + cnt ≤ buf.length) (hbuf : buf.length < 2 ^ 31) :
    updated buf pos cnt = .ok ((buf.drop pos).take cnt) := by
  have hsub : i32 ((buf.length : ℤ) - pos) = buf.length - pos := i32_of_lt (by omega) (by omega)
  unfold updated
  rw [failIf_bind_run (by rw [hsub]; omega), failIf_bind_run (by omega), Int.toNat_natCast,
    Int.toNat_natCast]
  rfl

/-- The result after the first `m` chunks have been stored. -/
def stored (alg : Sha) (step : ℕ) (buf : List UInt8) (m : ℕ) : List UInt8 :=
  (List.range m).foldl
    (fun result i => copyInto (diffused jdk alg i ((buf.drop (i * step)).take step)) result
      (i * step))
    (List.replicate buf.length 0)

lemma stored_succ (m : ℕ) : stored jdk alg step buf (m + 1) =
    copyInto (diffused jdk alg m ((buf.drop (m * step)).take step)) (stored jdk alg step buf m)
      (m * step) := by
  rw [stored, List.range_succ, List.foldl_append]
  rfl

/-- **The first turns**: each chunk is stored, as long as its length is found right. -/
lemma chunks_reach (alg : Sha) (count : ℤ → ℤ) (hstep : 2 ≤ step) (hbuf : buf.length < 2 ^ 31)
    (turns m : ℕ) (hm : m * step ≤ 2 ^ 31)
    (hin : ∀ i < m, i * step < buf.length ∧
      count (i * step : ℕ) = (min step (buf.length - i * step) : ℕ)) :
    chunks jdk alg step count buf (m + turns) 0 0 (List.replicate buf.length 0) =
      chunks jdk alg step count buf turns (i32 (m * step : ℕ)) m (stored jdk alg step buf m) := by
  induction m generalizing turns with
  | zero =>
    rw [Nat.zero_mul, Nat.zero_add]
    rfl
  | succ m ih =>
    rw [Nat.succ_mul] at hm
    obtain ⟨hlt, hcount⟩ := hin m (Nat.lt_succ_self m)
    have hpos : i32 (m * step : ℕ) = (m * step : ℕ) := i32_natCast (by omega)
    have hchunk : i32 ((m : ℤ) + 1) = (m + 1 : ℕ) := by
      have : m + 1 < 2 ^ 31 := by nlinarith
      rw [← Nat.cast_succ, i32_natCast this]
    have htake : (buf.drop (m * step)).take (min step (buf.length - m * step)) =
        (buf.drop (m * step)).take step := by
      rw [← List.length_drop, ← List.take_eq_take_min]
    have hlen : ((buf.drop (m * step)).take step).length = min step (buf.length - m * step) := by
      rw [List.length_take, List.length_drop]
    rw [Nat.add_right_comm, Nat.add_assoc,
      ih (turns + 1) (by omega) (fun i hi => hin i (hi.trans (Nat.lt_succ_self m))), chunks,
      hpos, if_pos (by exact_mod_cast hlt), hcount, except_bind_run (updated_run (by omega) hbuf),
      htake, stored_succ, Nat.succ_mul, hchunk, Int.toNat_natCast, Int.toNat_natCast, diffused,
      hlen]
    push_cast
    rfl

lemma diffused_length (chunk : ℕ) {unit : List UInt8} (h : unit.length ≤ alg.digestLength) :
    (diffused jdk alg chunk unit).length = unit.length := by
  rw [diffused, List.length_take, jdk.digest_length, Nat.min_eq_left h]

lemma stored_eq (alg : Sha) (buf : List UInt8) (m : ℕ) (hm : (m - 1) * alg.digestLength ≤ buf.length) :
    stored jdk alg alg.digestLength buf m =
      mapUnits (diffused jdk alg) alg.digestLength m 0 (buf.take (m * alg.digestLength)) ++
        List.replicate (buf.length - m * alg.digestLength) 0 := by
  induction m with
  | zero =>
    rw [Nat.zero_mul, List.take_zero, Nat.sub_zero]
    rfl
  | succ m ih =>
    rw [Nat.add_sub_cancel] at hm
    have hunit : ((buf.drop (m * alg.digestLength)).take alg.digestLength).length =
        min alg.digestLength (buf.length - m * alg.digestLength) := by
          rw [List.length_take, List.length_drop]
    have hdone :
      (mapUnits (diffused jdk alg) alg.digestLength m 0 (buf.take (m * alg.digestLength))).length =
        m * alg.digestLength := by
      rw [length_mapUnits fun i l h => diffused_length jdk i h, List.length_take_of_le hm]
    have hprev := ih (Nat.le_trans (Nat.mul_le_mul_right _ (Nat.sub_le m 1)) hm)
    rw [stored_succ, hprev, copyInto, List.take_left' hdone, ← List.drop_drop,
      List.drop_left' hdone, List.drop_replicate,
      diffused_length jdk m (hunit.trans_le (Nat.min_le_left _ _)), hunit, Nat.succ_mul,
      mapUnits_last m 0 (buf.take (m * alg.digestLength + alg.digestLength))
        (by rw [List.length_take]; omega), List.take_take,
      Nat.min_eq_left (Nat.le_add_right _ _), List.drop_take, Nat.add_sub_cancel_left,
      List.take_take, Nat.min_self, List.drop_take, Nat.sub_self, List.take_zero, List.append_nil,
      Nat.zero_add]
    congr 2
    omega

/-- **A diffuser's loop**, for a buffer in which its position does not wrap. -/
lemma chunks_run (alg : Sha) (hsize : buf.length + alg.digestLength ≤ 2 ^ 31)
    (hcount : ∀ i : ℕ, i * alg.digestLength < buf.length →
      count (i * alg.digestLength : ℕ) =
        (min alg.digestLength (buf.length - i * alg.digestLength) : ℕ)) :
    chunks jdk alg alg.digestLength count buf (rounds buf.length alg.digestLength + 1) 0 0
      (List.replicate buf.length 0) =
      .ok (mapUnits (diffused jdk alg) alg.digestLength (rounds buf.length alg.digestLength) 0 buf) := by
  have hpos : 20 ≤ alg.digestLength := by cases alg <;> decide
  have hstored := stored_eq jdk alg buf (rounds buf.length alg.digestLength)
  have hreach :=
    chunks_reach jdk alg count (by omega : 2 ≤ alg.digestLength) (by omega : buf.length < 2 ^ 31) 1
    (rounds buf.length alg.digestLength)
  generalize alg.digestLength = step at *
  have hrounds := Nat.div_add_mod (buf.length + step - 1) step
  have hmod := Nat.mod_lt (buf.length + step - 1) (Nat.zero_lt_of_lt hpos)
  rw [Nat.mul_comm] at hrounds
  change rounds buf.length step * step + _ = _ at hrounds
  have hle : (rounds buf.length step - 1) * step ≤ buf.length := by
    rw [Nat.sub_mul]
    omega
  have hin (i : ℕ) (hi : i < rounds buf.length step) : i * step < buf.length := by
    have := Nat.mul_le_mul_right step (Nat.succ_le_of_lt hi)
    rw [Nat.succ_mul] at this
    omega
  rw [hreach (by omega) fun i hi => ⟨hin i hi, hcount i (hin i hi)⟩, chunks, i32_natCast (by omega),
    if_neg (by omega),
    hstored hle, List.take_of_length_le (by omega), Nat.sub_eq_zero_of_le (by omega),
    List.replicate_zero, List.append_nil]
  rfl

end Chunks

section Diffusers

variable (jdk : Jdk) {buf : List UInt8}

lemma diffuse_run (h : buf.length + 32 ≤ 2 ^ 31) : diffuse jdk buf = .ok (Luks.diffuse jdk buf) := by
  refine chunks_run jdk .sha256 h fun i hi => ?_
  change i * 32 < buf.length at hi
  change min 32 (i32 ((buf.length : ℤ) - (i * 32 : ℕ))) = (min 32 (buf.length - i * 32) : ℕ)
  rw [i32_of_lt (by omega) (by omega)]
  omega

lemma hashDiffuse_run (hashSpec : List Char) (h : buf.length + (shaFor hashSpec).digestLength ≤ 2 ^ 31) :
    hashDiffuse jdk hashSpec buf = .ok (Luks.hashDiffuse jdk (shaFor hashSpec) buf) := by
  rw [hashDiffuse, chunks_run jdk _ h]
  · rfl
  intro i hi
  generalize (shaFor hashSpec).digestLength = step at *
  rw [i32_of_lt (x := ((i * step : ℕ) : ℤ) + step) (by omega) (by omega),
    i32_of_lt (by omega) (by omega)]
  omega

/-- A buffer in which the position of the creator's diffuser wraps. -/
lemma diffuse_wraps (h : 2 ^ 31 < buf.length + 32) (hbuf : buf.length < 2 ^ 31) :
    diffuse jdk buf = .error ⟨.indexOutOfBounds, ""⟩ := by
  have hrounds : rounds buf.length 32 = 2 ^ 26 := by
    unfold rounds
    omega
  have hreach :=
    chunks_reach jdk .sha256 (fun pos => min 32 (i32 (buf.length - pos))) (by decide : 2 ≤ 32) hbuf
        1 (2 ^ 26) (by decide) fun i hi => by
      refine ⟨by omega, ?_⟩
      rw [i32_of_lt (by omega) (by omega)]
      omega
  have hpos : i32 ((2 ^ 26 * 32 : ℕ) : ℤ) = -2 ^ 31 := by decide
  have hleft : i32 ((buf.length : ℤ) - -2 ^ 31) = buf.length - 2 ^ 31 := by
    obtain ⟨k, hk, hk1, hk2⟩ := i32_eq ((buf.length : ℤ) - -2 ^ 31)
    omega
  rw [diffuse, hrounds, hreach, chunks, hpos, if_pos (by omega), hleft, updated, hleft,
    failIf_bind_run (by omega), failIf,
    if_pos (.inl (by decide))]
  rfl

lemma sha256_spec : shaFor "sha256".toList = .sha256 := by decide

/-- The unlocker's diffuser takes too much of the last chunk there. -/
lemma hashDiffuse_wraps (h : 2 ^ 31 < buf.length + 32) (hbuf : buf.length < 2 ^ 31) :
    hashDiffuse jdk "sha256".toList buf = .error ⟨.illegalArgument, "Input buffer too short"⟩ := by
  have hrounds : rounds buf.length 32 + 1 = 2 ^ 26 - 1 + 2 := by
    unfold rounds
    omega
  have hreach := chunks_reach jdk .sha256 (fun pos => i32 (min (i32 (pos + (32 : ℕ))) buf.length - pos))
    (by decide : 2 ≤ 32) hbuf 2 (2 ^ 26 - 1) (by decide) fun i hi => by
      refine ⟨by omega, ?_⟩
      rw [i32_of_lt (x := ((i * 32 : ℕ) : ℤ) + (32 : ℕ)) (by omega) (by omega),
        i32_of_lt (by omega) (by omega)]
      omega
  have hpos : i32 (((2 ^ 26 - 1) * 32 : ℕ) : ℤ) = 2 ^ 31 - 32 := by decide
  have hend : i32 (2 ^ 31 - 32 + (32 : ℕ)) = -2 ^ 31 := by decide
  have hcount : i32 (-2 ^ 31 - (2 ^ 31 - 32)) = 32 := by decide
  have hleft : i32 ((buf.length : ℤ) - (2 ^ 31 - 32)) = buf.length - (2 ^ 31 - 32) :=
    i32_of_lt (by omega) (by omega)
  rw [hashDiffuse, sha256_spec]
  change chunks jdk .sha256 32 (fun pos => i32 (min (i32 (pos + (32 : ℕ))) buf.length - pos)) buf
    (rounds buf.length 32 + 1) 0 0 _ = _
  rw [hrounds, hreach, chunks, hpos, if_pos (by omega), hend, min_eq_left (by omega), hcount,
    updated, hleft, failIf, if_pos (by omega)]
  rfl

lemma diffuse_ok {r : List UInt8} (hbuf : buf.length < 2 ^ 31) (h : diffuse jdk buf = .ok r) :
    r = Luks.diffuse jdk buf := by
  rcases Nat.lt_or_ge (2 ^ 31) (buf.length + 32) with hlt | hge
  · rw [diffuse_wraps jdk hlt hbuf] at h
    cases h
  · rw [diffuse_run jdk hge] at h
    cases h
    rfl

end Diffusers

/-! ### the array of a split -/

section Arrays

variable (jdk : Jdk) {out buf : List UInt8} {n : ℕ}

lemma storeAll_ok : ∀ {values out r : List UInt8} {o : ℕ}, out.length < 2 ^ 31 → o ≤ out.length →
    storeAll values o out = .ok r → o + values.length ≤ out.length := by
  intro values
  induction values with
  | nil => intro out r o _ ho _; exact ho
  | cons v values ih =>
    intro out r o hout ho h
    rw [storeAll, i32_natCast (by omega)] at h
    obtain ⟨next, hset, hrest⟩ := except_bind_ok h
    obtain ⟨hin, hset⟩ := failIf_bind_ok hset
    cases hset
    have hlen : (out.set o v).length = out.length := List.length_set
    have := ih (by rwa [hlen] : (out.set o v).length < 2 ^ 31) (by rw [hlen]; omega : o + 1 ≤ _) hrest
    rw [hlen] at this
    rw [List.length_cons]
    omega

lemma copyInto_cons {v : UInt8} {values : List UInt8} {o : ℕ} (h : o < out.length) :
    copyInto values (out.set o v) (o + 1) = copyInto (v :: values) out o := by
  have htake : (out.set o v).take (o + 1) = out.take o ++ [v] := by
    rw [List.set_eq_take_append_cons_drop, if_pos h, List.take_append, List.length_take_of_le h.le,
      Nat.add_sub_cancel_left, List.take_of_length_le (by rw [List.length_take]; omega)]
    rfl
  rw [copyInto, htake, List.drop_set_of_lt (by omega), copyInto, List.length_cons,
    List.append_assoc (out.take o), Nat.add_assoc, Nat.add_comm 1]
  rfl

lemma storeAll_run :
    ∀ {values out : List UInt8} {o : ℕ}, out.length < 2 ^ 31 → o + values.length ≤ out.length →
    storeAll values o out = .ok (copyInto values out o) := by
  intro values
  induction values with
  | nil => intro out o _ _; simp [storeAll, copyInto]; rfl
  | cons v values ih =>
    intro out o hout h
    rw [List.length_cons] at h
    have hset : setAt out (i32 (o : ℤ)) v = .ok (out.set o v) := by
      rw [setAt, i32_natCast (by omega), failIf_bind_run (by omega), Int.toNat_natCast]
      rfl
    have hlen : (out.set o v).length = out.length := List.length_set
    have hnext := ih (by rwa [hlen]) (by rw [hlen]; omega : o + 1 + values.length ≤ (out.set o v).length)
    rw [storeAll, except_bind_run hset, ← copyInto_cons (by omega), ← hnext]
    push_cast
    rfl

lemma splitLoop_ok {w w' : Machine} {r : List UInt8 × List UInt8} (hn : n < 2 ^ 31)
    (hout : out.length < 2 ^ 31) :
    ∀ {turns i : ℕ}, i * n ≤ out.length → buf.length = n → splitLoop jdk n turns i out buf w = .ok r w' →
      (i + turns) * n ≤ out.length ∧ r.1.length = out.length ∧ r.2.length = n := by
  intro turns
  induction turns generalizing out buf w with
  | zero =>
    intro i hi hbuf h
    cases h
    exact ⟨hi, rfl, hbuf⟩
  | succ turns ih =>
    intro i hi hbuf h
    rw [splitLoop, bind_run (nextBytes_run n), i32_of_lt (by positivity) (by omega)] at h
    obtain ⟨next, hcopy, hrest⟩ := lift_bind_ok h
    obtain ⟨b, hdiffuse, hrest⟩ := lift_bind_ok hrest
    have hstripe : buf.length = ((List.range n).map w.random).length := by
      rw [List.length_map, List.length_range, hbuf]
    have hb : b.length = n := by
      rw [diffuse_ok jdk (by rwa [xorBytes_length hstripe, hbuf]) hdiffuse]
      exact (turn_length jdk hstripe).trans hbuf
    obtain ⟨hin, hcopy⟩ := failIf_bind_ok hcopy
    cases hcopy
    rw [List.length_map, List.length_range] at hin
    have hcast : ((i : ℤ) * n).toNat = i * n := by rw [← Int.natCast_mul, Int.toNat_natCast]
    rw [hcast] at hrest
    have hin' : (i + 1) * n ≤ out.length := by
      rw [Nat.succ_mul]
      omega
    have hlen : (copyInto ((List.range n).map w.random) out (i * n)).length = out.length :=
      copyInto_length (by rw [List.length_map, List.length_range, ← Nat.succ_mul]; exact hin')
    have hend := ih (by rwa [hlen]) (by rwa [hlen]) hb hrest
    rw [hlen, Nat.add_assoc, Nat.add_comm 1] at hend
    exact hend

lemma splitLoop_run {w w' : Machine} {stripes last : List UInt8} :
    ∀ {turns i : ℕ} {pre rest buf : List UInt8}, pre.length = i * n → turns * n ≤ rest.length →
      (pre ++ rest).length < 2 ^ 31 → buf.length = n → n + 32 ≤ 2 ^ 31 ∨ turns = 0 →
      afStripes jdk turns buf w = .ok (stripes, last) w' →
      splitLoop jdk n turns i (pre ++ rest) buf w = .ok (pre ++ stripes ++ rest.drop (turns * n),
        last) w' := by
  intro turns
  induction turns generalizing w stripes with
  | zero =>
    intro i pre rest buf _ _ _ _ _ h
    cases h
    rw [Nat.zero_mul, List.drop_zero, List.append_nil]
    rfl
  | succ turns ih =>
    intro i pre rest buf hpre hrest hlen hbuf hn h
    rw [Nat.succ_mul] at hrest
    rw [List.length_append] at hlen
    rw [afStripes, bind_run (nextBytes_run _), hbuf] at h
    generalize hs : (List.range n).map w.random = s at h
    have hslen : s.length = n := by rw [← hs, List.length_map, List.length_range]
    obtain ⟨⟨o, l⟩, w₁, hrun, hret⟩ := bind_ok h
    cases hret
    have hxor : (xorBytes buf s).length = n := by rw [xorBytes_length (hbuf.trans hslen.symm), hbuf]
    have hturn : (Luks.diffuse jdk (xorBytes buf s)).length = n := by
      have := turn_length jdk (hbuf.trans hslen.symm)
      rw [hbuf] at this
      exact this
    have hcopy : copyIntoArray s (pre ++ rest) (i32 (i * n)) = .ok (pre ++ s ++ rest.drop n) := by
      rw [← Int.natCast_mul, i32_natCast (by omega), copyIntoArray,
        failIf_bind_run (by rw [List.length_append, hpre, hslen]; omega), Int.toNat_natCast,
        copyInto, List.take_left' hpre, ← List.drop_drop, List.drop_left' hpre, hslen]
      rfl
    have hpre' : (pre ++ s).length = (i + 1) * n := by rw [List.length_append, hpre, hslen, Nat.succ_mul]
    have hrest' : turns * n ≤ (rest.drop n).length := by
      rw [List.length_drop]
      omega
    have hnext := ih hpre' hrest' (by simp only [List.length_append, List.length_drop]; omega) hturn
      (.inl (hn.resolve_right (Nat.succ_ne_zero _))) hrun
    rw [splitLoop, bind_run (nextBytes_run n), hs, lift_bind_run hcopy,
      lift_bind_run (diffuse_run jdk (by have := hn.resolve_right (Nat.succ_ne_zero _); omega)),
      hnext, List.drop_drop, Nat.succ_mul, Nat.add_comm n, List.append_assoc pre s]

end Arrays

/-! ### the round trip -/

section RoundTrip

variable (jdk : Jdk) {key : List UInt8} {stripes : ℕ}

lemma stripes_before (h1 : 1 ≤ stripes) (h2 : stripes < 2 ^ 31) :
    (i32 ((stripes : ℤ) - 1)).toNat = stripes - 1 := by
  rw [i32_of_lt (by omega) (by omega)]
  omega

/-- **A split that returns has an array that the material fits into**: a wrapped size is too small
for the stripes. -/
lemma afSplit_fits {w w' : Machine} {split : List UInt8} (hkey : key.length < 2 ^ 31)
    (h1 : 1 ≤ stripes) (h2 : stripes < 2 ^ 31) (h : afSplit jdk key stripes w = .ok split w') :
    stripes * key.length < 2 ^ 31 := by
  obtain ⟨k, hk, -, hlt⟩ := i32_eq ((key.length : ℤ) * stripes)
  unfold afSplit at h
  generalize i32 ((key.length : ℤ) * stripes) = size at h hk hlt
  obtain ⟨_, hsize, hrun⟩ := lift_bind_ok h
  have hsize := failIf_ok hsize
  rw [stripes_before h1 h2] at hrun
  obtain ⟨⟨out, buf⟩, w₁, hloop, hstore⟩ := bind_ok hrun
  have hlen : (List.replicate size.toNat (0 : UInt8)).length = size.toNat := List.length_replicate
  obtain ⟨hin, hout, hbuf⟩ :=
    splitLoop_ok jdk hkey (by rw [hlen]; omega) (by rw [Nat.zero_mul]; exact Nat.zero_le _)
    List.length_replicate hloop
  rw [hlen] at hin hout
  rw [Nat.zero_add] at hin
  obtain ⟨hstore, -⟩ := lift_ok_iff.1 hstore
  have hindex : ((stripes : ℤ) - 1) * key.length = ((stripes - 1) * key.length : ℕ) := by
    rw [Int.natCast_mul, Nat.cast_sub h1, Nat.cast_one]
  rw [hindex] at hstore
  have hall := storeAll_ok (by rw [hout]; omega) (by rw [hout]; exact hin) hstore
  rw [hout, xorBytes_length hbuf, hbuf, ← Nat.succ_mul, Nat.succ_eq_add_one,
    Nat.sub_add_cancel h1] at hall
  omega

lemma afSplit_run (h1 : 1 ≤ stripes) (h2 : stripes < 2 ^ 31) (hfits : stripes * key.length < 2 ^ 31)
    (w : Machine) : ∃ split w', afSplit jdk key stripes w = .ok split w' ∧
      Luks.afMerge jdk split stripes key.length "sha256".toList = .ok key := by
  obtain ⟨turns, rfl⟩ : ∃ turns, stripes = turns + 1 := ⟨stripes - 1, by omega⟩
  obtain ⟨split, hsplit, hlen, hmerge⟩ := Luks.afMerge_afSplit jdk key turns (by omega) hfits w
  refine ⟨split, w.drawn (turns * key.length), ?_, by exact_mod_cast hmerge⟩
  obtain ⟨ss, hk, hss, hlast, hstripes⟩ :=
    afStripes_run jdk turns (List.replicate key.length 0) w List.length_replicate
  generalize ss.foldl (turn jdk) (List.replicate key.length 0) = buf at hlast hstripes
  rw [Luks.afSplit, Nat.add_sub_cancel, bind_run hstripes] at hsplit
  obtain rfl : ss.flatten ++ xorBytes buf key = split := by
    cases hsplit
    rfl
  have hflat := flatten_length hss
  rw [hk] at hflat
  have hsize : i32 ((key.length : ℤ) * (turns + 1 : ℕ)) = ((turns + 1) * key.length : ℕ) := by
    rw [← Int.natCast_mul, Nat.mul_comm, i32_natCast hfits]
  have hindex : (((turns + 1 : ℕ) : ℤ) - 1) * key.length = (turns * key.length : ℕ) := by
    rw [Nat.cast_succ, Int.add_sub_cancel, Int.natCast_mul]
  have hn : key.length + 32 ≤ 2 ^ 31 ∨ turns = 0 := by
    rcases Nat.eq_zero_or_pos turns with h0 | hpos
    · exact .inr h0
    · have : 2 * key.length ≤ (turns + 1) * key.length := Nat.mul_le_mul_right _ (Nat.succ_le_succ hpos)
      omega
  rw [Nat.succ_mul] at hfits hsize
  have hnone : ([] : List UInt8).length = 0 * key.length := (Nat.zero_mul _).symm
  have hroom : turns * key.length ≤
      (List.replicate (turns * key.length + key.length) (0 : UInt8)).length := by
    rw [List.length_replicate]
    omega
  have hloop := splitLoop_run jdk hnone hroom
    (by rw [List.nil_append, List.length_replicate]; exact hfits) List.length_replicate hn hstripes
  rw [List.nil_append, List.nil_append, List.drop_replicate, Nat.add_sub_cancel_left] at hloop
  have hxor : (xorBytes buf key).length = key.length := (xorBytes_length hlast).trans hlast
  have hout : (ss.flatten ++ List.replicate key.length (0 : UInt8)).length = turns * key.length +
      key.length := by
    rw [List.length_append, hflat, List.length_replicate]
  have hstore := storeAll_run (by rw [hout]; exact hfits)
    (by rw [hout, hxor] : turns * key.length + (xorBytes buf key).length ≤ (ss.flatten ++
      List.replicate key.length 0).length)
  rw [copyInto, List.take_left' hflat, hxor, List.drop_of_length_le hout.le, List.append_nil] at hstore
  rw [afSplit, hsize, lift_bind_run (failIf_run (by omega)), stripes_before h1 h2,
    Nat.add_sub_cancel, Int.toNat_natCast, bind_run hloop]
  dsimp only
  rw [hindex, hstore]
  rfl

lemma afMerge_run (keyMaterial : List UInt8) {keyLen : ℕ} (hlen : keyLen < 2 ^ 31)
    (hn : keyLen + 32 ≤ 2 ^ 31 ∨ stripes = 1) :
    afMerge jdk keyMaterial stripes keyLen "sha256".toList =
      Luks.afMerge jdk keyMaterial stripes keyLen "sha256".toList := by
  have hloop (l : List ℕ) (buf : List UInt8) (hbuf : buf.length = keyLen) (hn : keyLen + 32 ≤ 2 ^ 31) :
      l.foldlM (fun buf (i : ℕ) => do
        let stripe ← copyOfRange keyMaterial (i32 (i * keyLen)) (i32 ((i + 1) * keyLen))
        hashDiffuse jdk "sha256".toList (xorBytes buf stripe)) buf =
      l.foldlM (fun buf (i : ℕ) => do
        let stripe ← copyOfRange keyMaterial (i32 (i * keyLen)) (i32 ((i + 1) * keyLen))
        return Luks.hashDiffuse jdk (shaFor "sha256".toList) (xorBytes buf stripe)) buf := by
    induction l generalizing buf with
    | nil => rw [List.foldlM_nil, List.foldlM_nil]
    | cons i l ih =>
      rw [List.foldlM_cons, List.foldlM_cons]
      cases hstripe : copyOfRange keyMaterial (i32 (i * keyLen)) (i32 ((i + 1) * keyLen)) with
      | error e => simp only [bind, Except.bind]
      | ok stripe =>
        have hs := hbuf.trans (stripe_length hlen (add_one_mul _ _) hstripe).symm
        have hx := (xorBytes_length hs).trans hbuf
        have hrun :=
          hashDiffuse_run jdk "sha256".toList
            (by rw [hx]; exact hn : (xorBytes buf stripe).length + 32 ≤ 2 ^ 31)
        have hout : (Luks.hashDiffuse jdk (shaFor "sha256".toList) (xorBytes buf stripe)).length =
            keyLen := by
          rw [sha256_spec]
          exact (turn_length jdk hs).trans hbuf
        have hpure : (Except.ok stripe >>= fun stripe =>
            (pure (Luks.hashDiffuse jdk (shaFor "sha256".toList) (xorBytes buf stripe)) :
              E (List UInt8))) =
              .ok (Luks.hashDiffuse jdk (shaFor "sha256".toList) (xorBytes buf stripe)) := rfl
        rw [except_bind_run (x := Except.ok stripe >>= _) hrun, except_bind_run hpure]
        exact ih _ hout
  unfold afMerge Luks.afMerge
  rcases hn with hn | rfl
  · rw [Int.toNat_natCast, hloop _ _ List.length_replicate hn]
  · have hnone : (i32 (((1 : ℕ) : ℤ) - 1)).toNat = 0 := by decide
    rw [hnone, List.range_zero, List.foldlM_nil, List.foldlM_nil]

end RoundTrip

/-- **Merging gives the key back** from whatever the split returns, for every key, number of stripes
and random stripes, and the split returns where the material fits into an array. The diffusers
return the same for every buffer; the last 31 lengths that an array can have make both of them
throw. -/
theorem split_merge (jdk : Jdk) (key : List UInt8) (hkey : key.length < 2 ^ 31) (stripes : ℕ)
    (h1 : 1 ≤ stripes) (h2 : stripes < 2 ^ 31) (w : Machine) :
    (∀ split w', afSplit jdk key stripes w = .ok split w' →
      afMerge jdk split stripes key.length "sha256".toList = .ok key) ∧
    ((∃ split w', afSplit jdk key stripes w = .ok split w') ↔ stripes * key.length < 2 ^ 31) ∧
    ∀ buf : List UInt8, buf.length < 2 ^ 31 →
      (diffuse jdk buf).toOption = (hashDiffuse jdk "sha256".toList buf).toOption ∧
        ((diffuse jdk buf).isOk ↔ buf.length + 32 ≤ 2 ^ 31) := by
  refine ⟨fun split w' h => ?_, ⟨?_, ?_⟩, fun buf hbuf => ?_⟩
  · have hfits := afSplit_fits jdk hkey h1 h2 h
    obtain ⟨split', w'', h', hmerge⟩ := afSplit_run jdk h1 h2 hfits w
    obtain ⟨rfl, -⟩ : split' = split ∧ w'' = w' := by
      rw [h'] at h
      cases h
      exact ⟨rfl, rfl⟩
    rw [afMerge_run jdk _ hkey, hmerge]
    -- two stripes of a longer key would not fit
    rcases h1.eq_or_lt with rfl | h1
    · exact .inr rfl
    · have : 2 * key.length ≤ stripes * key.length := Nat.mul_le_mul_right _ h1
      exact .inl (by omega)
  · rintro ⟨split, w', h⟩
    exact afSplit_fits jdk hkey h1 h2 h
  · intro hfits
    obtain ⟨split, w', h, -⟩ := afSplit_run jdk h1 h2 hfits w
    exact ⟨split, w', h⟩
  · rcases Nat.lt_or_ge (2 ^ 31) (buf.length + 32) with hlt | hge
    · rw [diffuse_wraps jdk hlt hbuf, hashDiffuse_wraps jdk hlt hbuf]
      exact ⟨rfl, nofun, fun h => absurd h (by omega)⟩
    · rw [diffuse_run jdk hge, hashDiffuse_run jdk _ hge]
      exact ⟨rfl, fun _ => hge, fun _ => rfl⟩

theorem split_merge_short : ∃ split w', afSplit sampleJdk [0x53, 0x61] 3 smallDrive = .ok split w' ∧
    afMerge sampleJdk split 3 2 "sha256".toList = .ok [0x53, 0x61] := by
  obtain ⟨hback, hfits, -⟩ :=
    split_merge sampleJdk [0x53, 0x61] (by decide) 3 (by decide) (by decide) smallDrive
  obtain ⟨split, w', h⟩ := hfits.2 (by decide)
  exact ⟨split, w', h, hback split w' h⟩

end OtgMaster.Luks.InPlace
