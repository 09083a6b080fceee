import OtgMaster.Block.Drive
import OtgMaster.Veracrypt.NativeDevice
import Mathlib.Data.List.Perm.Basic

/-!
`VeraCryptKeyfiles`: keyfiles mixed into a password. A running CRC-32 of a keyfile is added into a
pool byte by byte, and the pool onto the password. The CRC and the position in the pool restart with
each keyfile, so a keyfile adds the same amount to every pool of one length, and the order of the
keyfiles does not matter (`pooled_perm`).
-/

namespace OtgMaster.Veracrypt

open Lib Block

/-! ### CRC-32 -/

def crcBit (crc : UInt32) : UInt32 :=
  if crc &&& 1 ≠ 0 then (crc >>> 1) ^^^ 0xEDB88320 else crc >>> 1

def crcByte (crc : UInt32) (b : UInt8) : UInt32 := Nat.repeat crcBit 8 (crc ^^^ b.toUInt32)

def crc32 (b : List UInt8) : UInt32 := b.foldl crcByte 0xFFFFFFFF ^^^ 0xFFFFFFFF

/-! ### The pool -/

structure Mix where
  crc : UInt32
  writePos : ℕ
  pool : List UInt8

def Mix.add (m : Mix) (b : UInt8) : Mix :=
  { m with
    pool := m.pool.modify m.writePos (· + b)
    writePos := if m.pool.length ≤ m.writePos + 1 then 0 else m.writePos + 1 }

def Mix.byte (m : Mix) (b : UInt8) : Mix :=
  let crc := crcByte m.crc b
  ([24, 16, 8, 0] : List UInt32).foldl (fun m shift => m.add (crc >>> shift).toUInt8)
    { m with crc := crc }

def maxBytesRead : ℕ := 2 ^ 20

/-- `mixOne`, on the bytes the stream gives. -/
def mixOne (pool bytes : List UInt8) : List UInt8 :=
  ((bytes.take maxBytesRead).foldl Mix.byte ⟨0xFFFFFFFF, 0, pool⟩).pool

/-- A keyfile as `open` gives it: one that can be read, one for which `open` returns `null`, or one
whose stream throws after the bytes `read` (`io`: an `IOException`). -/
inductive Keyfile where
  | readable (bytes : List UInt8)
  | missing
  | broken (read : List UInt8) (io : Bool) (message : String)

namespace Keyfile

def bytes : Keyfile → List UInt8
  | readable bytes => bytes
  | missing => []
  | broken read _ _ => read

/-- What is thrown for the keyfile with index `n`. Nothing is read past `MAX_BYTES_READ`. -/
def failure (n : ℕ) : Keyfile → Option Thrown
  | readable _ => none
  | missing => some ⟨.io, s!"keyfile {n + 1} could not be opened"⟩
  | broken read io message =>
    if maxBytesRead ≤ read.length then none
    else some ⟨.io, if io then message else s!"keyfile {n + 1} could not be read: {message}"⟩

end Keyfile

/-- The pool is 64 bytes for a password of up to 64 bytes and 128 above that. -/
def poolSize (password : Key) : ℕ := if password.length ≤ 64 then 64 else 128

/-- The loop over the keyfiles, from the one with index `n` on. -/
def mixAll (skipUnreadable : Bool) : (n : ℕ) → (pool : List UInt8) → List Keyfile → E (List UInt8)
  | _, pool, [] => pure pool
  | n, pool, k :: ks =>
    match k.failure n with
    | none => mixAll skipUnreadable (n + 1) (mixOne pool k.bytes) ks
    | some e =>
      if skipUnreadable then mixAll skipUnreadable (n + 1) (mixOne pool k.bytes) ks else throw e

/-- The pool added onto the password, which is extended to the length of the pool. -/
def mixIn (password pool : List UInt8) : Key :=
  (List.range (max pool.length password.length)).map fun i => password.getD i 0 + pool.getD i 0

def applyKeyfiles (password : Key) (keyfiles : List Keyfile) (skipUnreadable : Bool) : E Key := do
  if keyfiles.isEmpty then return password
  let pool ← mixAll skipUnreadable 0 (List.replicate (poolSize password) 0) keyfiles
  return mixIn password pool

/-- What `apply` returns when it returns. -/
def pooled (password : Key) (keyfiles : List Keyfile) : Key :=
  if keyfiles.isEmpty then password
  else mixIn password ((keyfiles.map Keyfile.bytes).foldl mixOne (List.replicate (poolSize password) 0))

lemma mixAll_ok {skip : Bool} {ks : List Keyfile} {n : ℕ} {pool r : List UInt8}
    (h : mixAll skip n pool ks = .ok r) : r = (ks.map Keyfile.bytes).foldl mixOne pool := by
  induction ks generalizing n pool with
  | nil =>
    cases h
    rfl
  | cons k ks ih =>
    rw [mixAll] at h
    cases hf : k.failure n with
    | none => rw [hf] at h; exact ih h
    | some e =>
      rw [hf] at h
      cases skip with
      | true => exact ih h
      | false => cases h

lemma mixAll_skip (ks : List Keyfile) (n : ℕ) (pool : List UInt8) :
    mixAll true n pool ks = .ok ((ks.map Keyfile.bytes).foldl mixOne pool) := by
  induction ks generalizing n pool with
  | nil => rfl
  | cons k ks ih =>
    rw [mixAll]
    cases hf : k.failure n with
    | none => exact ih ..
    | some e => exact ih ..

lemma applyKeyfiles_ok {password key : Key} {ks : List Keyfile} {skip : Bool}
    (h : applyKeyfiles password ks skip = .ok key) : key = pooled password ks := by
  unfold applyKeyfiles at h
  unfold pooled
  split at h
  · cases h
    rw [if_pos ‹_›]
  · obtain ⟨pool, h1, h2⟩ := except_bind_ok h
    cases mixAll_ok h1
    cases h2
    rw [if_neg ‹_›]

lemma applyKeyfiles_skip (password : Key) (ks : List Keyfile) :
    applyKeyfiles password ks true = .ok (pooled password ks) := by
  unfold applyKeyfiles pooled
  split
  · rfl
  · exact except_bind_run (mixAll_skip ..)

/-! ### The order of the keyfiles -/

section Order

def addPools (p q : List UInt8) : List UInt8 := List.zipWith (· + ·) p q

variable {p q : List UInt8}

lemma modify_addPools (i : ℕ) (b : UInt8) :
    (addPools p q).modify i (· + b) = addPools p (q.modify i (· + b)) := by
  refine List.ext_getElem (by simp [addPools]) fun j h1 h2 => ?_
  simp only [addPools, List.getElem_modify, List.getElem_zipWith]
  split
  · exact UInt8.add_assoc ..
  · rfl

/-- The same CRC bytes added to `q` and to `p` plus `q`. -/
structure Shifted (p : List UInt8) (m m' : Mix) : Prop where
  crc : m'.crc = m.crc
  writePos : m'.writePos = m.writePos
  length : p.length = m.pool.length
  pool : m'.pool = addPools p m.pool

variable {m m' : Mix}

lemma Shifted.add (h : Shifted p m m') (b : UInt8) : Shifted p (m.add b) (m'.add b) where
  crc := h.crc
  writePos := by
    have hlen : m'.pool.length = m.pool.length := by rw [h.pool]; simp [addPools, h.length]
    simp only [Mix.add, h.writePos, hlen]
  length := by simp [Mix.add, h.length]
  pool := by simp only [Mix.add, h.writePos, h.pool, modify_addPools]

lemma Shifted.byte (h : Shifted p m m') (b : UInt8) : Shifted p (m.byte b) (m'.byte b) := by
  have h0 : Shifted p { m with crc := crcByte m.crc b } { m' with crc := crcByte m'.crc b } :=
    ⟨by rw [h.crc], h.writePos, h.length, h.pool⟩
  simp only [Mix.byte, List.foldl_cons, List.foldl_nil, h.crc]
  rw [h.crc] at h0
  exact (((h0.add _).add _).add _).add _

lemma Shifted.foldl (h : Shifted p m m') (bs : List UInt8) :
    Shifted p (bs.foldl Mix.byte m) (bs.foldl Mix.byte m') := by
  induction bs generalizing m m' with
  | nil => exact h
  | cons b bs ih => exact ih (h.byte b)

lemma addPools_zero : addPools p (List.replicate p.length 0) = p :=
  List.ext_getElem (by simp [addPools]) fun _ _ _ => by simp [addPools]

def keyfilePool (n : ℕ) (bytes : List UInt8) : List UInt8 := mixOne (List.replicate n 0) bytes

lemma mixOne_eq (p bytes : List UInt8) :
    mixOne p bytes = addPools p (keyfilePool p.length bytes) ∧
      p.length = (keyfilePool p.length bytes).length := by
  have h : Shifted p ⟨0xFFFFFFFF, 0, List.replicate p.length 0⟩ ⟨0xFFFFFFFF, 0, p⟩ :=
    ⟨rfl, rfl, by simp, addPools_zero.symm⟩
  exact ⟨(h.foldl _).pool, (h.foldl _).length⟩

lemma mixOne_length (p bytes : List UInt8) : (mixOne p bytes).length = p.length := by
  obtain ⟨h1, h2⟩ := mixOne_eq p bytes
  rw [h1, addPools, List.length_zipWith, ← h2, Nat.min_self]

lemma mixOne_comm (p a b : List UInt8) : mixOne (mixOne p a) b = mixOne (mixOne p b) a := by
  rw [(mixOne_eq (mixOne p a) b).1, (mixOne_eq (mixOne p b) a).1, mixOne_length, mixOne_length,
    (mixOne_eq p a).1, (mixOne_eq p b).1]
  refine List.ext_getElem (by simp only [addPools, List.length_zipWith]; omega) fun i h1 h2 => ?_
  simp only [addPools, List.getElem_zipWith, UInt8.add_assoc]
  exact congrArg _ (UInt8.add_comm ..)

/-- **The order of the keyfiles does not matter.** -/
theorem pooled_perm {password : Key} {ks ks' : List Keyfile} (h : ks.Perm ks') :
    pooled password ks = pooled password ks' := by
  have hcomm : RightCommutative mixOne := ⟨mixOne_comm⟩
  have hempty : ks.isEmpty = ks'.isEmpty := by
    rw [Bool.eq_iff_iff, List.isEmpty_iff_length_eq_zero, List.isEmpty_iff_length_eq_zero, h.length_eq]
  unfold pooled
  rw [hempty, (h.map Keyfile.bytes).foldl_eq]

end Order

end OtgMaster.Veracrypt
