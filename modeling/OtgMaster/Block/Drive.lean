import OtgMaster.Lib.Blocks
import OtgMaster.Lib.Bytes
import OtgMaster.Lib.Prog

/-!
The drive under a program that lays out or opens an encrypted volume: a `RawBlockDevice` of whole
blocks over the bytes of the drive, a partition of it (`SlicedBlockDevice`), and the bytes that
`SecureRandom` hands out. Such a program is a computation in `M` that may throw; its specification
below says what each call returns and which bytes it leaves alone.
-/

namespace OtgMaster.Block

open Lib

/-! ### Kotlin's numbers, arrays and exceptions -/

/-- An `Int`, after the wrap. -/
def i32 (x : ℤ) : ℤ := x.bmod (2 ^ 32)

/-- A `Long`, after the wrap. -/
def i64 (x : ℤ) : ℤ := x.bmod (2 ^ 64)

variable {x : ℤ} {n : ℕ}

lemma i32_of_lt (h0 : 0 ≤ x) (h : x < 2 ^ 31) : i32 x = x :=
  Int.bmod_eq_of_le (by omega) (by omega)

lemma i32_natCast (h : n < 2 ^ 31) : i32 n = n := i32_of_lt (by omega) (by omega)

lemma i32_neg (h1 : 2 ^ 31 ≤ n) (h2 : n < 2 ^ 32) : i32 n < 0 := by
  unfold i32
  rw [Int.bmod_def]
  split <;> omega

lemma i64_of_range (h0 : -2 ^ 63 ≤ x) (h : x < 2 ^ 63) : i64 x = x :=
  Int.bmod_eq_of_le (by omega) (by omega)

lemma i64_of_lt (h0 : 0 ≤ x) (h : x < 2 ^ 63) : i64 x = x := i64_of_range (by omega) h

lemma i64_natCast (h : n < 2 ^ 63) : i64 n = n := i64_of_lt (by omega) (by omega)

/-- A `Long` as the native code counts with it. -/
def u64 (x : ℤ) : ℕ := (x % 2 ^ 64).toNat

lemma i64_eq (x : ℤ) : ∃ k, i64 x = x - 2 ^ 64 * k ∧ -2 ^ 63 ≤ i64 x ∧ i64 x < 2 ^ 63 := by
  have h := Int.bmod_add_bdiv x (2 ^ 64)
  have h1 := Int.le_bmod (x := x) (m := 2 ^ 64) (by decide)
  have h2 := Int.bmod_lt (x := x) (m := 2 ^ 64) (by decide)
  refine ⟨x.bdiv (2 ^ 64), ?_, ?_, ?_⟩ <;> unfold i64 <;> omega

lemma i32_eq (x : ℤ) : ∃ k, i32 x = x - 2 ^ 32 * k ∧ -2 ^ 31 ≤ i32 x ∧ i32 x < 2 ^ 31 := by
  have h := Int.bmod_add_bdiv x (2 ^ 32)
  have h1 := Int.le_bmod (x := x) (m := 2 ^ 32) (by decide)
  have h2 := Int.bmod_lt (x := x) (m := 2 ^ 32) (by decide)
  refine ⟨x.bdiv (2 ^ 32), ?_, ?_, ?_⟩ <;> unfold i32 <;> omega

lemma tdiv_of_nonpos {a b : ℤ} (h : a ≤ 0) : a.tdiv b = -(-a / b) := by
  rw [← Int.tdiv_eq_ediv_of_nonneg (by omega), Int.neg_tdiv, neg_neg]

/-- The `n` bytes of `v`, most significant first (`putShort`, `putInt`, `putLong`). -/
def bigEndian (n : ℕ) (v : ℤ) : List UInt8 :=
  (List.range n).map fun k => UInt8.ofNat (((v % 2 ^ (8 * n)).toNat) / 256 ^ (n - 1 - k))

def beNat (bytes : List UInt8) : ℕ := bytes.foldl (fun n b => n * 256 + b.toNat) 0

lemma bigEndian_length (n : ℕ) (v : ℤ) : (bigEndian n v).length = n := by simp [bigEndian]

inductive Exception where
  | arithmetic
  | authentication
  | bufferOverflow
  | cancelled
  | damaged
  | fileNotFound
  | illegalArgument
  | illegalState
  | indexOutOfBounds
  | negativeArraySize
  | nullPointer
  | numberFormat
  | io
  | json
  | outOfMemory
  | stackOverflow
  | unsupportedAlgorithm
  | unsupportedFormat
  | wrongPassword
  deriving DecidableEq

structure Thrown where
  kind : Exception
  message : String
  deriving DecidableEq

structure Machine where
  blockSize : ℕ
  blockCount : ℕ
  bytes : Bytes
  random : ℕ → UInt8
  /-- The offset of a byte on the drive is a `Long`. -/
  offsets : blockCount * blockSize < 2 ^ 63

/-- Code that changes nothing. -/
abbrev E := Except Thrown

/-- Code that writes to the drive or draws random bytes. -/
abbrev M := EStateM Thrown Machine

def require (c : Prop) [Decidable c] (message : String) : E PUnit :=
  failIf (¬c) ⟨.illegalArgument, message⟩

/-- The value of a call that may return `null`. -/
def orThrow {α : Type} (x : Option α) (e : Thrown) : E α :=
  match x with
  | some a => pure a
  | none => throw e

def copyOfRange (l : List UInt8) (fromIndex toIndex : ℤ) : E (List UInt8) := do
  failIf ((l.length : ℤ) < toIndex)
    ⟨.indexOutOfBounds, s!"toIndex ({toIndex}) is greater than size ({l.length})."⟩
  failIf (toIndex < fromIndex) ⟨.illegalArgument, s!"{fromIndex} > {toIndex}"⟩
  failIf (fromIndex < 0) ⟨.indexOutOfBounds, s!"{fromIndex}"⟩
  return (l.drop fromIndex.toNat).take (toIndex - fromIndex).toNat

/-- `ByteArray(n).also { random.nextBytes(it) }`. -/
def nextBytes (n : ℕ) : M (List UInt8) :=
  modifyGet fun w => ((List.range n).map w.random, { w with random := fun i => w.random (n + i) })

/-! ### The drive and a partition of it -/

def Machine.readBlocks (w : Machine) (start count : ℕ) : E (List UInt8) := do
  failIf (w.blockCount < start + count) ⟨.io, "read past the end of the drive"⟩
  return w.bytes.slice (start * w.blockSize) (count * w.blockSize)

def writeBlocks (start : ℕ) (data : List UInt8) : M PUnit := do
  let w ← get
  require (data.length % w.blockSize = 0) "Write length must be block aligned"
  throwIf (w.blockCount < start + data.length / w.blockSize) ⟨.io, "write past the end of the drive"⟩
  set { w with bytes := overwrite w.bytes (start * w.blockSize) data }

/-- `SlicedBlockDevice` over the drive. -/
structure Slice where
  firstBlock : ℕ
  blockCount : ℕ
  deriving DecidableEq

def Slice.writeBlocks (p : Slice) (start : ℤ) (data : List UInt8) : M PUnit := do
  let w ← get
  require (0 ≤ start) "startBlock must be non-negative"
  require (start + (data.length / w.blockSize : ℕ) ≤ p.blockCount) "Write exceeds slice bounds"
  Block.writeBlocks (p.firstBlock + start.toNat) data

/-! ### What the calls do -/

section Specs

variable {α : Type} {w w' : Machine} {b : α}

variable {c : Prop} {message : String} {u : PUnit} {e : Thrown} {n start : ℕ} {data : List UInt8}
    {lo hi : ℕ}

lemma require_ok [Decidable c] (h : require c message = .ok u) : c :=
  not_not.1 (failIf_ok h)

lemma require_run [Decidable c] (h : c) : require c message = .ok ⟨⟩ :=
  failIf_run (not_not.2 h)

lemma require_bind_ok [Decidable c] {f : PUnit → M α}
    (h : ((liftM (require c message) : M PUnit) >>= f) w = .ok b w') : c ∧ f ⟨⟩ w = .ok b w' := by
  obtain ⟨_, h1, h2⟩ := lift_bind_ok h
  exact ⟨require_ok h1, h2⟩

lemma require_bind_run [Decidable c] {f : PUnit → M α} (h : c) :
    ((liftM (require c message) : M PUnit) >>= f) w = f ⟨⟩ w :=
  lift_bind_run (require_run h)

lemma orThrow_ok {x : Option α} (h : orThrow x e = .ok b) : x = some b := by
  cases x with
  | none => cases h
  | some a => cases h; rfl

lemma orThrow_error {x : Option α} {e' : Thrown} (h : orThrow x e = .error e') : e' = e := by
  cases x with
  | none => cases h; rfl
  | some a => cases h

lemma orThrow_run : orThrow (some b) e = .ok b := rfl

lemma copyOfRange_run {l : List UInt8} {m : ℕ} (h1 : m ≤ n) (h2 : n ≤ l.length) :
    copyOfRange l m n = .ok ((l.drop m).take (n - m)) := by
  unfold copyOfRange
  rw [failIf_bind_run (by omega), failIf_bind_run (by omega), failIf_bind_run (by omega)]
  show Except.ok (List.take ((n : ℤ) - m).toNat (List.drop (m : ℤ).toNat l)) = _
  rw [Int.toNat_natCast, show ((n : ℤ) - m).toNat = n - m by omega]

lemma copyOfRange_length {l r : List UInt8} {a b : ℤ} (h : copyOfRange l a b = .ok r) :
    (r.length : ℤ) = b - a := by
  obtain ⟨h1, h⟩ := failIf_bind_ok h
  obtain ⟨h2, h⟩ := failIf_bind_ok h
  obtain ⟨h3, h⟩ := failIf_bind_ok h
  cases h
  rw [List.length_take, List.length_drop]
  omega

def Machine.drawn (w : Machine) (n : ℕ) : Machine := { w with random := fun i => w.random (n + i) }

lemma Machine.drawn_zero : w.drawn 0 = w := by simp [Machine.drawn]

lemma Machine.drawn_drawn (m n : ℕ) : (w.drawn m).drawn n = w.drawn (m + n) := by
  simp [Machine.drawn, Nat.add_assoc]

lemma nextBytes_run (n : ℕ) : nextBytes n w = .ok ((List.range n).map w.random) (w.drawn n) := rfl

lemma nextBytes_drawn (m n : ℕ) :
    nextBytes n (w.drawn m) = .ok ((List.range n).map (w.drawn m).random) (w.drawn (m + n)) := by
  rw [nextBytes_run, Machine.drawn_drawn]

lemma Machine.readBlocks_run {count : ℕ} (h : start + count ≤ w.blockCount) :
    w.readBlocks start count = .ok (w.bytes.slice (start * w.blockSize) (count * w.blockSize)) :=
  failIf_bind_run (by omega)

def Machine.written (w : Machine) (start : ℕ) (data : List UInt8) : Machine :=
  { w with bytes := overwrite w.bytes (start * w.blockSize) data }

lemma writeBlocks_ok (h : writeBlocks start data w = .ok u w') :
    data.length % w.blockSize = 0 ∧ start + data.length / w.blockSize ≤ w.blockCount ∧
      w' = w.written start data := by
  unfold writeBlocks at h
  rw [get_bind_run] at h
  obtain ⟨h1, h⟩ := require_bind_ok h
  obtain ⟨h2, h⟩ := throwIf_bind_ok h
  cases h
  exact ⟨h1, by omega, rfl⟩

lemma writeBlocks_run (h1 : data.length % w.blockSize = 0)
    (h2 : start + data.length / w.blockSize ≤ w.blockCount) :
    writeBlocks start data w = .ok ⟨⟩ (w.written start data) := by
  unfold writeBlocks
  rw [get_bind_run, require_bind_run h1, throwIf_bind_run (by omega)]
  rfl

lemma Slice.writeBlocks_ok {p : Slice} {start : ℤ}
    (h : p.writeBlocks start data w = .ok u w') :
    0 ≤ start ∧ start + (data.length / w.blockSize : ℕ) ≤ p.blockCount ∧
      p.firstBlock + start.toNat + data.length / w.blockSize ≤ w.blockCount ∧
      w' = w.written (p.firstBlock + start.toNat) data := by
  unfold Slice.writeBlocks at h
  rw [get_bind_run] at h
  obtain ⟨h1, h⟩ := require_bind_ok h
  obtain ⟨h2, h⟩ := require_bind_ok h
  obtain ⟨-, h3, h4⟩ := Block.writeBlocks_ok h
  exact ⟨h1, h2, h3, h4⟩

lemma Slice.writeBlocks_run {p : Slice}
    (h1 : data.length % w.blockSize = 0) (h2 : start + data.length / w.blockSize ≤ p.blockCount)
    (h3 : p.firstBlock + p.blockCount ≤ w.blockCount) :
    p.writeBlocks start data w = .ok ⟨⟩ (w.written (p.firstBlock + start) data) := by
  unfold Slice.writeBlocks
  rw [get_bind_run, require_bind_run (by omega), require_bind_run (by omega)]
  exact Block.writeBlocks_run h1 (by rw [Int.toNat_natCast]; omega)

lemma Machine.slice_written_outside {a : ℕ}
    (h : a + n ≤ start * w.blockSize ∨ start * w.blockSize + data.length ≤ a) :
    (w.written start data).bytes.slice a n = w.bytes.slice a n :=
  Bytes.slice_congr fun _ _ => overwrite_outside (by omega)

lemma Machine.slice_written_part (start : ℕ) {k : ℕ} (h : k + n ≤ data.length) :
    (w.written start data).bytes.slice (start * w.blockSize + k) n = (data.drop k).take n := by
  refine List.ext_getElem (by simp; omega) fun i h1 h2 => ?_
  rw [Bytes.length_slice] at h1
  simp only [Bytes.slice, Machine.written, overwrite, List.getElem_map, List.getElem_range,
    List.getElem_take, List.getElem_drop, Nat.add_assoc, Nat.le_add_right, if_true,
    Nat.add_sub_cancel_left]
  rw [List.getElem?_eq_getElem (by omega)]
  rfl

lemma Machine.slice_written (h : n ≤ data.length) :
    (w.written start data).bytes.slice (start * w.blockSize) n = data.take n :=
  Machine.slice_written_part start (k := 0) ((Nat.zero_add n).symm ▸ h)

/-- Nothing but bytes from `lo` up to `hi` was written. -/
structure Machine.WritesIn (lo hi : ℕ) (w w' : Machine) : Prop where
  blockSize : w'.blockSize = w.blockSize
  blockCount : w'.blockCount = w.blockCount
  bytes : ∀ i, i < lo ∨ hi ≤ i → w'.bytes i = w.bytes i

lemma Machine.WritesIn.refl (lo hi : ℕ) (w : Machine) : w.WritesIn lo hi w := ⟨rfl, rfl, fun _ _ => rfl⟩

lemma Machine.WritesIn.mono {lo' hi' : ℕ} (h : w.WritesIn lo hi w') (hlo : lo' ≤ lo) (hhi : hi ≤ hi') :
    w.WritesIn lo' hi' w' :=
  ⟨h.blockSize, h.blockCount, fun i hi => h.bytes i (by omega)⟩

lemma Machine.WritesIn.trans {w'' : Machine} (h : w.WritesIn lo hi w') (h' : w'.WritesIn lo hi w'') :
    w.WritesIn lo hi w'' :=
  ⟨h'.blockSize.trans h.blockSize, h'.blockCount.trans h.blockCount, fun i hi =>
    (h'.bytes i hi).trans (h.bytes i hi)⟩

lemma Machine.WritesIn.slice {a : ℕ} (h : w.WritesIn lo hi w') (hout : a + n ≤ lo ∨ hi ≤ a) :
    w'.bytes.slice a n = w.bytes.slice a n :=
  Bytes.slice_congr fun i _ => h.bytes _ (by omega)

lemma Machine.writesIn_written (w : Machine) (start : ℕ) (data : List UInt8) :
    w.WritesIn (start * w.blockSize) (start * w.blockSize + data.length) (w.written start data) :=
  ⟨rfl, rfl, fun _ _ => overwrite_outside (by omega)⟩

lemma Slice.writeBlocks_spec (p : Slice) (start : ℕ) (data : List UInt8) (h0 : 0 < w.blockSize)
    (hmod : data.length % w.blockSize = 0)
    (hle : start * w.blockSize + data.length ≤ p.blockCount * w.blockSize)
    (hdrive : p.firstBlock + p.blockCount ≤ w.blockCount) :
    ∃ w', p.writeBlocks start data w = .ok ⟨⟩ w' ∧
      w'.bytes.slice ((p.firstBlock + start) * w.blockSize) data.length = data ∧
      w.WritesIn ((p.firstBlock + start) * w.blockSize)
        ((p.firstBlock + start) * w.blockSize + data.length) w' := by
  have hcount : (start + data.length / w.blockSize) * w.blockSize ≤ p.blockCount * w.blockSize := by
    rwa [Nat.add_mul, Nat.div_mul_cancel (Nat.dvd_of_mod_eq_zero hmod)]
  refine ⟨_, Slice.writeBlocks_run hmod (Nat.le_of_mul_le_mul_right hcount h0) hdrive, ?_,
    w.writesIn_written ..⟩
  rw [Machine.slice_written (Nat.le_refl _), List.take_length]

end Specs

end OtgMaster.Block
