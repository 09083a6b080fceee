import OtgMaster.Block.Drive
import OtgMaster.Lib.Chunks

/-!
What the formatters share: the device they write to, `ZeroWriter`, and the libraries they take a
label, the time and random numbers from.

A formatter works out a layout, builds what goes to the drive and writes it. Whether and what it
writes does not depend on the device, so it is the same program as one that makes a list of requests
in order (`Issues`). What can be said about a formatter is then said about its list: where the
requests lie, and what they leave on the device.
-/

namespace OtgMaster.Format

open Lib Block

/-! ### Numbers and checks -/

/-- `toByte()`, `toShort()`, `toInt()` or `v` itself as it is put into a buffer: its low `n`
bytes. -/
def low (n : ℕ) (v : ℤ) : ℕ := (v % 2 ^ (8 * n)).toNat

def check (c : Prop) [Decidable c] (message : String) : E PUnit := failIf (¬c) ⟨.illegalState, message⟩

lemma tdiv_of_nonneg {a b : ℤ} (h : 0 ≤ a) : a.tdiv b = a / b := Int.tdiv_eq_ediv_of_nonneg h

lemma tmod_of_nonneg {a b : ℤ} (h : 0 ≤ a) : a.tmod b = a % b := Int.tmod_eq_emod_of_nonneg h

/-! ### The device -/

/-- `RawBlockDevice` as the formatters use it, over the state `σ` of whatever lies under it. -/
structure RawBlockDevice (σ : Type) where
  blockSize : ℕ
  blockCount : ℕ
  writeBlocks : (startBlock : ℤ) → (data : List UInt8) → EStateM Thrown σ PUnit
  /-- The offset of a byte of the device is a `Long`. -/
  offsets : blockCount * blockSize < 2 ^ 63

structure Request where
  startBlock : ℤ
  data : List UInt8

/-- The request is for whole blocks, at least one, below block `limit`. -/
structure Request.Inside (blockSize : ℕ) (limit : ℤ) (r : Request) : Prop where
  start : 0 ≤ r.startBlock
  some : 0 < r.data.length
  whole : r.data.length % blockSize = 0
  fits : r.startBlock + (r.data.length / blockSize : ℕ) ≤ limit

lemma Request.Inside.mono {blockSize : ℕ} {limit limit' : ℤ} {r : Request} (h : r.Inside blockSize limit)
    (hle : limit ≤ limit') : r.Inside blockSize limit' :=
  ⟨h.start, h.some, h.whole, h.fits.trans hle⟩

lemma Request.inside_of {blockSize n : ℕ} {limit : ℤ} {r : Request} (h0 : 0 ≤ r.startBlock) (hn : 0 < n)
    (hsize : 0 < blockSize) (hlen : r.data.length = n * blockSize) (hfits : r.startBlock + n ≤ limit) :
    r.Inside blockSize limit where
  start := h0
  some := by rw [hlen]; exact Nat.mul_pos hn hsize
  whole := by rw [hlen, Nat.mul_mod_left]
  fits := by rwa [hlen, Nat.mul_div_cancel _ hsize]

section Issues

variable {σ α β γ : Type} {dev : RawBlockDevice σ}

def RawBlockDevice.serveAll (dev : RawBlockDevice σ) (rs : List Request) : EStateM Thrown σ PUnit :=
  rs.forM fun r => dev.writeBlocks r.startBlock r.data

/-- **What a program does to the device**: it makes the requests `rs` and returns `a`, unless the
device fails. -/
structure Issues (dev : RawBlockDevice σ) (m : EStateM Thrown σ α) (rs : List Request) (a : α) :
    Prop where
  run : ∀ s, m s = match dev.serveAll rs s with
    | .ok _ s' => .ok a s'
    | .error e s' => .error e s'

lemma serveAll_append (rs rs' : List Request) (s : σ) :
    dev.serveAll (rs ++ rs') s = match dev.serveAll rs s with
      | .ok _ s' => dev.serveAll rs' s'
      | .error e s' => .error e s' := by
  induction rs generalizing s with
  | nil => rfl
  | cons r rs ih =>
    cases hr : dev.writeBlocks r.startBlock r.data s with
    | ok u t =>
      have hrun : ∀ l, dev.serveAll (r :: l) s = dev.serveAll l t := fun l => bind_run hr
      rw [List.cons_append, hrun, hrun, ih]
    | error e t =>
      have hrun : ∀ l, dev.serveAll (r :: l) s = .error e t := fun l => bind_error hr
      rw [List.cons_append, hrun, hrun]

lemma Issues.pure (a : α) : Issues dev (pure a) [] a := ⟨fun _ => rfl⟩

lemma Issues.write (start : ℤ) (data : List UInt8) :
    Issues dev (dev.writeBlocks start data) [⟨start, data⟩] ⟨⟩ := by
  constructor
  intro s
  cases h : dev.writeBlocks start data s with
  | ok u t =>
    have hrun : dev.serveAll [⟨start, data⟩] s = .ok ⟨⟩ t := bind_run h
    rw [hrun]
  | error e t =>
    have hrun : dev.serveAll [⟨start, data⟩] s = .error e t := bind_error h
    rw [hrun]

lemma Issues.bind {m : EStateM Thrown σ α} {f : α → EStateM Thrown σ β} {rs rs' : List Request}
    {a : α} {b : β} (hm : Issues dev m rs a) (hf : Issues dev (f a) rs' b) :
    Issues dev (m >>= f) (rs ++ rs') b := by
  constructor
  intro s
  have hs := hm.run s
  rw [serveAll_append]
  cases h : dev.serveAll rs s with
  | ok u t => rw [h] at hs; rw [bind_run hs, hf.run t]
  | error e t => rw [h] at hs; rw [bind_error hs]

lemma Issues.lift {x : E α} {f : α → EStateM Thrown σ β} {rs : List Request} {a : α} {b : β}
    (hx : x = .ok a) (hf : Issues dev (f a) rs b) :
    Issues dev ((liftM x : EStateM Thrown σ α) >>= f) rs b := by
  constructor
  intro s
  rw [lift_bind_run hx, hf.run s]

lemma Issues.forM {f : γ → EStateM Thrown σ PUnit} {g : γ → List Request} {xs : List γ}
    (h : ∀ x ∈ xs, Issues dev (f x) (g x) ⟨⟩) : Issues dev (xs.forM f) (xs.flatMap g) ⟨⟩ := by
  induction xs with
  | nil => exact .pure _
  | cons x xs ih =>
    exact .bind (h x (List.mem_cons_self ..)) (ih fun y hy => h y (List.mem_cons_of_mem _ hy))

lemma Issues.forM_write (start : γ → ℤ) (data : γ → List UInt8) (xs : List γ) :
    Issues dev (xs.forM fun x => dev.writeBlocks (start x) (data x))
      (xs.map fun x => ⟨start x, data x⟩) ⟨⟩ := by
  rw [List.map_eq_flatMap]
  exact .forM fun x _ => .write (start x) (data x)

end Issues

/-! ### `ZeroWriter` -/

def CHUNK_BYTES : ℕ := 2 ^ 20

section Zero

variable {σ : Type} (dev : RawBlockDevice σ)

def zero (start stop : ℤ) : EStateM Thrown σ PUnit :=
  if stop ≤ start then pure ⟨⟩
  else (chunks (CHUNK_BYTES / dev.blockSize) (stop - start).toNat).forM fun (s, n) =>
    dev.writeBlocks (start + s) (List.replicate (n * dev.blockSize) 0)

def zeroRequests (blockSize : ℕ) (start stop : ℤ) : List Request :=
  (chunks (CHUNK_BYTES / blockSize) (stop - start).toNat).map fun c =>
    ⟨start + c.1, List.replicate (c.2 * blockSize) 0⟩

lemma zero_issues (start stop : ℤ) :
    Issues dev (zero dev start stop) (zeroRequests dev.blockSize start stop) ⟨⟩ := by
  unfold zero zeroRequests
  split
  · rw [show (stop - start).toNat = 0 by omega, chunks_zero]
    exact .pure _
  · exact .forM_write _ _ _

lemma zeroRequests_inside {blockSize : ℕ} {start stop : ℤ} (hsize : 0 < blockSize) (h0 : 0 ≤ start) :
    ∀ r ∈ zeroRequests blockSize start stop, r.Inside blockSize stop := by
  intro r hr
  obtain ⟨c, hc, rfl⟩ := List.mem_map.1 hr
  obtain ⟨hpos, hle⟩ := mem_chunks hc
  exact Request.inside_of (n := c.2) (by simp only; omega) hpos hsize (by simp) (by simp only; omega)

end Zero

/-! ### A partition of a drive -/

def deviceOf (p : Slice) (w : Machine) (hp : p.firstBlock + p.blockCount ≤ w.blockCount) :
    RawBlockDevice Machine where
  blockSize := w.blockSize
  blockCount := p.blockCount
  writeBlocks := p.writeBlocks
  offsets := Nat.lt_of_le_of_lt (Nat.mul_le_mul_right _ (by omega)) w.offsets

def imageOf (p : Slice) (w : Machine) : Bytes := fun i => w.bytes (p.firstBlock * w.blockSize + i)

def writesOf (blockSize : ℕ) (rs : List Request) : List (Write UInt8) :=
  rs.map fun r => ⟨r.startBlock.toNat * blockSize, r.data⟩

section Partition

variable {p : Slice} {w : Machine} {hp : p.firstBlock + p.blockCount ≤ w.blockCount}

/-- **A drive that does not fail makes all requests inside the partition.** -/
lemma serveAll_image {rs : List Request} (h : ∀ r ∈ rs, r.Inside w.blockSize p.blockCount) :
    ∃ w', (deviceOf p w hp).serveAll rs w = .ok ⟨⟩ w' ∧
      imageOf p w' = rewrite (writesOf w.blockSize rs) (imageOf p w) := by
  -- along the run the size of the drive and of its blocks stay
  suffices hrun : ∀ v : Machine, v.blockSize = w.blockSize → v.blockCount = w.blockCount →
      ∃ w', (deviceOf p w hp).serveAll rs v = .ok ⟨⟩ w' ∧
        imageOf p w' = rewrite (writesOf w.blockSize rs) (imageOf p v) from hrun w rfl rfl
  induction rs with
  | nil => exact fun v _ _ => ⟨v, rfl, rfl⟩
  | cons r rs ih =>
    intro v hsize hcount
    obtain ⟨h0, -, hwhole, hfits⟩ := h r List.mem_cons_self
    obtain ⟨start, hstart⟩ := Int.eq_ofNat_of_zero_le h0
    have hone : p.writeBlocks r.startBlock r.data v =
        .ok ⟨⟩ (v.written (p.firstBlock + start) r.data) := by
      rw [hstart]
      refine Slice.writeBlocks_run ?_ ?_ ?_
      · rw [hsize]
        exact hwhole
      · rw [hsize]
        omega
      · omega
    obtain ⟨w', hrest, himage⟩ := ih (fun x hx => h x (List.mem_cons_of_mem _ hx))
      (v.written (p.firstBlock + start) r.data) hsize hcount
    refine ⟨w', (bind_run hone).trans hrest, himage.trans ?_⟩
    show rewrite (writesOf w.blockSize rs) _ = rewrite (writesOf w.blockSize rs) _
    congr 1
    funext i
    simp only [imageOf, Machine.written, overwrite, hsize, hstart, Int.toNat_natCast, Nat.add_mul]
    simp only [Nat.add_le_add_iff_left, Nat.add_sub_add_left]

lemma overwrite_slice {dev b : Bytes} {start n i : ℕ} :
    overwrite dev start (b.slice 0 n) i = if start ≤ i ∧ i < start + n then b (i - start)
      else dev i := by
  split
  · rename_i h
    rw [overwrite, if_pos h.1, Bytes.slice, List.getElem?_map, List.getElem?_range (by omega),
      Option.map_some, Option.getD_some, Nat.zero_add]
  · rename_i h
    rw [overwrite_outside (by rwa [Bytes.length_slice])]

lemma rewrite_zeroRequests {blockSize : ℕ} {stop : ℤ} {i : ℕ} {image : Bytes} (hsize : 0 < blockSize)
    (hchunk : blockSize ≤ CHUNK_BYTES) (hi : i < stop.toNat * blockSize) :
    rewrite (writesOf blockSize (zeroRequests blockSize 0 stop)) image i = 0 := by
  refine rewrite_const ?_ ?_
  · intro x hx y hy
    obtain ⟨r, hr, rfl⟩ := List.mem_map.1 hx
    obtain ⟨c, -, rfl⟩ := List.mem_map.1 hr
    exact List.eq_of_mem_replicate hy
  · obtain ⟨c, hc, hlo, hhi⟩ := exists_chunk (u := i / blockSize) (Nat.div_pos hchunk hsize)
      ((Nat.div_lt_iff_lt_mul hsize).2 hi)
    refine ⟨_, List.mem_map.2 ⟨_, List.mem_map.2 ⟨c, by rwa [sub_zero], rfl⟩, rfl⟩,
      Write.covers_iff.2 ?_⟩
    have hmod := Nat.div_add_mod' i blockSize
    have hlt := Nat.mod_lt i hsize
    simp only [zero_add, Int.toNat_natCast, List.length_replicate, ← Nat.add_mul]
    constructor
    · exact (Nat.mul_le_mul_right _ hlo).trans (Nat.div_mul_le_self ..)
    · have := Nat.mul_le_mul_right blockSize hhi
      rw [Nat.succ_mul] at this
      omega

end Partition

/-! ### Sizing a FAT -/

/-- How a loop that shrinks a FAT step by step goes on from a step that has become too large. -/
structure Steps where
  /-- The loop goes on while the step is at least this. -/
  least : ℤ
  /-- The step after one that cannot be taken. -/
  next : ℤ → ℤ
  pos : 0 < least
  less : ∀ step, least ≤ step → next step < step

/-- `while (step >= least) { if (fat - step > 0 && covers(fat - step)) fat -= step else step =
next(step) }`. -/
def shrink (st : Steps) (covers : ℤ → Bool) (fat step : ℤ) : ℤ :=
  if _ : st.least ≤ step then
    if 0 < fat - step ∧ covers (fat - step) = true then shrink st covers (fat - step) step
    else shrink st covers fat (st.next step)
  else fat
termination_by fat.toNat + step.toNat
decreasing_by
  · have := st.pos
    omega
  · have := st.pos
    have := st.less step ‹_›
    omega

/-- **What a loop that shrinks a FAT keeps.** -/
lemma shrink_induct {st : Steps} {covers : ℤ → Bool} {P Q : ℤ → Prop}
    (hnext : ∀ step, Q step → Q (st.next step))
    (hstep : ∀ fat step, P fat → Q step → st.least ≤ step → 0 < fat - step → P (fat - step))
    (fat step : ℤ) (hP : P fat) (hQ : Q step) : P (shrink st covers fat step) := by
  fun_induction shrink st covers fat step with
  | case1 fat step hle h ih => exact ih (hstep _ _ hP hQ hle h.1) hQ
  | case2 fat step hle h ih => exact ih hP (hnext _ hQ)
  | case3 fat step h => exact hP

lemma shrink_range (st : Steps) (covers : ℤ → Bool) (fat step : ℤ) :
    shrink st covers fat step = fat ∨ 0 < shrink st covers fat step ∧
    shrink st covers fat step < fat := by
  refine shrink_induct (P := fun x => x = fat ∨ 0 < x ∧ x < fat) (Q := fun _ => True)
    (fun _ _ => trivial)
    (fun x t hx _ hle h0 => ?_) fat step (Or.inl rfl) trivial
  have := st.pos
  omega

/-- **The loop ends at a FAT that cannot be a least step smaller**, if its steps come down to that
one. -/
lemma shrink_least {st : Steps} {covers : ℤ → Bool} {Q : ℤ → Prop} (hend : st.next st.least < st.least)
    (hnext : ∀ step, Q step → st.least < step → Q (st.next step) ∧ st.least ≤ st.next step)
    (fat step : ℤ) (hQ : Q step) (hstep : st.least ≤ step) :
    ¬(0 < shrink st covers fat step - st.least ∧ covers (shrink st covers fat step - st.least) =
      true) := by
  fun_induction shrink st covers fat step with
  | case1 fat step hle h ih => exact ih hQ hle
  | case2 fat step hle h ih =>
    rcases hle.lt_or_eq with hlt | rfl
    · obtain ⟨hQ', hle'⟩ := hnext step hQ hlt
      exact ih hQ' hle'
    · -- the last step: nothing is left of it
      rw [shrink, dif_neg (by omega)]
      exact h
  | case3 fat step h => exact absurd hstep h

def Steps.turn (st : Steps) (covers : ℤ → Bool) (s : ℤ × ℤ) : ℤ × ℤ :=
  if 0 < s.1 - s.2 ∧ covers (s.1 - s.2) = true then (s.1 - s.2, s.2) else (s.1, st.next s.2)

/-- **The loop ends**: after some turns, each at a step that is large enough, the step is too
small. -/
lemma shrink_turns (st : Steps) (covers : ℤ → Bool) (fat step : ℤ) : ∃ n last,
    (st.turn covers)^[n] (fat, step) = (shrink st covers fat step, last) ∧ last < st.least ∧
      ∀ m < n, st.least ≤ ((st.turn covers)^[m] (fat, step)).2 := by
  fun_induction shrink st covers fat step with
  | case1 fat step hle h ih =>
    obtain ⟨n, last, hn, hlast, hgo⟩ := ih
    have hturn : st.turn covers (fat, step) = (fat - step, step) := if_pos h
    refine ⟨n + 1, last, by rw [Function.iterate_succ_apply, hturn, hn], hlast, fun m hm => ?_⟩
    cases m with
    | zero => exact hle
    | succ m =>
      rw [Function.iterate_succ_apply, hturn]
      exact hgo m (by omega)
  | case2 fat step hle h ih =>
    obtain ⟨n, last, hn, hlast, hgo⟩ := ih
    have hturn : st.turn covers (fat, step) = (fat, st.next step) := if_neg h
    refine ⟨n + 1, last, by rw [Function.iterate_succ_apply, hturn, hn], hlast, fun m hm => ?_⟩
    cases m with
    | zero => exact hle
    | succ m =>
      rw [Function.iterate_succ_apply, hturn]
      exact hgo m (by omega)
  | case3 fat step h => exact ⟨0, step, rfl, by omega, fun m hm => absurd hm (Nat.not_lt_zero m)⟩

def firstFat (bytesPerSector : ℕ) (totalSectors spc : ℤ) : ℤ :=
  (i64 (i64 (i64 (totalSectors.tdiv spc + 2) * 4) + bytesPerSector - 1)).tdiv bytesPerSector

section FirstFat

variable {bps : ℕ} {total spc : ℤ}

lemma firstFat_bounds (total spc : ℤ) (hbps : 512 ≤ bps) :
    -2 ^ 54 ≤ firstFat bps total spc ∧ firstFat bps total spc ≤ 2 ^ 54 := by
  obtain ⟨k, -, hlo, hhi⟩ := i64_eq (i64 (i64 (total.tdiv spc + 2) * 4) + bps - 1)
  unfold firstFat
  generalize i64 (i64 (i64 (total.tdiv spc + 2) * 4) + bps - 1) = y at hlo hhi ⊢
  have hpos : (0 : ℤ) < bps := by omega
  have hmul : (512 : ℤ) * 2 ^ 54 ≤ bps * 2 ^ 54 := by
    have : (512 : ℤ) ≤ bps := by omega
    nlinarith
  -- either way the quotient has the size of `y / bps`
  have key : ∀ z : ℤ, 0 ≤ z → z ≤ 2 ^ 63 → 0 ≤ z / bps ∧ z / bps ≤ 2 ^ 54 := by
    intro z hz hz'
    refine ⟨Int.ediv_nonneg hz hpos.le, Int.ediv_le_of_le_mul hpos ?_⟩
    rw [mul_comm]
    omega
  rcases le_total 0 y with hy | hy
  · rw [tdiv_of_nonneg hy]
    have := key y hy (by omega)
    omega
  · rw [tdiv_of_nonpos hy]
    have := key (-y) (by omega) (by omega)
    omega

lemma firstFat_eq (hbps : 512 ≤ bps) (hbps' : bps ≤ 4096) (hlo : -2 ^ 60 ≤ total)
    (hhi : total ≤ 2 ^ 60) :
    firstFat bps total spc = ((total.tdiv spc + 2) * 4 + bps - 1).tdiv bps := by
  have hq : -2 ^ 60 ≤ total.tdiv spc ∧ total.tdiv spc ≤ 2 ^ 60 := by
    have habs := Int.natAbs_tdiv_le_natAbs total spc
    omega
  unfold firstFat
  rw [i64_of_range (x := total.tdiv spc + 2) (by omega) (by omega),
    i64_of_range (x := _ * 4) (by omega) (by omega),
    i64_of_range (by omega) (by omega)]

end FirstFat

/-! ### The libraries -/

/-- A Kotlin `String`: UTF-16 code units. -/
abbrev Text := List UInt16

/-- What the formatters call of the Java library, and what its clock and its random numbers give. -/
structure Library where
  isWhitespace : UInt16 → Bool
  uppercase : Text → Text
  /-- `Character.toUpperCase`. -/
  toUpperCase : UInt16 → UInt16
  /-- `FormatIds.volumeSerial()`. -/
  volumeSerial : ℤ
  /-- `FatTime.now()`: the date and the time. -/
  fatTime : ℕ × ℕ

def Library.trim (lib : Library) (s : Text) : Text :=
  ((s.dropWhile lib.isWhitespace).reverse.dropWhile lib.isWhitespace).reverse

end OtgMaster.Format
