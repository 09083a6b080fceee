import OtgMaster.Block.Drive
import Mathlib.Data.Nat.Size

/-!
`ResticChunker`: a file's bytes are cut where a rolling fingerprint of the last 64 bytes has 20 low
zero bits. The fingerprint is kept up to date by two tables, one that takes the byte that leaves the
window out and one that reduces what a shift has pushed over the polynomial's degree. The bytes come
through a buffer, which a stream fills in pieces of its own choice.
-/

namespace OtgMaster.Restic

open Block

/-! ### polynomials in a `Long` -/

/-- `63 - java.lang.Long.numberOfLeadingZeros(p)`. -/
def deg (p : UInt64) : ℤ := (p.toNat.size : ℤ) - 1

/-- The loop of `mod`. A turn clears the top bit of `x`, so there are at most 64. -/
def modLoop (d : UInt64) : ℕ → UInt64 → UInt64
  | 0, x => x
  | turns + 1, x =>
    if x ≠ 0 ∧ deg d ≤ deg x then modLoop d turns (x ^^^ d <<< (deg x - deg d).toNat.toUInt64) else x

def mod (x d : UInt64) : UInt64 := modLoop d 64 x

def appendByte (hash : UInt64) (b : UInt8) (pol : UInt64) : UInt64 := mod (hash <<< 8 ||| b.toUInt64) pol

/-! ### the chunker -/

def WINDOW : ℕ := 64

def MIN : ℕ := 512 * 1024

def MAX : ℕ := 8 * 1024 * 1024

def BUF : ℕ := 512 * 1024

def SPLIT_MASK : UInt64 := (1 : UInt64) <<< 20 - 1

/-- An `InputStream`: the bytes to come, and how many of them each call of `read` has ready. -/
structure InputStream where
  rest : List UInt8
  ready : ℕ → ℕ
  reads : ℕ := 0

/-- `read(buf, n, len)`: one byte or more, `none` at the end of the stream. -/
def InputStream.read (s : InputStream) (len : ℕ) : Option (List UInt8) × InputStream :=
  if s.rest = [] then (none, s)
  else
    let r := min len (max 1 (s.ready s.reads))
    (some (s.rest.take r), { s with rest := s.rest.drop r, reads := s.reads + 1 })

lemma InputStream.read_some {s s' : InputStream} {len : ℕ} {l : List UInt8} (hlen : 0 < len)
    (h : s.read len = (some l, s')) : 0 < l.length ∧ s.rest = l ++ s'.rest := by
  unfold read at h
  split at h
  · cases h
  · rename_i hrest
    cases h
    refine ⟨?_, (List.take_append_drop ..).symm⟩
    have := List.length_pos_of_ne_nil hrest
    rw [List.length_take]
    omega

structure ResticChunker where
  pol : UInt64
  window : List UInt8
  wpos : ℕ
  digest : UInt64
  /-- The bytes of `buf` up to `bmax`. -/
  buf : List UInt8
  bpos : ℕ
  eof : Bool
  input : InputStream

def outTable (pol : UInt64) (b : UInt8) : UInt64 :=
  (appendByte · 0 pol)^[WINDOW - 1] (appendByte 0 b pol)

def modTable (pol : UInt64) (b : UInt64) : UInt64 :=
  let k := (deg pol).toNat.toUInt64
  mod (b <<< k) pol ||| b <<< k

namespace ResticChunker

def new (pol : UInt64) (input : InputStream) : E ResticChunker := do
  require (9 ≤ deg pol ∧ deg pol ≤ 63) s!"chunker polynomial of degree {deg pol}"
  return {
    pol, window := List.replicate WINDOW 0, wpos := 0, digest := 0, buf := [], bpos := 0
    eof := false, input }

def slide (c : ResticChunker) (b : UInt8) : ResticChunker :=
  let out := c.window.getD c.wpos 0
  let digest := c.digest ^^^ outTable c.pol out
  let index := digest >>> (deg c.pol - 8).toNat.toUInt64 &&& 0xff
  let digest := digest <<< 8 ||| b.toUInt64
  { c with
    window := c.window.set c.wpos b
    wpos := (c.wpos + 1) % WINDOW
    digest := digest ^^^ modTable c.pol index }

def reset (c : ResticChunker) : ResticChunker :=
  { c with window := List.replicate WINDOW 0, wpos := 0, digest := 0 }.slide 1

def fillLoop (input : InputStream) (buf : List UInt8) : List UInt8 × Bool × InputStream :=
  if _hlen : buf.length < BUF then
    match _hread : input.read (BUF - buf.length) with
    | (none, input) => (buf, true, input)
    | (some l, input) => fillLoop input (buf ++ l)
  else (buf, false, input)
termination_by BUF - buf.length
decreasing_by
  have := (InputStream.read_some (by omega) _hread).1
  rw [List.length_append]
  omega

def fill (c : ResticChunker) : Bool × ResticChunker :=
  if c.bpos < c.buf.length then (true, c)
  else if c.eof then (false, c)
  else
    let (buf, eof, input) := fillLoop c.input []
    (0 < buf.length, { c with buf, bpos := 0, eof, input })

def left (c : ResticChunker) : List UInt8 := c.buf.drop c.bpos ++ c.input.rest

/-- The loop fills the buffer from the stream and leaves nothing out; it stops short only at the
end. -/
lemma fillLoop_spec {input input' : InputStream} {buf buf' : List UInt8} {eof : Bool}
    (h : fillLoop input buf = (buf', eof, input')) :
    buf' ++ input'.rest = buf ++ input.rest ∧ (buf ++ input.rest ≠ [] → 0 < buf'.length) ∧
      (eof = true → input'.rest = []) := by
  fun_induction fillLoop input buf with
  | case1 input buf hlen input₁ hread =>
    cases h
    unfold InputStream.read at hread
    split at hread
    · rename_i hrest
      cases hread
      rw [hrest, List.append_nil]
      exact ⟨rfl, List.length_pos_of_ne_nil, fun _ => rfl⟩
    · cases hread
  | case2 input buf hlen l input₁ hread ih =>
    obtain ⟨hpos, hrest⟩ := InputStream.read_some (by omega) hread
    obtain ⟨h1, h2, h3⟩ := ih h
    rw [List.append_assoc, ← hrest] at h1 h2
    exact ⟨h1, h2, h3⟩
  | case3 input buf hlen =>
    cases h
    exact ⟨rfl, fun _ => by unfold BUF at hlen; omega, nofun⟩

lemma lt_of_fill {c c' : ResticChunker} (h : c.fill = (true, c')) : c'.bpos < c'.buf.length := by
  unfold fill at h
  split at h
  · cases h
    assumption
  · split at h
    · cases h
    · split at h
      obtain ⟨h1, rfl⟩ := Prod.mk.inj h
      exact of_decide_eq_true h1

lemma fill_left {c c' : ResticChunker} {more : Bool} (h : c.fill = (more, c')) : c'.left = c.left := by
  unfold fill at h
  split at h
  · cases h
    rfl
  · rename_i hpos
    split at h
    · cases h
      rfl
    · split at h
      rename_i buf eof input hloop
      cases h
      have hbuf : c.buf.drop c.bpos = [] := List.drop_eq_nil_of_le (by omega)
      rw [left, left, hbuf]
      exact (fillLoop_spec hloop).1

/-- The loop over the bytes that cannot end a chunk: false at the end of the input. -/
def takePre (pre : ℕ) (c : ResticChunker) (out : List UInt8) : Bool × ResticChunker × List UInt8 :=
  if 0 < pre then
    match _hfill : c.fill with
    | (false, c) => (false, c, out)
    | (true, c) =>
      let n := min pre (c.buf.length - c.bpos)
      takePre (pre - n) { c with bpos := c.bpos + n } (out ++ (c.buf.drop c.bpos).take n)
  else (true, c, out)
termination_by pre
decreasing_by
  have := lt_of_fill _hfill
  omega

/-- The loop over the bytes of the buffer: true at a cut. -/
def scan (c : ResticChunker) (count : ℕ) : List UInt8 → Bool × ResticChunker × ℕ
  | [] => (false, c, count)
  | b :: bs =>
    let c := { c.slide b with bpos := c.bpos + 1 }
    let count := count + 1
    if count < MIN then c.scan count bs
    else if c.digest &&& SPLIT_MASK = 0 ∨ MAX ≤ count then (true, c, count)
    else c.scan count bs

lemma scan_buf {c c' : ResticChunker} {count count' : ℕ} {bs : List UInt8} {cut : Bool}
    (h : c.scan count bs = (cut, c', count')) :
    c'.buf = c.buf ∧ c'.input = c.input ∧ c'.eof = c.eof ∧ c'.pol = c.pol ∧
      (cut = false → c'.bpos = c.bpos + bs.length) := by
  induction bs generalizing c count with
  | nil =>
    cases h
    exact ⟨rfl, rfl, rfl, rfl, fun _ => rfl⟩
  | cons b bs ih =>
    rw [scan] at h
    split at h
    · obtain ⟨h1, h2, h3, h4, h5⟩ := ih h
      refine ⟨h1, h2, h3, h4, fun hcut => ?_⟩
      rw [h5 hcut, List.length_cons, ← Nat.add_assoc, Nat.add_right_comm]
    · split at h
      · cases h
        exact ⟨rfl, rfl, rfl, rfl, nofun⟩
      · obtain ⟨h1, h2, h3, h4, h5⟩ := ih h
        refine ⟨h1, h2, h3, h4, fun hcut => ?_⟩
        rw [h5 hcut, List.length_cons, ← Nat.add_assoc, Nat.add_right_comm]

def hashLoop (c : ResticChunker) (count : ℕ) (out : List UInt8) : Option (List UInt8) × ResticChunker :=
  match _hfill : c.fill with
  | (false, c) => (if count = 0 then none else some out, c)
  | (true, c) =>
    match _hscan : c.scan count (c.buf.drop c.bpos) with
    | (true, c', _) => (some (out ++ (c'.buf.drop c.bpos).take (c'.bpos - c.bpos)), c')
    | (false, c', count) => hashLoop c' count (out ++ (c'.buf.drop c.bpos).take (c'.bpos - c.bpos))
termination_by c.left.length
decreasing_by
  have hlt := lt_of_fill _hfill
  obtain ⟨hbuf, hinput, -, -, hpos⟩ := scan_buf _hscan
  rw [← fill_left _hfill, left, left, hbuf, hinput, hpos rfl]
  simp only [List.length_append, List.length_drop]
  omega

/-- `next`: the next chunk, or `none` at the end of the input. -/
def next (c : ResticChunker) : Option (List UInt8) × ResticChunker :=
  match takePre (MIN - WINDOW) c.reset [] with
  | (false, c, out) => (if out.length = 0 then none else some out, c)
  | (true, c, out) => hashLoop c out.length out

end ResticChunker

end OtgMaster.Restic
